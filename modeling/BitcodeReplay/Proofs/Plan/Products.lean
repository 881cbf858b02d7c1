import BitcodeReplay.Pipeline
import BitcodeReplay.Proofs.Graph.Build
import BitcodeReplay.Proofs.Path
import BitcodeReplay.Proofs.Plan.Partition
import BitcodeReplay.Proofs.ProductTree.Order

/-!
Which directory a target is found in, once the jobs of a plan have been run. A directory is recorded
for the first of the targets that share it. Any other target, with commands or without, is looked
for by name among all directories in the order of their jobs.
-/

namespace BitcodeReplay

open Path Replay

/-! ### Names -/

/-- A name without a slash loses its extension, if anything. -/
theorem ProductTree.stemOf_of_no_slash {name : String} (h : '/' ∉ name.toList) :
    stemOf name = name ∨ stemOf name = nameStem name := by
  by_cases hempty : name = ""
  · exact .inl (hempty ▸ by decide)
  by_cases hdot : name = "."
  · exact .inl (hdot ▸ by decide)
  by_cases hdots : name = ".."
  · exact .inl (hdots ▸ by decide)
  · exact .inr (by rw [stemOf, stem?_of_isComponent ⟨hempty, hdot, hdots, h⟩, Option.getD_some])

namespace Pif.Target

variable {u : Pif.Target}

theorem answersTo_name (u : Pif.Target) : u.answersTo u.name = true := by simp [answersTo]

theorem answersTo_productName (h : u.productName ≠ "") : u.answersTo u.productName = true := by
  simp [answersTo, h]

/-- A target answers to the name of its product without the extension. -/
theorem answersTo_nameStem (h : u.productName ≠ "") :
    u.answersTo (nameStem u.productName) = true := by
  rw [nameStem, splitName]
  cases hcut : Text.cutLast? '.' u.productName.toList with
  | none =>
    simp only [String.ofList_toList]
    exact answersTo_productName h
  | some parts =>
    obtain ⟨stem, extension⟩ := parts
    by_cases hstem : stem = []
    · simp only [hstem, if_true, String.ofList_toList]
      exact answersTo_productName h
    · simp [answersTo, productStem?, h, hcut, hstem]

end Pif.Target

/-- The graph of a snapshot has targets of the snapshot only. -/
theorem Graph.mem_targets_of_build {c : Pif.Cache} {roots : List Pif.Guid} {n : Nat}
    {u : Pif.Target} (h : (build c roots).target? n = some u) : u ∈ c.targets := by
  obtain ⟨ts, hdraws⟩ := draws_trace c roots
  rw [build_eq_drawn hdraws, target?_drawn] at h
  exact List.mem_of_find?_eq_some (hdraws.known u (List.mem_of_getElem? h))

namespace ProductTree

/-- Whether a target answers to the name of a directory, with or without its extension. -/
def answersToDirectory (u : Pif.Target) (directory : String) : Bool :=
  u.answersTo directory || u.answersTo (stemOf directory)

variable {p : ProductTree} {u : Pif.Target} {directory : String}

theorem directory?_of_recorded (h : p.recorded? u = some directory) :
    p.directory? u = some directory := by
  rw [recorded?] at h
  obtain ⟨entry, hfind, rfl⟩ := Option.map_eq_some_iff.1 h
  rw [directory?, hfind]
  rfl

theorem directory?_of_not_recorded (h : p.recorded? u = none) :
    p.directory? u = p.names.find? (answersToDirectory u) := by
  rw [recorded?, Option.map_eq_none_iff] at h
  rw [directory?, h, names, List.find?_map]
  rfl

end ProductTree

namespace Plan

open ProductTree Pipeline

variable {t : Transcript} {c : Pif.Cache} {archived : List String} {u : Pif.Target}
  {p : ProductTree} {j : Job}

/-- A target answers to the name of its own directory. -/
theorem answersToDirectory_directoryName (hslash : '/' ∉ u.productName.toList)
    (harchived : ∀ name ∈ archived, IsComponent name) :
    answersToDirectory u (directoryName archived u) = true := by
  rw [answersToDirectory, Bool.or_eq_true, directoryName]
  by_cases hproduct : u.productName = ""
  · rw [if_pos hproduct]
    exact .inl (u.answersTo_name)
  have hstem : u.answersTo (stemOf u.productName) = true := by
    rcases stemOf_of_no_slash hslash with h | h
    · rw [h]
      exact Pif.Target.answersTo_productName hproduct
    · rw [h]
      exact Pif.Target.answersTo_nameStem hproduct
  rw [if_neg hproduct]
  cases hfound : Archive.product? archived ((stem? u.productName).getD u.productName) with
  | none => exact .inl (Pif.Target.answersTo_productName hproduct)
  | some name =>
    have hname := List.find?_some hfound
    have hcomponent := harchived name (List.mem_of_find?_eq_some hfound)
    obtain ⟨hsame, -⟩ : nameStem name = stemOf u.productName ∧ _ := by
      simpa [stemOf] using hname
    rw [Option.getD_some, stemOf, stem?_of_isComponent hcomponent, Option.getD_some, hsame]
    exact .inr hstem

/-! ### Targets and jobs -/

/-- Some target of the transcript that has commands is this one. -/
def HasCommands (t : Transcript) (c : Pif.Cache) (u : Pif.Target) : Prop :=
  ∃ target ∈ t.targets, target.2 ≠ [] ∧ c.targetNamed? target.1 = some u

/-- The first target of the transcript that has commands for the directory of a target is this
one. -/
def ComesFirst (t : Transcript) (c : Pif.Cache) (archived : List String) (u : Pif.Target) : Prop :=
  ∃ first rest, targetsIn t c archived (directoryName archived u) = first :: rest ∧
    c.targetNamed? first.1 = some u

theorem ComesFirst.hasCommands (h : ComesFirst t c archived u) : HasCommands t c u := by
  obtain ⟨first, rest, hfirst, hu⟩ := h
  obtain ⟨hmem, hcommands, -⟩ := directoryOf_of_first hfirst
  exact ⟨first, hmem, hcommands, hu⟩

theorem directoryOf_eq {name : String} (h : c.targetNamed? name = some u) :
    directoryOf c archived name = directoryName archived u := by rw [directoryOf, h, rootDirectory]

/-- Jobs carry the identifiers of the targets that come first. -/
theorem exists_job_iff (ht : t.targetNames.Nodup) (hc : c.guids.Nodup) (hu : u ∈ c.targets)
    {directory : String} : (∃ j ∈ jobs t c archived, j.directory = directory ∧
      j.guid = some u.guid) ↔ ComesFirst t c archived u ∧ directory = directoryName archived u := by
  constructor
  · rintro ⟨j, hj, rfl, hguid⟩
    obtain ⟨first, rest, hfirst, hfirstGuid⟩ := exists_first ht hj
    rw [hfirstGuid] at hguid
    obtain ⟨v, hv, hvu⟩ := Option.map_eq_some_iff.1 hguid
    obtain rfl : v = u :=
      List.inj_on_of_nodup_map hc (Pif.Cache.mem_of_targetNamed? hv) hu hvu
    have hdirectory : j.directory = directoryName archived v := by
      rw [← (directoryOf_of_first hfirst).2.2, directoryOf_eq hv]
    exact ⟨⟨first, rest, hdirectory ▸ hfirst, hv⟩, hdirectory⟩
  · rintro ⟨⟨first, rest, hfirst, hfirstTarget⟩, rfl⟩
    obtain ⟨hmem, hcommands, hdirectory⟩ := directoryOf_of_first hfirst
    obtain ⟨j, ⟨hj, hjdirectory⟩, -⟩ := (partitions_jobs ht hc archived).placed first hmem hcommands
    rw [hdirectory] at hjdirectory
    refine ⟨j, hj, hjdirectory, ?_⟩
    obtain ⟨first', rest', hfirst', hguid⟩ := exists_first ht hj
    rw [hjdirectory, hfirst] at hfirst'
    cases hfirst'
    rw [hguid, hfirstTarget]
    rfl

/-- The commands of a target are in the job of its directory. -/
theorem exists_job_of_commands (ht : t.targetNames.Nodup) (hc : c.guids.Nodup)
    (archived : List String) {target : String × List CapturedCommand} (hmem : target ∈ t.targets)
    (hcommands : target.2 ≠ []) (hu : c.targetNamed? target.1 = some u) :
    ∃ j ∈ jobs t c archived,
      j.directory = directoryName archived u ∧ target.2.Sublist j.commands := by
  have hpartitions := partitions_jobs ht hc archived
  obtain ⟨j, ⟨hj, hdirectory⟩, -⟩ := hpartitions.placed target hmem hcommands
  refine ⟨j, hj, hdirectory.trans (directoryOf_eq hu), ?_⟩
  have hshared : target ∈ targetsIn t c archived j.directory := by
    simpa [targetsIn, hdirectory] using ⟨hmem, hcommands⟩
  rw [hpartitions.shared j hj, List.flatMap_def]
  exact List.sublist_flatten_of_mem (List.mem_map_of_mem hshared)

/-! ### Targets and directories -/

section

variable (ht : t.targetNames.Nodup) (hc : c.guids.Nodup) (hu : u ∈ c.targets)
  (hp : p.products = (jobs t c archived).map fun j => (j.directory, j.guid))

include hp

theorem names_planned : p.names = (jobs t c archived).map (·.directory) := by
  rw [ProductTree.names, hp, List.map_map]
  rfl

include ht hc hu

theorem recorded?_of_comesFirst (h : ComesFirst t c archived u) :
    p.recorded? u = some (directoryName archived u) := by
  obtain ⟨j, hj, -, hguid⟩ := (exists_job_iff ht hc hu).2 ⟨h, rfl⟩
  obtain ⟨entry, hentry⟩ := Option.isSome_iff_exists.1
    (List.find?_isSome (p := fun entry => entry.2 == some u.guid).2
      ⟨(j.directory, j.guid), hp ▸ List.mem_map_of_mem hj, by simp [hguid]⟩)
  have hmem := List.mem_of_find?_eq_some hentry
  rw [hp] at hmem
  obtain ⟨k, hk, rfl⟩ := List.mem_map.1 hmem
  have hkguid : k.guid = some u.guid := by simpa using List.find?_some hentry
  have hdirectory := ((exists_job_iff ht hc hu).1 ⟨k, hk, rfl, hkguid⟩).2
  rw [recorded?, hentry, Option.map_some, hdirectory]

theorem recorded?_of_not_comesFirst (h : ¬ ComesFirst t c archived u) : p.recorded? u = none := by
  rw [recorded?, Option.map_eq_none_iff, List.find?_eq_none, hp]
  intro entry hmem hguid
  obtain ⟨j, hj, rfl⟩ := List.mem_map.1 hmem
  exact h ((exists_job_iff ht hc hu).1 ⟨j, hj, rfl, by simpa using hguid⟩).1

/-- A target that comes first is found in its own directory. -/
theorem directory?_of_comesFirst (h : ComesFirst t c archived u) :
    p.directory? u = some (directoryName archived u) :=
  directory?_of_recorded (recorded?_of_comesFirst ht hc hu hp h)

/-- Any other target is found in the first directory that it answers to. -/
theorem directory?_of_not_comesFirst (h : ¬ ComesFirst t c archived u) : p.directory? u =
    ((jobs t c archived).map (·.directory)).find? (answersToDirectory u) := by
  rw [directory?_of_not_recorded (recorded?_of_not_comesFirst ht hc hu hp h), names_planned hp]

theorem directory?_eq_none_iff (h : ¬ HasCommands t c u) : p.directory? u = none ↔
    ∀ j ∈ jobs t c archived, answersToDirectory u j.directory = false := by
  rw [directory?_of_not_comesFirst ht hc hu hp (mt ComesFirst.hasCommands h), List.find?_eq_none]
  simp

/-- A target with commands is found in its own directory unless it answers to an earlier one and
does not come first. -/
theorem directory?_eq_own_iff (hcommands : HasCommands t c u) (hslash : '/' ∉ u.productName.toList)
    (harchived : ∀ name ∈ archived, IsComponent name) :
    p.directory? u = some (directoryName archived u) ↔ ComesFirst t c archived u ∨
      ∀ front back, (jobs t c archived).map (·.directory) =
        front ++ directoryName archived u :: back →
        ∀ d ∈ front, answersToDirectory u d = false := by
  by_cases hfirst : ComesFirst t c archived u
  · exact iff_of_true (directory?_of_comesFirst ht hc hu hp hfirst) (.inl hfirst)
  rw [directory?_of_not_comesFirst ht hc hu hp hfirst, or_iff_right hfirst,
    List.find?_eq_some_iff_append]
  have hnodup := (partitions_jobs ht hc archived).directories
  constructor
  · rintro ⟨-, front, back, heq, hfront⟩ front' back' heq' d hd
    have hsame : front' = front := by
      rw [heq] at heq' hnodup
      obtain ⟨hbefore, hbehind⟩ :=
        not_or.1 (mt List.mem_append.2 (List.nodup_middle.1 hnodup).notMem)
      exact ((List.append_cons_inj_of_notMem hbefore hbehind).1 heq').1.symm
    simpa using hfront d (hsame ▸ hd)
  · intro hearlier
    obtain ⟨target, hmem, hne, htarget⟩ := hcommands
    obtain ⟨j, hj, hdirectory, -⟩ := exists_job_of_commands ht hc archived hmem hne htarget
    have hown : directoryName archived u ∈ (jobs t c archived).map (·.directory) :=
      hdirectory ▸ List.mem_map_of_mem hj
    obtain ⟨front, back, heq⟩ := List.append_of_mem hown
    exact ⟨answersToDirectory_directoryName hslash harchived, front, back, heq,
      fun d hd => by simp [hearlier front back heq d hd]⟩

end

/-- Where the plan of a transcript puts the commands of a target, and where it is looked for. -/
structure IsFound (i : Inputs) (archived : List String) (p : ProductTree) (u : Pif.Target) :
    Prop where
  planned : ∀ target ∈ i.transcript.targets, target.2 ≠ [] →
    i.cache.targetNamed? target.1 = some u → ∃ j ∈ jobs i.transcript i.cache archived,
      j.directory = directoryName archived u ∧ target.2.Sublist j.commands
  first : ComesFirst i.transcript i.cache archived u →
    p.directory? u = some (directoryName archived u)
  other : ¬ ComesFirst i.transcript i.cache archived u → p.directory? u =
    ((jobs i.transcript i.cache archived).map (·.directory)).find? (answersToDirectory u)
  idle : ¬ HasCommands i.transcript i.cache u → (p.directory? u = none ↔
    ∀ j ∈ jobs i.transcript i.cache archived, answersToDirectory u j.directory = false)
  own : HasCommands i.transcript i.cache u → '/' ∉ u.productName.toList →
    (∀ name ∈ archived, IsComponent name) →
    (p.directory? u = some (directoryName archived u) ↔
      ComesFirst i.transcript i.cache archived u ∨
      ∀ front back, (jobs i.transcript i.cache archived).map (·.directory) =
        front ++ directoryName archived u :: back →
        ∀ d ∈ front, answersToDirectory u d = false)

/-- After a run, a target of the graph that comes first in its directory is found there. Any other
one, with commands or without, is found in the first directory that it answers to, which is its own
unless an earlier one is. Dependencies are copied from where they are found, and missing if they are
found nowhere. -/
theorem directory?_after_run {i : Inputs} {replay : Replayer} {base scratch root : String}
    {tree after : FileTree} {tally : Tally} (ht : i.transcript.targetNames.Nodup)
    (hc : i.cache.guids.Nodup) (hrun : runJobs replay base scratch tree (.start root)
      (jobs i.transcript i.cache archived) = ((after, p), .ok tally)) :
    (∀ n u, i.graph.target? n = some u → IsFound i archived p u) ∧
    ∀ embedded step, step ∈ p.steps i.graph embedded ↔
      ∃ product ∈ p.mergeOrder i.graph, ∃ n d, p.node? i.graph product = some n ∧
        d ∈ i.graph.dependencies n ∧ isEmbedded embedded d = false ∧
        ((p.directory? d = none ∧ step = .missing product d.name) ∨
          ∃ source, p.directory? d = some source ∧ source ≠ product ∧
            step = .copy source product) := by
  have hp : p.products = (jobs i.transcript i.cache archived).map fun j => (j.directory, j.guid) :=
    (runJobs_records hrun (partitions_jobs ht hc archived).directories).2
  refine ⟨fun n u hn => ?_, fun embedded step => ?_⟩
  · have hu : u ∈ i.cache.targets := Graph.mem_targets_of_build hn
    exact {
      planned := fun target hmem hne htarget =>
        exists_job_of_commands ht hc archived hmem hne htarget
      first := directory?_of_comesFirst ht hc hu hp
      other := directory?_of_not_comesFirst ht hc hu hp
      idle := directory?_eq_none_iff ht hc hu hp
      own := directory?_eq_own_iff ht hc hu hp }
  · simp only [mem_steps, step?_eq_some_iff]

/-! ### A borrowed directory -/

def mainTarget : Pif.Target :=
  ⟨.standard, "M", "Main", [⟨"P", []⟩], [], [], .application, "App.app"⟩

def kitTarget : Pif.Target :=
  ⟨.standard, "K", "Kit", [⟨"A", []⟩], [], [], .framework, "Core.framework"⟩

/-- Shares the framework, and has the name of the other product. -/
def appTarget : Pif.Target := ⟨.standard, "A", "App", [], [], [], .framework, "Core.framework"⟩

/-- Has no commands, and a product of the framework's name. -/
def pluginTarget : Pif.Target := ⟨.standard, "P", "Plugin", [], [], [], .bundle, "Core.bundle"⟩

def borrowing : Inputs where
  transcript := ⟨[("Main", [⟨"clang -c main.m", .clang⟩]), ("Kit", [⟨"clang -c kit.m", .clang⟩]),
    ("App", [⟨"clang -c app.m", .clang⟩])], 1⟩
  cache := ⟨⟨"W", "Borrowing", "/w", []⟩, [], [mainTarget, kitTarget, appTarget, pluginTarget]⟩

def borrowingProducts : ProductTree :=
  ⟨"/out", [("App.app", some "M"), ("Core.framework", some "K")]⟩

def borrowingTree : FileTree :=
  ⟨[(["out"], .dir), (["out", "App.app"], .dir), (["out", "Core.framework"], .dir), (["tmp"], .dir),
    (["tmp", "0-App.app"], .dir), (["tmp", "1-Core.framework"], .dir)]⟩

def borrowingGraph : Graph :=
  ⟨[⟨mainTarget, [⟨1, .dependency⟩]⟩, ⟨pluginTarget, [⟨0, .depender⟩]⟩,
    ⟨kitTarget, [⟨3, .dependency⟩]⟩, ⟨appTarget, [⟨2, .depender⟩]⟩]⟩

theorem graph_borrowing : borrowing.graph = borrowingGraph := by
  have hroots : (roots borrowing.transcript borrowing.cache).filterMap
      (fun root => root.2.map (·.guid)) = ["M", "K", "A"] := by decide
  have hguids : borrowing.cache.guids = ["M", "K", "A", "P"] := by decide
  have hmain : borrowing.cache.dependencyGuids "M" = ["P"] := by decide
  have hkit : borrowing.cache.dependencyGuids "K" = ["A"] := by decide
  have happ : borrowing.cache.dependencyGuids "A" = [] := by decide
  have hplugin : borrowing.cache.dependencyGuids "P" = [] := by decide
  have htrace : Graph.trace borrowing.cache ["M", "K", "A"] =
      [.enter "M", .edge "M" "P", .enter "P", .leave "P", .leave "M", .enter "K", .edge "K" "A",
        .enter "A", .leave "A", .leave "K"] := by
    simp [Graph.trace, Traversal.run, Traversal.tasksOf, hguids, hmain, hkit, happ, hplugin]
  rw [Inputs.graph, hroots, Graph.build, htrace]
  rfl

theorem jobs_borrowing : jobs borrowing.transcript borrowing.cache [] =
    [⟨"App.app", some "M", [⟨"clang -c main.m", .clang⟩]⟩,
      ⟨"Core.framework", some "K", [⟨"clang -c kit.m", .clang⟩, ⟨"clang -c app.m", .clang⟩]⟩] := by
  decide

theorem runJobs_borrowing (replay : Replayer) : ∃ after tally,
    runJobs replay "/" "/tmp" borrowingTree (.start "/out")
      (jobs borrowing.transcript borrowing.cache []) = ((after, borrowingProducts), .ok tally) := by
  rw [jobs_borrowing]
  exact runJobs_of_hasDirectory replay (by decide) (by decide) (by decide)

theorem hasCommands_app : HasCommands borrowing.transcript borrowing.cache appTarget :=
  ⟨("App", [⟨"clang -c app.m", .clang⟩]), by decide, by decide, rfl⟩

theorem not_hasCommands_plugin :
    ¬ HasCommands borrowing.transcript borrowing.cache pluginTarget := by
  rintro ⟨target, hmem, -, hplugin⟩
  have hothers : ∀ target ∈ borrowing.transcript.targets,
      (borrowing.cache.targetNamed? target.1).map (·.guid) ≠ some "P" := by decide
  exact hothers target hmem (congrArg (Option.map (·.guid)) hplugin)

theorem comesFirst_kit : ComesFirst borrowing.transcript borrowing.cache [] kitTarget :=
  ⟨("Kit", [⟨"clang -c kit.m", .clang⟩]), [("App", [⟨"clang -c app.m", .clang⟩])], by decide, rfl⟩

theorem steps_borrowing : borrowingProducts.steps borrowingGraph [] =
    [.copy "App.app" "Core.framework", .copy "Core.framework" "App.app"] := by
  have hmain : borrowingProducts.node? borrowingGraph "App.app" = some 0 := by decide
  have hkit : borrowingProducts.node? borrowingGraph "Core.framework" = some 2 := by decide
  have hnodes : dependencyNodes borrowingGraph 0 = [1] ∧ dependencyNodes borrowingGraph 1 = [] ∧
      dependencyNodes borrowingGraph 2 = [3] ∧ dependencyNodes borrowingGraph 3 = [] := by decide
  have hnames : borrowingProducts.names = ["App.app", "Core.framework"] := by decide
  have hvertices : List.range borrowingGraph.size = [0, 1, 2, 3] := by decide
  have horder : borrowingProducts.mergeOrder borrowingGraph = ["Core.framework", "App.app"] := by
    rw [mergeOrder, hnames]
    simp only [orderFrom, hmain, hkit, hvertices]
    simp [Traversal.run, Traversal.tasksOf, hnodes]
    decide
  rw [steps, horder]
  decide

/-- The plugin has no commands and is found in the framework all the same, and the framework's
second target is found in the app, whose name it has. So the two directories are copied into each
other. -/
theorem borrowing_copies_both_ways :
    borrowing.transcript.targetNames.Nodup ∧ borrowing.cache.guids.Nodup ∧
    (∃ after tally, runJobs (replayJobs fun _ _ _ t => (t, .error .notFound)) "/" "/tmp"
      borrowingTree (.start "/out") (jobs borrowing.transcript borrowing.cache []) =
        ((after, borrowingProducts), .ok tally)) ∧
    (borrowing.graph.target? 1 = some pluginTarget ∧
      ¬ HasCommands borrowing.transcript borrowing.cache pluginTarget ∧
      borrowingProducts.directory? pluginTarget = some "Core.framework") ∧
    (borrowing.graph.target? 3 = some appTarget ∧
      HasCommands borrowing.transcript borrowing.cache appTarget ∧
      directoryName [] appTarget = "Core.framework" ∧
      borrowingProducts.directory? appTarget = some "App.app") ∧
    borrowingProducts.steps borrowing.graph [] =
      [.copy "App.app" "Core.framework", .copy "Core.framework" "App.app"] := by
  rw [graph_borrowing]
  exact ⟨by decide, by decide, runJobs_borrowing _, ⟨rfl, not_hasCommands_plugin, by decide⟩,
    ⟨rfl, hasCommands_app, by decide, by decide⟩, steps_borrowing⟩

/-- The framework's first target is found in the framework, and the plugin in the first directory of
its product's name. -/
theorem directory?_after_run_borrowing :
    borrowing.transcript.targetNames.Nodup ∧ borrowing.cache.guids.Nodup ∧
    ∃ after tally, runJobs (replayJobs fun _ _ _ t => (t, .error .notFound)) "/" "/tmp"
      borrowingTree (.start "/out") (jobs borrowing.transcript borrowing.cache []) =
        ((after, borrowingProducts), .ok tally) ∧
      borrowingProducts.directory? kitTarget = some (directoryName [] kitTarget) ∧
      borrowingProducts.directory? pluginTarget =
        ["App.app", "Core.framework"].find? (answersToDirectory pluginTarget) := by
  have ht : borrowing.transcript.targetNames.Nodup := by decide
  have hc : borrowing.cache.guids.Nodup := by decide
  obtain ⟨after, tally, hrun⟩ := runJobs_borrowing (replayJobs fun _ _ _ t => (t, .error .notFound))
  obtain ⟨hfound, -⟩ := directory?_after_run ht hc hrun
  have hkit := hfound 2 kitTarget (by rw [graph_borrowing]; rfl)
  have hplugin := hfound 1 pluginTarget (by rw [graph_borrowing]; rfl)
  refine ⟨ht, hc, after, tally, hrun, hkit.first comesFirst_kit, ?_⟩
  rw [hplugin.other (mt ComesFirst.hasCommands not_hasCommands_plugin), jobs_borrowing]
  rfl

end Plan

end BitcodeReplay
