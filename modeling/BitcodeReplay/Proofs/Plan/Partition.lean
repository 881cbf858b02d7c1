import BitcodeReplay.Plan
import BitcodeReplay.Proofs.List
import BitcodeReplay.Proofs.Pif.Cache
import BitcodeReplay.Proofs.Replay.Crew

/-!
The plan of a transcript has one job for each directory that takes bitcode, with the commands of all
targets that share it. So planning loses no command and repeats none, jobs stand in the order of
their first targets, and a run counts as many commands as were captured, whoever replays them.
-/

namespace BitcodeReplay

variable {t : Transcript} {c : Pif.Cache} {archived : List String}

theorem Transcript.commandsFor_of_mem (ht : t.targetNames.Nodup)
    {target : String × List CapturedCommand} (hmem : target ∈ t.targets) :
    t.commandsFor target.1 = target.2 := by
  rw [commandsFor, lookup_of_mem ht hmem, Option.getD_some]

namespace Plan

open Replay

/-! ### Job by job -/

/-- The directory that takes the bitcode of a target of a transcript. -/
def directoryOf (c : Pif.Cache) (archived : List String) (name : String) : String :=
  rootDirectory archived (name, c.targetNamed? name)

/-- The targets that have commands. -/
def busy (t : Transcript) (names : List String) : List String :=
  names.filter fun name => t.commandsFor name ≠ []

/-- The targets with commands whose bitcode goes into a directory. -/
def sharing (t : Transcript) (c : Pif.Cache) (archived names : List String)
    (directory : String) : List String :=
  (busy t names).filter (directoryOf c archived · = directory)

/-- The job of the targets that share a directory, made for the first of them. -/
def jobFor (t : Transcript) (c : Pif.Cache) (archived names : List String) (directory : String) :
    Job where
  directory := directory
  guid := (sharing t c archived names directory).head?.bind fun name =>
    (c.targetNamed? name).map (·.guid)
  commands := (sharing t c archived names directory).flatMap t.commandsFor

/-- The directories of targets with commands, in the order of the first target of each. -/
def directories (t : Transcript) (c : Pif.Cache) (archived names : List String) : List String :=
  ((busy t names).map (directoryOf c archived)).eraseDups

variable {names : List String} {directory name : String}

theorem mem_busy : name ∈ busy t names ↔ name ∈ names ∧ t.commandsFor name ≠ [] := by simp [busy]

theorem mem_directories : directory ∈ directories t c archived names ↔
    sharing t c archived names directory ≠ [] := by
  rw [directories, List.mem_eraseDups, List.mem_map, sharing, Ne, List.filter_eq_nil_iff]
  simp

theorem nodup_directories : (directories t c archived names).Nodup := nodup_eraseDups _

/-! ### One more target -/

/-- Commands go to the job of their directory, or make one behind all others. -/
theorem extendJob_map {directories : List String} (hn : directories.Nodup) {f g : String → Job}
    {guid : Option Pif.Guid} {commands : List CapturedCommand} (hf : ∀ d, (f d).directory = d)
    (hold : ∀ d ≠ directory, g d = f d)
    (hmem : directory ∈ directories →
      g directory = { f directory with commands := (f directory).commands ++ commands })
    (hnew : directory ∉ directories → g directory = ⟨directory, guid, commands⟩) :
    extendJob directory guid commands (directories.map f) =
      (if directory ∈ directories then directories else directories ++ [directory]).map g := by
  induction directories with
  | nil => simp [extendJob, hnew]
  | cons d rest ih =>
    obtain ⟨hd, hrest⟩ := List.nodup_cons.1 hn
    rw [List.map_cons, extendJob, hf]
    by_cases he : d = directory
    · subst he
      have hsame : rest.map f = rest.map g := List.map_congr_left fun e hmem' =>
        (hold e fun h => hd (h ▸ hmem')).symm
      simp [hsame, hmem, hf]
    · have hmem' : directory ∈ d :: rest ↔ directory ∈ rest := by simp [Ne.symm he]
      rw [if_neg he, ih hrest (fun h => hmem (List.mem_cons_of_mem _ h))
        fun h => hnew fun h' => h (hmem'.1 h'), ← hold d he]
      simp only [hmem']
      split <;> rfl

theorem sharing_concat (hbusy : t.commandsFor name ≠ []) :
    sharing t c archived (names ++ [name]) directory = sharing t c archived names directory ++
      if directoryOf c archived name = directory then [name] else [] := by
  simp only [sharing, busy, List.filter_append]
  by_cases hd : directoryOf c archived name = directory <;> simp [hbusy, hd]

theorem jobFor_concat_of_ne (hbusy : t.commandsFor name ≠ [])
    (hd : directory ≠ directoryOf c archived name) :
    jobFor t c archived (names ++ [name]) directory = jobFor t c archived names directory := by
  simp [jobFor, sharing_concat hbusy, Ne.symm hd]

theorem jobFor_concat_of_mem (hbusy : t.commandsFor name ≠ [])
    (hd : directoryOf c archived name ∈ directories t c archived names) :
    jobFor t c archived (names ++ [name]) (directoryOf c archived name) =
      { jobFor t c archived names (directoryOf c archived name) with
        commands := (jobFor t c archived names (directoryOf c archived name)).commands ++
          t.commandsFor name } := by
  obtain ⟨first, rest, hshared⟩ := List.exists_cons_of_ne_nil (mem_directories.1 hd)
  simp [jobFor, sharing_concat hbusy, hshared]

theorem jobFor_concat_of_not_mem (hbusy : t.commandsFor name ≠ [])
    (hd : directoryOf c archived name ∉ directories t c archived names) :
    jobFor t c archived (names ++ [name]) (directoryOf c archived name) =
      ⟨directoryOf c archived name, (c.targetNamed? name).map (·.guid), t.commandsFor name⟩ := by
  have hshared : sharing t c archived names (directoryOf c archived name) = [] :=
    not_not.1 fun h => hd (mem_directories.2 h)
  simp [jobFor, sharing_concat hbusy, hshared]

theorem directories_concat (hbusy : t.commandsFor name ≠ []) :
    directories t c archived (names ++ [name]) =
      if directoryOf c archived name ∈ directories t c archived names then
        directories t c archived names
      else directories t c archived names ++ [directoryOf c archived name] := by
  have hnames : busy t (names ++ [name]) = busy t names ++ [name] := by simp [busy, hbusy]
  simp only [directories, hnames, List.map_append, List.map_singleton, eraseDups_concat,
    List.mem_eraseDups]

/-- The plan of some targets, taken one after the other. -/
theorem foldl_planRoot (t : Transcript) (c : Pif.Cache) (archived names : List String) :
    (names.map fun name => (name, c.targetNamed? name)).foldl (planRoot t archived) [] =
      (directories t c archived names).map (jobFor t c archived names) := by
  induction names using List.reverseRecOn with
  | nil => rfl
  | append_singleton names name ih =>
    rw [List.map_append, List.foldl_append, ih, List.map_singleton, List.foldl_cons,
      List.foldl_nil, planRoot]
    split
    next hidle =>
      have hnames : busy t (names ++ [name]) = busy t names := by simp [busy, hidle]
      have hjobs : jobFor t c archived (names ++ [name]) = jobFor t c archived names := by
        funext d
        simp only [jobFor, sharing, hnames]
      rw [hjobs]
      simp only [directories, hnames]
    next hbusy =>
      have hbusy' : t.commandsFor name ≠ [] := hbusy
      rw [directories_concat hbusy']
      exact extendJob_map nodup_directories (fun _ => rfl)
        (fun _ hd => jobFor_concat_of_ne hbusy' hd) (jobFor_concat_of_mem hbusy')
        (jobFor_concat_of_not_mem hbusy')

/-- The plan of a transcript, directory by directory. -/
theorem jobs_eq (t : Transcript) (c : Pif.Cache) (archived : List String) :
    jobs t c archived =
      (directories t c archived t.targetNames).map (jobFor t c archived t.targetNames) :=
  foldl_planRoot t c archived t.targetNames

/-! ### What the jobs share out -/

/-- The targets of a transcript that have commands and share a directory. -/
def targetsIn (t : Transcript) (c : Pif.Cache) (archived : List String) (directory : String) :
    List (String × List CapturedCommand) :=
  t.targets.filter fun target =>
    target.2 ≠ [] && directoryOf c archived target.1 = directory

/-- Jobs share out the commands of a transcript. -/
structure Partitions (t : Transcript) (c : Pif.Cache) (archived : List String) (plan : List Job) :
    Prop where
  commands : (plan.flatMap (·.commands)).Perm (t.targets.flatMap (·.2))
  directories : (plan.map (·.directory)).Nodup
  nonempty : ∀ j ∈ plan, j.commands ≠ []
  order : plan.map (·.directory) =
    ((t.targets.filter (·.2 ≠ [])).map fun target => directoryOf c archived target.1).eraseDups
  placed : ∀ target ∈ t.targets, target.2 ≠ [] →
    ∃! j, j ∈ plan ∧ j.directory = directoryOf c archived target.1
  shared : ∀ j ∈ plan, j.commands = (targetsIn t c archived j.directory).flatMap (·.2)
  named : ∀ j ∈ plan, ∃ first rest, targetsIn t c archived j.directory = first :: rest ∧
    j.guid = (c.targetNamed? first.1).map (·.guid)
  guids : (plan.filterMap (·.guid)).Nodup

theorem busy_targetNames (ht : t.targetNames.Nodup) :
    busy t t.targetNames = (t.targets.filter (·.2 ≠ [])).map (·.1) := by
  rw [busy, Transcript.targetNames, List.filter_map]
  congr 1
  refine List.filter_congr fun target hmem => ?_
  simp [Transcript.commandsFor_of_mem ht hmem]

theorem sharing_targetNames (ht : t.targetNames.Nodup) (directory : String) :
    sharing t c archived t.targetNames directory =
      (targetsIn t c archived directory).map (·.1) := by
  rw [sharing, busy_targetNames ht, List.filter_map, List.filter_filter, targetsIn]
  congr 1
  refine List.filter_congr fun target _ => ?_
  simp [Bool.and_comm]

theorem jobFor_commands (ht : t.targetNames.Nodup) (directory : String) :
    (jobFor t c archived t.targetNames directory).commands =
      (targetsIn t c archived directory).flatMap (·.2) := by
  rw [jobFor, sharing_targetNames ht, List.flatMap_map]
  exact List.flatMap_congr fun target hmem =>
    Transcript.commandsFor_of_mem ht (List.mem_of_mem_filter hmem)

theorem mem_jobs {j : Job} : j ∈ jobs t c archived ↔
    j.directory ∈ directories t c archived t.targetNames ∧
      j = jobFor t c archived t.targetNames j.directory := by
  rw [jobs_eq, List.mem_map]
  constructor
  · rintro ⟨directory, hmem, rfl⟩
    exact ⟨hmem, rfl⟩
  · rintro ⟨hmem, heq⟩
    exact ⟨j.directory, hmem, heq.symm⟩

theorem map_directory_jobs :
    (jobs t c archived).map (·.directory) = directories t c archived t.targetNames := by
  rw [jobs_eq, List.map_map]
  exact List.map_id' _

/-- Every job has a first target, which gave it its directory and its identifier. -/
theorem exists_first (ht : t.targetNames.Nodup) {j : Job} (hj : j ∈ jobs t c archived) :
    ∃ first rest, targetsIn t c archived j.directory = first :: rest ∧
      j.guid = (c.targetNamed? first.1).map (·.guid) := by
  obtain ⟨hmem, heq⟩ := mem_jobs.1 hj
  have hsharing := mem_directories.1 hmem
  rw [sharing_targetNames ht] at hsharing
  obtain ⟨first, rest, hfirst⟩ := List.exists_cons_of_ne_nil (mt List.map_eq_nil_iff.2 hsharing)
  refine ⟨first, rest, hfirst, ?_⟩
  rw [heq, jobFor, sharing_targetNames ht]
  simp only
  rw [hfirst]
  rfl

theorem directoryOf_of_first {directory : String} {first : String × List CapturedCommand}
    {rest : List (String × List CapturedCommand)}
    (h : targetsIn t c archived directory = first :: rest) :
    first ∈ t.targets ∧ first.2 ≠ [] ∧ directoryOf c archived first.1 = directory := by
  have hmem : first ∈ targetsIn t c archived directory := h ▸ List.mem_cons_self
  simpa [targetsIn] using hmem

/-- Targets are found by their identifiers, so what two jobs have in common is a directory. -/
theorem nodup_guids (ht : t.targetNames.Nodup) (hc : c.guids.Nodup) :
    ((jobs t c archived).filterMap (·.guid)).Nodup := by
  have hdistinct : (jobs t c archived).Pairwise fun a b => a.directory ≠ b.directory :=
    List.pairwise_map.1 (map_directory_jobs ▸ nodup_directories)
  rw [List.Nodup, List.pairwise_filterMap]
  refine hdistinct.imp_of_mem fun {a b} ha hb hne x hx y hy hxy => hne ?_
  subst hxy
  obtain ⟨first, _, hfirst, hguid⟩ := exists_first ht ha
  obtain ⟨other, _, hother, hguid'⟩ := exists_first ht hb
  rw [hguid] at hx
  rw [hguid'] at hy
  obtain ⟨u, hu, rfl⟩ := Option.map_eq_some_iff.1 hx
  obtain ⟨v, hv, hvu⟩ := Option.map_eq_some_iff.1 hy
  obtain rfl : v = u := List.inj_on_of_nodup_map hc (Pif.Cache.mem_of_targetNamed? hv)
    (Pif.Cache.mem_of_targetNamed? hu) hvu
  rw [← (directoryOf_of_first hfirst).2.2, ← (directoryOf_of_first hother).2.2, directoryOf,
    directoryOf, hu, hv]
  rfl

theorem perm_commands (ht : t.targetNames.Nodup) :
    ((jobs t c archived).flatMap (·.commands)).Perm (t.targets.flatMap (·.2)) := by
  have hbusy : ((t.targets.filter (·.2 ≠ [])).flatMap (·.2)) = t.targets.flatMap (·.2) := by
    induction t.targets with
    | nil => rfl
    | cons target rest ih =>
      rw [List.filter_cons, List.flatMap_cons, ← ih]
      by_cases h : target.2 = [] <;> simp [h]
  have hdirectories : (directories t c archived t.targetNames).Nodup := nodup_directories
  have hcovered : ∀ target ∈ t.targets.filter (·.2 ≠ []),
      directoryOf c archived target.1 ∈ directories t c archived t.targetNames := by
    intro target hmem
    rw [directories, busy_targetNames ht, List.map_map, List.mem_eraseDups]
    exact List.mem_map.2 ⟨target, hmem, rfl⟩
  have hgroups := perm_flatMap_filter
    (fun target : String × List CapturedCommand => directoryOf c archived target.1) hdirectories
    hcovered
  have hjobs : (jobs t c archived).flatMap (·.commands) =
      ((directories t c archived t.targetNames).flatMap fun directory =>
        (t.targets.filter (·.2 ≠ [])).filter
          (directoryOf c archived ·.1 = directory)).flatMap (·.2) := by
    rw [jobs_eq, List.flatMap_map, List.flatMap_assoc]
    refine List.flatMap_congr fun directory _ => ?_
    rw [jobFor_commands ht, targetsIn, List.filter_filter]
    congr 1
    exact List.filter_congr fun target _ => by simp [Bool.and_comm]
  rw [hjobs, ← hbusy]
  exact hgroups.flatMap_right _

theorem partitions_jobs (ht : t.targetNames.Nodup) (hc : c.guids.Nodup) (archived : List String) :
    Partitions t c archived (jobs t c archived) where
  commands := perm_commands ht
  directories := map_directory_jobs ▸ nodup_directories
  nonempty j hj hnil := by
    obtain ⟨first, rest, hfirst, -⟩ := exists_first ht hj
    rw [(mem_jobs.1 hj).2, jobFor_commands ht, hfirst] at hnil
    exact (directoryOf_of_first hfirst).2.1 (List.append_eq_nil_iff.1 hnil).1
  order := by
    rw [map_directory_jobs, Plan.directories, busy_targetNames ht, List.map_map]
    rfl
  placed target hmem hcommands := by
    have hdirectory : directoryOf c archived target.1 ∈ directories t c archived t.targetNames := by
      rw [Plan.directories, List.mem_eraseDups]
      exact List.mem_map.2 ⟨target.1, mem_busy.2 ⟨List.mem_map.2 ⟨target, hmem, rfl⟩, by
        rwa [Transcript.commandsFor_of_mem ht hmem]⟩, rfl⟩
    refine ⟨jobFor t c archived t.targetNames (directoryOf c archived target.1),
      ⟨mem_jobs.2 ⟨hdirectory, rfl⟩, rfl⟩, ?_⟩
    rintro j ⟨hj, hd⟩
    rw [(mem_jobs.1 hj).2, hd]
  shared j hj := by rw [← jobFor_commands ht, ← (mem_jobs.1 hj).2]
  named j hj := exists_first ht hj
  guids := nodup_guids ht hc

theorem length_commands (ht : t.targetNames.Nodup) :
    ((jobs t c archived).flatMap (·.commands)).length = t.totalCommands :=
  (perm_commands ht).length_eq

/-- A plan shares out all commands of a transcript, and a run of it that succeeds has counted each
of them once: with one worker whatever the compilers do, and with a crew if nobody is left waiting
for a compiler. -/
theorem jobs_partition (ht : t.targetNames.Nodup) (hc : c.guids.Nodup) (archived : List String) :
    Partitions t c archived (jobs t c archived) ∧
    (∀ (launch : Execution.Launcher) (base scratch root : String) (tree : FileTree)
      (after : FileTree × ProductTree) (tally : Tally),
      runJobs (replayJobs launch) base scratch tree (.start root) (jobs t c archived) =
        (after, .ok tally) → tally.commands = t.totalCommands) ∧
    (∀ (σ : Type) (b : Bench σ) (enter : FileTree → σ) (leave : σ → FileTree) (workers : Nat)
      (base scratch root : String) (tree : FileTree) (after : FileTree × ProductTree)
      (tally : Tally),
      runJobs (b.replayer enter leave workers) base scratch tree (.start root)
        (jobs t c archived) = (after, .ok tally) →
      (∀ made q ready, prepare base scratch 0 tree (.start root) (jobs t c archived) =
        ((made, q), .ok ready) → (Crew.last b workers ready (enter made)).IsIdle) →
      tally.commands = t.totalCommands) := by
  refine ⟨partitions_jobs ht hc archived, ?_, ?_⟩
  · intro launch base scratch root tree after tally hrun
    rw [runJobs_commands (fun made _ ready _ => commands_replayJobs launch made ready) hrun,
      length_commands ht]
  · intro σ b enter leave workers base scratch root tree after tally hrun hidle
    have hcounts : ∀ made q ready,
        prepare base scratch 0 tree (.start root) (jobs t c archived) = ((made, q), .ok ready) →
        (b.replayer enter leave workers made ready).2.commands = commandCount ready :=
      fun made q ready hprepare => commands_replayer leave (hidle made q ready hprepare)
    rw [runJobs_commands hcounts hrun, length_commands ht]

/-- Two targets share a framework, one is unknown, and one has no commands. -/
def sharedTranscript : Transcript where
  targets := [
    ("Kit", [⟨"clang -c kit.m", .clang⟩]),
    ("Empty", []),
    ("Ghost", [⟨"clang -c ghost.m", .clang⟩]),
    ("KitExtra", [⟨"clang -c extra.m", .clang⟩, ⟨"clang -c more.m", .clang⟩])]
  buildCount := 1

def sharedSnapshot : Pif.Cache where
  workspace := ⟨"W", "Shared", "/w", []⟩
  projects := []
  targets := [
    ⟨.standard, "K", "Kit", [], [], [], .framework, "Kit"⟩,
    ⟨.standard, "X", "KitExtra", [], [], [], .framework, "Kit"⟩,
    ⟨.standard, "E", "Empty", [], [], [], .application, "Empty.app"⟩]

/-- All directories of the plan are there. -/
def sharedTree : FileTree :=
  ⟨[(["out"], .dir), (["out", "Kit.framework"], .dir), (["out", "Ghost"], .dir), (["tmp"], .dir),
    (["tmp", "0-Kit.framework"], .dir), (["tmp", "1-Ghost"], .dir)]⟩

theorem jobs_shared : jobs sharedTranscript sharedSnapshot ["Kit.framework"] =
    [⟨"Kit.framework", some "K", [⟨"clang -c kit.m", .clang⟩, ⟨"clang -c extra.m", .clang⟩,
        ⟨"clang -c more.m", .clang⟩]⟩,
      ⟨"Ghost", none, [⟨"clang -c ghost.m", .clang⟩]⟩] := by decide

/-- Compilers that end as soon as they are waited for, in the order of their numbers. -/
def promptBench : Bench (FileTree × Nat) where
  tree := Prod.fst
  withTree t s := (t, s.2)
  start _ _ _ s := .ok ((s.1, s.2 + 1), s.2)
  await numbers s := (s, numbers.min?)
  outcome _ _ := ⟨some 0, .empty⟩

theorem promptBench_ends : promptBench.Ends := by
  intro numbers s hne
  obtain ⟨n, hn⟩ := Option.isSome_iff_exists.1 (List.isSome_min?_of_ne_nil hne)
  exact ⟨n, List.min?_mem hn, hn⟩

theorem runJobs_shared (replay : Replayer) : ∃ after tally,
    runJobs replay "/" "/tmp" sharedTree (.start "/out")
      (jobs sharedTranscript sharedSnapshot ["Kit.framework"]) =
        ((after, ⟨"/out", [("Kit.framework", some "K"), ("Ghost", none)]⟩), .ok tally) := by
  rw [jobs_shared]
  exact runJobs_of_hasDirectory replay (by decide) (by decide) (by decide)

/-- Two targets share a framework and one is unknown; one worker and three count all commands. -/
theorem jobs_partition_shared :
    sharedTranscript.targetNames.Nodup ∧ sharedSnapshot.guids.Nodup ∧ promptBench.Ends ∧
      Partitions sharedTranscript sharedSnapshot ["Kit.framework"]
        (jobs sharedTranscript sharedSnapshot ["Kit.framework"]) ∧
      ∀ replay ∈ [replayJobs fun _ _ _ t => (t, .error .notFound),
          promptBench.replayer (·, 0) Prod.fst 3],
        ∃ after tally, runJobs replay "/" "/tmp" sharedTree (.start "/out")
          (jobs sharedTranscript sharedSnapshot ["Kit.framework"]) = (after, .ok tally) ∧
          tally.commands = 4 := by
  have ht : sharedTranscript.targetNames.Nodup := by decide
  have hc : sharedSnapshot.guids.Nodup := by decide
  obtain ⟨hpartitions, hone, hcrew⟩ := jobs_partition ht hc ["Kit.framework"]
  refine ⟨ht, hc, promptBench_ends, hpartitions, fun replay hreplay => ?_⟩
  obtain ⟨after, tally, hrun⟩ := runJobs_shared replay
  refine ⟨_, tally, hrun, ?_⟩
  simp only [List.mem_cons, List.not_mem_nil, or_false] at hreplay
  rcases hreplay with rfl | rfl
  · exact hone _ _ _ _ _ _ _ hrun
  · exact hcrew _ _ _ _ _ _ _ _ _ _ _ hrun fun made q ready _ =>
      promptBench_ends.isIdle_last 3 ready (made, 0)

end Plan

end BitcodeReplay
