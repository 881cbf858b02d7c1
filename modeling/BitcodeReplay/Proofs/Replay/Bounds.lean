import BitcodeReplay.Proofs.FileTree.Making
import BitcodeReplay.Proofs.Plan.Confluence
import BitcodeReplay.Proofs.Replay.Crew

/-!
How far jobs reach. While compilers write only to some places, and no link stands there or below the
two directories of a run, replaying changes nothing else, in whatever order compilers work and their
bitcode is taken.
-/

namespace BitcodeReplay.Replay

open Path FileTree

/-- The directory of the product directories, that of the working directories, and the places to
which compilers write. -/
structure Bounds where
  root : Location
  scratch : Location
  written : Location → Prop

namespace Bounds

/-- A place below one of the two directories, or one to which compilers write. -/
def Covers (b : Bounds) (l : Location) : Prop :=
  (∃ name rest, l = b.root ++ name :: rest) ∨ (∃ name rest, l = b.scratch ++ name :: rest) ∨
    b.written l

/-- Nothing has changed out of bounds, and no link stands within. -/
structure Kept (b : Bounds) (made now : FileTree) : Prop where
  agree : Agree (fun l => ¬ b.Covers l) made now
  noLinks : ∀ l target, b.Covers l → now.get? l ≠ some (.link target)

/-- The paths to the two directories lead through places out of bounds, and no link stands within. -/
structure Fits (b : Bounds) (t : FileTree) (scratch root : String) : Prop where
  toScratch : t.LeadsThrough (fun l => ¬ b.Covers l) scratch b.scratch
  toRoot : t.LeadsThrough (fun l => ¬ b.Covers l) root b.root
  noLinks : ∀ l target, b.Covers l → t.get? l ≠ some (.link target)

/-- A compiler has changed only places to which compilers write, and has made no links there. -/
structure Works (b : Bounds) (t t' : FileTree) : Prop where
  agree : Agree (fun l => ¬ b.written l) t t'
  noLinks : ∀ l target, b.written l → t'.get? l ≠ some (.link target)
  proper : t.Proper → t'.Proper

/-- Where the output file map of a compiler run names files, these are found within bounds, as long
as files are taken. -/
def MapsWithin (b : Bounds) (t : FileTree) (s : Site) (i : Invocation) : Prop :=
  ∀ map paths path, i.compiler = .swiftc → i.outputFileMap = some map →
    OutputFileMap.bitcodePaths t (join s.base map) = .ok paths → path ∈ paths →
      ∀ now, Harvesting t s i now → now.isFile (join s.base path) = true →
        ∀ p, now.resolve false (join s.base path) = .ok p → b.Covers p.loc

/-- The trees that replaying jobs comes by, in whatever order: a compiler has worked, or what one
should have left for a command of a job has been taken. -/
inductive Replays (b : Bounds) (ready : List ReadyJob) (made : FileTree) : FileTree → Prop
  | start : Replays b ready made made
  | work {now now' : FileTree} : Replays b ready made now → b.Works now now' →
      Replays b ready made now'
  | take {now : FileTree} {r : ReadyJob} {c : CapturedCommand} {i : Invocation} :
      Replays b ready made now → r ∈ ready → c ∈ r.job.commands →
      Invocation.ofCaptured c = .ok i → b.MapsWithin now r.site i →
      Replays b ready made (harvest now r.site i).1

variable {b : Bounds} {made now now' : FileTree} {scratch root output source name : String}
  {compiler : Compiler} {s : Site} {i : Invocation} {ready : List ReadyJob} {r : ReadyJob}
  {l top : Location}

theorem covers_root (b : Bounds) (name : String) (rest : Location) :
    b.Covers (b.root ++ name :: rest) := .inl ⟨name, rest, rfl⟩

theorem covers_scratch (b : Bounds) (name : String) (rest : Location) :
    b.Covers (b.scratch ++ name :: rest) := .inr (.inl ⟨name, rest, rfl⟩)

theorem Fits.kept (h : b.Fits made scratch root) : b.Kept made made := ⟨.refl _ _, h.noLinks⟩

/-- A change within bounds that puts no link there. -/
theorem Kept.change (h : b.Kept made now) (hchange : ∀ l, now'.get? l ≠ now.get? l →
      b.Covers l ∧ ∀ target, now'.get? l ≠ some (.link target)) : b.Kept made now' where
  agree := by
    intro l hl
    by_contra hne
    refine hl (hchange l ?_).1
    rwa [h.agree l hl]
  noLinks := by
    intro l target hl
    by_cases hsame : now'.get? l = now.get? l
    · rw [hsame]
      exact h.noLinks l target hl
    · exact (hchange l hsame).2 target

theorem Kept.work (h : b.Kept made now) (hwork : b.Works now now') : b.Kept made now' := by
  refine h.change fun l hne => ?_
  have hwritten : b.written l := by
    by_contra hl
    exact hne (hwork.agree l hl)
  exact ⟨.inr (.inr hwritten), fun target => hwork.noLinks l target hwritten⟩

theorem Kept.linkFree_root (h : b.Kept made now) : now.LinkFree b.root :=
  fun name rest target => h.noLinks _ target (b.covers_root name rest)

theorem Kept.linkFree_scratch (h : b.Kept made now) : now.LinkFree b.scratch :=
  fun name rest target => h.noLinks _ target (b.covers_scratch name rest)

theorem Kept.toRoot (h : b.Kept made now) (hfits : b.Fits made scratch root) :
    now.LeadsThrough (fun _ => True) root b.root :=
  (hfits.toRoot.of_agree h.agree).mono fun _ _ => trivial

theorem Kept.toScratch (h : b.Kept made now) (hfits : b.Fits made scratch root) :
    now.LeadsThrough (fun _ => True) scratch b.scratch :=
  (hfits.toScratch.of_agree h.agree).mono fun _ _ => trivial

/-- The root leads where it led. -/
theorem Kept.leadsTo {left : Nat} (h : b.Kept made now) (hfits : b.Fits made scratch root)
    (hlead : made.LeadsTo root left b.root) : now.LeadsTo root left b.root := by
  rw [LeadsTo, hfits.toRoot.stays.passage_eq h.agree]
  exact hlead

/-- The path of a name in the root directory leads to the place of that name. -/
theorem Kept.leads_root (h : b.Kept made now) (hfits : b.Fits made scratch root)
    (hc : IsComponent name) :
    now.LeadsThrough (fun _ => True) (join root name) (b.root ++ [name]) :=
  (h.toRoot hfits).join hc trivial fun target => h.noLinks _ target (b.covers_root name [])

theorem Kept.leads_scratch (h : b.Kept made now) (hfits : b.Fits made scratch root)
    (hc : IsComponent name) :
    now.LeadsThrough (fun _ => True) (join scratch name) (b.scratch ++ [name]) :=
  (h.toScratch hfits).join hc trivial fun target => h.noLinks _ target (b.covers_scratch name [])

/-- Where a path leads to a directory and one sees everything, a name below it leads to its place. -/
theorem loc_of_leads (h : now.LeadsThrough (fun _ => True) output top) (hc : IsComponent name)
    {p : Place} (hp : now.resolve false (join output name) = .ok p) : p.loc = top ++ [name] := by
  have hstays : now.LinksStay (fun _ => True) top :=
    fun _ _ _ _ => stays_everywhere _ _ _ _
  exact (h.isOwn (O := (· = top ++ [name])) hstays hc trivial rfl).own p hp

/-! ### Taking the files of a compiler run -/

/-- A file that is found within bounds is put into a product directory. -/
theorem Kept.takeFile (h : b.Kept made now) (hproper : now.Proper)
    (hout : now.LeadsThrough (fun _ => True) output (b.root ++ [name]))
    (hsource : now.isFile source = true → ∀ p, now.resolve false source = .ok p → b.Covers p.loc) :
    b.Kept made (takeFile now compiler output source).1 ∧
      (takeFile now compiler output source).1.Proper := by
  rcases takeFile_cases compiler output source hproper with
    hsame | ⟨loc, e, kept, p, hfile, hfound, hloc, hc, hplace, hproper', hget⟩
  · rw [hsame]
    exact ⟨h, hproper⟩
  · have hfrom : b.Covers loc := hsource hfile _ hfound
    have hto : b.Covers p.loc := by
      rw [loc_of_leads hout hc hplace, List.append_assoc]
      exact b.covers_root name [kept]
    refine ⟨h.change fun l hne => ?_, hproper'⟩
    rw [hget] at hne ⊢
    split
    · next heq =>
      refine ⟨heq ▸ hto, fun target htarget => h.noLinks loc target hfrom ?_⟩
      rw [hloc, htarget]
    · next hp =>
      rw [if_neg hp] at hne
      split
      · next heq => exact ⟨heq ▸ hfrom, by simp⟩
      · next hl => exact absurd (if_neg hl) hne

variable {directory work : String}

/-- What a compiler should have left in its working directory, or where its output file map says, is
found within bounds. -/
theorem covers_source (hproper : now.Proper)
    (hmaps : b.MapsWithin now s i) {current : FileTree} (hcurrent : Harvesting now s i current)
    (hwork : current.LeadsThrough (fun _ => True) s.work (b.scratch ++ [work]))
    (hleaves : Leaves now s i source) (hfile : current.isFile source = true) :
    ∀ p, current.resolve false source = .ok p → b.Covers p.loc := by
  intro p hp
  cases hleaves with
  | temporary _ hfind hname _ =>
    rw [loc_of_leads hwork (hproper.named _ _ hname) hp, List.append_assoc]
    exact b.covers_scratch work _
  | mapped hswift hmap hpaths hpath =>
    exact hmaps _ _ _ hswift hmap hpaths hpath current hcurrent hfile p hp

/-- Taking what a compiler run has left changes places within bounds only. -/
theorem Kept.harvest (h : b.Kept made now) (hproper : now.Proper)
    (hfits : b.Fits made scratch root) (hdirectory : IsComponent directory)
    (hwork : IsComponent work) (houtput : s.output = join root directory)
    (hsite : s.work = join scratch work) (hmaps : b.MapsWithin now s i) :
    b.Kept made (harvest now s i).1 ∧ (harvest now s i).1.Proper := by
  have hkeeps : ∀ current, Harvesting now s i current → b.Kept made current ∧ current.Proper := by
    intro current hcurrent
    refine hcurrent.keeps (P := fun current => b.Kept made current ∧ current.Proper) ⟨h, hproper⟩
      fun current source hcurrent hleaves ⟨hkept, hproper'⟩ => ?_
    have hout : current.LeadsThrough (fun _ => True) s.output (b.root ++ [directory]) := by
      rw [houtput]
      exact hkept.leads_root hfits hdirectory
    have hfrom : current.LeadsThrough (fun _ => True) s.work (b.scratch ++ [work]) := by
      rw [hsite]
      exact hkept.leads_scratch hfits hwork
    exact hkept.takeFile hproper' hout (covers_source hproper hmaps hcurrent hfrom hleaves)
  rw [Replay.harvest]
  cases hproduced : produced now s i with
  | error e => exact ⟨h, hproper⟩
  | ok files => exact hkeeps _ (.taken hproduced List.prefix_rfl)

/-! ### Replaying jobs -/

/-- Every job works in the directory of a name below the one of working directories, and its bitcode
goes to that of a name below the root. -/
def ArePlaced (scratch root : String) (ready : List ReadyJob) : Prop :=
  ∀ r ∈ ready, ∃ work directory, IsComponent work ∧ IsComponent directory ∧
    r.site.work = join scratch work ∧ r.site.output = join root directory

/-- Whatever compilers write within bounds, replaying jobs changes nothing out of them. -/
theorem Replays.kept (hreplays : b.Replays ready made now) (hfits : b.Fits made scratch root)
    (hproper : made.Proper) (hplaced : ArePlaced scratch root ready) :
    b.Kept made now ∧ now.Proper := by
  induction hreplays with
  | start => exact ⟨hfits.kept, hproper⟩
  | work _ hwork ih => exact ⟨ih.1.work hwork, hwork.proper ih.2⟩
  | take _ hr _ _ hmaps ih =>
    obtain ⟨work, directory, hwork, hdirectory, hsite, houtput⟩ := hplaced _ hr
    exact ih.1.harvest ih.2 hfits hdirectory hwork houtput hsite hmaps

theorem arePlaced_of_prepare {base : String} {t : FileTree} {jobs : List Job}
    {after : FileTree × ProductTree} (hnames : ∀ j ∈ jobs, IsComponent j.directory)
    (h : prepare base scratch 0 t (.start root) jobs = (after, .ok ready)) :
    ArePlaced scratch root ready := by
  intro r hr
  obtain ⟨k, hk⟩ := List.getElem?_of_mem hr
  obtain ⟨hj, hplaced⟩ := Plan.isPlaced_of_prepare h hk
  have hc := hnames _ (List.mem_of_getElem? hj)
  exact ⟨_, _, Plan.isComponent_workName hc k, hc, hplaced.work, hplaced.output⟩

/-- Whatever replaying has come by, a compiler that is started for a command of a job only works, and
its output file map names files within bounds. -/
structure Confines (b : Bounds) (ready : List ReadyJob) (made : FileTree)
    (launch : Execution.Launcher) : Prop where
  works : ∀ now, b.Replays ready made now → ∀ r ∈ ready, ∀ c ∈ r.job.commands, ∀ i,
    Invocation.ofCaptured c = .ok i →
      b.Works now (launch i.program i.arguments r.site.work now).1
  maps : ∀ now, b.Replays ready made now → ∀ r ∈ ready, ∀ c ∈ r.job.commands, ∀ i,
    Invocation.ofCaptured c = .ok i → b.MapsWithin now r.site i

variable {launch : Execution.Launcher} {c : CapturedCommand} {commands : List CapturedCommand}
  {jobs : List ReadyJob}

theorem Replays.tallyCommand (h : b.Replays ready made now) (hlaunch : b.Confines ready made launch)
    (hr : r ∈ ready) (hc : c ∈ r.job.commands) :
    b.Replays ready made (tallyCommand launch now r.site c).1 := by
  rw [tallyCommand_eq, compile]
  cases hi : Invocation.ofCaptured c with
  | error e => exact h
  | ok i =>
    have hworked := h.work (hlaunch.works now h r hr c hc i hi)
    simp only
    cases hlaunched : launch i.program i.arguments r.site.work now with
    | mk compiled result =>
      rw [hlaunched] at hworked
      cases result with
      | error e => exact hworked
      | ok outcome => exact hworked.take hr hc hi (hlaunch.maps _ hworked r hr c hc i hi)

theorem Replays.replayCommands (h : b.Replays ready made now)
    (hlaunch : b.Confines ready made launch) (hr : r ∈ ready) (hc : commands ⊆ r.job.commands) :
    b.Replays ready made (replayCommands launch r.site now commands).1 := by
  induction commands generalizing now with
  | nil => exact h
  | cons c rest ih =>
    rw [replayCommands_cons]
    exact ih (h.tallyCommand hlaunch hr (hc List.mem_cons_self))
      fun c hmem => hc (List.mem_cons_of_mem _ hmem)

/-- One who does the jobs one after the other replays them. -/
theorem Replays.replayJobs (h : b.Replays ready made now) (hlaunch : b.Confines ready made launch)
    (hjobs : jobs ⊆ ready) : b.Replays ready made (replayJobs launch now jobs).1 := by
  induction jobs generalizing now with
  | nil => exact h
  | cons r rest ih =>
    rw [Replay.replayJobs]
    exact ih (h.replayCommands hlaunch (hjobs List.mem_cons_self) fun c hc => hc)
      fun r hmem => hjobs (List.mem_cons_of_mem _ hmem)

/-! ### Replaying with a crew -/

/-- Whatever replaying has come by, starting compilers for commands of jobs and waiting for them is
the work of compilers, and their output file maps name files within bounds. -/
structure ConfinesCrew {σ : Type} (b : Bounds) (ready : List ReadyJob) (made : FileTree)
    (bench : Bench σ) : Prop where
  starts : ∀ s, b.Replays ready made (bench.tree s) → ∀ r ∈ ready, ∀ c ∈ r.job.commands, ∀ i,
    Invocation.ofCaptured c = .ok i → ∀ s' n,
      bench.start i.program i.arguments r.site.work s = .ok (s', n) →
        b.Works (bench.tree s) (bench.tree s')
  awaits : ∀ s, b.Replays ready made (bench.tree s) → ∀ numbers,
    b.Works (bench.tree s) (bench.tree (bench.await numbers s).1)
  tree_withTree : ∀ t s, bench.tree (bench.withTree t s) = t
  maps : ∀ now, b.Replays ready made now → ∀ r ∈ ready, ∀ c ∈ r.job.commands, ∀ i,
    Invocation.ofCaptured c = .ok i → b.MapsWithin now r.site i

/-- A task for a command of a job, with other commands of the job and other jobs behind it. -/
def IsDue (ready : List ReadyJob) (task : Task) : Prop :=
  ∃ r ∈ ready, ∃ c ∈ r.job.commands, Invocation.ofCaptured c = .ok task.invocation ∧
    task.site = r.site ∧ task.commands ⊆ r.job.commands ∧ task.jobs ⊆ ready

/-- A worker that does and has left nothing but some jobs. -/
def WorksOn (ready : List ReadyJob) (w : Worker) : Prop :=
  (∀ task, w.task = some task → IsDue ready task) ∧ ∀ share ∈ w.shares, share.jobs ⊆ ready

section Crew

variable {σ : Type} {bench : Bench σ} {st : σ} {place bound shares : Nat} {workers : List Worker}
  {crew : Crew σ} (hbench : b.ConfinesCrew ready made bench)

/-- What a worker comes to that starts a compiler: a tree on the way, and a task that is due. -/
def ComesTo (b : Bounds) (ready : List ReadyJob) (made : FileTree) (bench : Bench σ)
    (result : σ × Tally × Option Task) : Prop :=
  b.Replays ready made (bench.tree result.1) ∧ ∀ task, result.2.2 = some task → IsDue ready task

include hbench

theorem ConfinesCrew.startCommands (h : b.Replays ready made (bench.tree st)) (hr : r ∈ ready)
    (hc : commands ⊆ r.job.commands) (hjobs : jobs ⊆ ready) :
    ComesTo b ready made bench (Crew.startCommands bench r.site jobs commands st) := by
  induction commands with
  | nil => exact ⟨h, by simp [Crew.startCommands]⟩
  | cons c rest ih =>
    have hfirst : c ∈ r.job.commands := hc List.mem_cons_self
    have hrest : rest ⊆ r.job.commands := fun c hmem => hc (List.mem_cons_of_mem _ hmem)
    simp only [Crew.startCommands]
    cases hi : Invocation.ofCaptured c with
    | error e => exact ih hrest
    | ok i =>
      simp only
      cases hstart : bench.start i.program i.arguments r.site.work st with
      | error e => exact ih hrest
      | ok started =>
        obtain ⟨s', n⟩ := started
        refine ⟨h.work (hbench.starts st h r hr c hfirst i hi s' n hstart), fun task htask => ?_⟩
        cases htask
        exact ⟨r, hr, c, hfirst, hi, rfl, hrest, hjobs⟩

theorem ConfinesCrew.startJobs (h : b.Replays ready made (bench.tree st)) (hjobs : jobs ⊆ ready) :
    ComesTo b ready made bench (Crew.startJobs bench jobs st) := by
  induction jobs generalizing st with
  | nil => exact ⟨h, by simp [Crew.startJobs]⟩
  | cons r rest ih =>
    have hrest : rest ⊆ ready := fun r hmem => hjobs (List.mem_cons_of_mem _ hmem)
    have hfirst := hbench.startCommands h (hjobs List.mem_cons_self) (fun c hc => hc) hrest
    rw [Crew.startJobs]
    generalize Crew.startCommands bench r.site rest r.job.commands st = result at hfirst
    obtain ⟨s', tally, task⟩ := result
    cases task with
    | some task => exact hfirst
    | none => exact ih hfirst.1 hrest

theorem ConfinesCrew.goOn {task : Task} (h : b.Replays ready made (bench.tree st))
    (hdue : IsDue ready task) : ComesTo b ready made bench (Crew.goOn bench task st) := by
  obtain ⟨r, hr, c, hc, hi, hsite, hcommands, hjobs⟩ := hdue
  have htaken := h.take hr hc hi (hbench.maps _ h r hr c hc _ hi)
  rw [Crew.goOn, hsite]
  rw [← hbench.tree_withTree (Replay.harvest (bench.tree st) r.site task.invocation).1 st] at htaken
  have hfirst := hbench.startCommands htaken hr hcommands hjobs
  simp only
  generalize Crew.startCommands bench r.site task.jobs task.commands _ = result at hfirst
  obtain ⟨s', tally, next⟩ := result
  cases next with
  | some next => exact hfirst
  | none => exact hbench.startJobs hfirst.1 hjobs

omit hbench in
theorem part_subset (bound : Nat) (s : Share) : (s.part bound).1 ⊆ s.jobs ∧
    ∀ left ∈ (s.part bound).2, left.jobs ⊆ s.jobs := by
  induction bound generalizing s with
  | zero => exact ⟨List.Subset.refl _, by simp [Share.part]⟩
  | succ bound ih =>
    rw [Share.part]
    split
    · exact ⟨List.Subset.refl _, by simp⟩
    · obtain ⟨hfirst, hleft⟩ := ih ⟨s.jobs.take (s.jobs.length / 2), s.splits / 2⟩
      have htake : s.jobs.take (s.jobs.length / 2) ⊆ s.jobs := List.take_subset _ _
      refine ⟨List.Subset.trans hfirst htake, fun left hmem => ?_⟩
      rcases List.mem_append.1 hmem with hmem | hmem
      · exact List.Subset.trans (hleft left hmem) htake
      · obtain rfl := List.mem_singleton.1 hmem
        exact List.drop_subset _ _

omit hbench in
theorem forall_mem_modify {f : Worker → Worker} (h : ∀ w ∈ workers, WorksOn ready w)
    (hf : ∀ w, WorksOn ready w → WorksOn ready (f w)) :
    ∀ w ∈ workers.modify place f, WorksOn ready w := by
  intro w hw
  obtain ⟨k, hk⟩ := List.getElem?_of_mem hw
  rw [List.getElem?_modify] at hk
  obtain ⟨known, hknown, heq⟩ := Option.map_eq_some_iff.1 hk
  have hworks := h known (List.mem_of_getElem? hknown)
  split at heq
  · exact heq ▸ hf known hworks
  · exact heq ▸ hworks

omit hbench in
/-- A share that is taken is one that somebody has left. -/
theorem take?_subset {share : Share} {rest : List Worker} (h : ∀ w ∈ workers, WorksOn ready w)
    (htake : Crew.take? workers place = some (share, rest)) :
    share.jobs ⊆ ready ∧ ∀ w ∈ rest, WorksOn ready w := by
  rw [Crew.take?] at htake
  split at htake
  next own left hown =>
    cases htake
    obtain ⟨w, hw, hshares⟩ := Option.map_eq_some_iff.1 hown
    have hworks := h w (List.mem_of_getElem? hw)
    rw [WorksOn, hshares] at hworks
    refine ⟨hworks.2 share List.mem_cons_self, forall_mem_modify h fun w hw => ⟨hw.1, ?_⟩⟩
    exact fun other hother => hworks.2 other (List.mem_cons_of_mem _ hother)
  · obtain ⟨other, -, htake⟩ := Option.bind_eq_some_iff.1 htake
    obtain ⟨found, hfound, htake⟩ := Option.map_eq_some_iff.1 htake
    cases htake
    obtain ⟨w, hw, hlast⟩ := Option.bind_eq_some_iff.1 hfound
    refine ⟨(h w (List.mem_of_getElem? hw)).2 found (List.mem_of_getLast? hlast),
      forall_mem_modify h fun w hw => ⟨hw.1, fun share hshare => hw.2 share ?_⟩⟩
    exact List.dropLast_subset _ hshare

omit hbench in
/-- A crew in a tree that replaying comes by, with nothing to do but the jobs. -/
def OnTrack (b : Bounds) (ready : List ReadyJob) (made : FileTree) (bench : Bench σ)
    (crew : Crew σ) : Prop :=
  b.Replays ready made (bench.tree crew.state) ∧ ∀ w ∈ crew.workers, WorksOn ready w

theorem ConfinesCrew.occupy (h : OnTrack b ready made bench crew) :
    OnTrack b ready made bench (Crew.occupy bench place bound crew) := by
  induction bound generalizing crew with
  | zero => exact h
  | succ bound ih =>
    rw [Crew.occupy]
    split
    · exact h
    next share rest htake =>
      obtain ⟨hshare, hrest⟩ := take?_subset h.2 htake
      obtain ⟨hpart, hleft⟩ := part_subset (share.jobs.length + 1) share
      have hstarted := hbench.startJobs h.1 (List.Subset.trans hpart hshare)
      cases hresult : Crew.startJobs bench (share.part (share.jobs.length + 1)).1 crew.state with
      | mk s started =>
        obtain ⟨tally, task⟩ := started
        rw [hresult] at hstarted
        have hcrew : OnTrack b ready made bench ⟨s, rest.modify place fun w =>
            ⟨task, (share.part (share.jobs.length + 1)).2 ++ w.shares⟩, crew.tally.add tally⟩ := by
          refine ⟨hstarted.1, forall_mem_modify hrest fun w hw => ⟨hstarted.2, fun left hmem => ?_⟩⟩
          rcases List.mem_append.1 hmem with hmem | hmem
          · exact List.Subset.trans (hleft left hmem) hshare
          · exact hw.2 left hmem
        simp only [hresult]
        split
        · exact hcrew
        · exact ih hcrew

theorem ConfinesCrew.occupyAll (h : OnTrack b ready made bench crew) :
    OnTrack b ready made bench (Crew.occupyAll bench bound crew) := by
  rw [Crew.occupyAll]
  generalize List.range crew.workers.length = places
  induction places generalizing crew with
  | nil => exact h
  | cons place rest ih =>
    rw [List.foldl_cons]
    refine ih ?_
    split
    · exact hbench.occupy h
    · exact h

theorem ConfinesCrew.run (h : OnTrack b ready made bench crew) :
    OnTrack b ready made bench (Crew.run bench shares bound crew) := by
  induction bound generalizing crew with
  | zero => exact h
  | succ bound ih =>
    have hmanned : OnTrack b ready made bench (Crew.occupyAll bench shares crew) :=
      hbench.occupyAll h
    rw [Crew.run]
    generalize Crew.occupyAll bench shares crew = manned at hmanned
    simp only
    split
    · exact hmanned
    · have hawaited := hmanned.1.work (hbench.awaits manned.state hmanned.1
        (manned.workers.filterMap fun w => w.task.map (·.number)))
      split
      next s heq =>
        rw [heq] at hawaited
        exact ⟨hawaited, hmanned.2⟩
      next s number heq =>
        rw [heq] at hawaited
        split
        next place task hidx hfind =>
          obtain ⟨w, hw, htask⟩ := getElem?_of_findIdx? hidx hfind
          have hdue := (hmanned.2 w (List.mem_of_getElem? hw)).1 task htask
          have hwent := hbench.goOn hawaited hdue
          generalize Crew.goOn bench task s = result at hwent
          obtain ⟨s', tally, next⟩ := result
          exact ih ⟨hwent.1, forall_mem_modify hmanned.2 fun w hw => ⟨hwent.2, hw.2⟩⟩
        · exact ⟨hawaited, hmanned.2⟩

/-- A crew that starts with the tree replays the jobs, however it shares them out. -/
theorem ConfinesCrew.replayer {enter : FileTree → σ} {leave : σ → FileTree} {count : Nat}
    (henter : bench.tree (enter made) = made)
    (hleave : ∀ s, b.Replays ready made (bench.tree s) → b.Works (bench.tree s) (leave s)) :
    b.Replays ready made (bench.replayer enter leave count made ready).1 := by
  have hstart : b.Replays ready made (bench.tree (enter made)) := by
    rw [henter]
    exact .start
  have hlast : OnTrack b ready made bench (Crew.last bench count ready (enter made)) := by
    refine hbench.run ⟨hstart, fun w hw => ?_⟩
    rcases List.mem_cons.1 hw with rfl | hw
    · refine ⟨by simp, fun share hshare => ?_⟩
      obtain rfl := List.mem_singleton.1 hshare
      exact List.Subset.refl _
    · obtain rfl := List.eq_of_mem_replicate hw
      exact ⟨by simp, by simp⟩
  rw [Bench.replayer, Crew.replay_eq]
  exact hlast.1.work (hleave _ hlast.1)

end Crew

end Bounds

end BitcodeReplay.Replay
