import BitcodeReplay.Proofs.FileTree.Edit
import BitcodeReplay.Proofs.ProductTree.Order
import BitcodeReplay.Replay.Schedule
import Mathlib.Algebra.GroupWithZero.Nat

/-!
What is known after jobs have been replayed, whatever their compilers do: each has a product of its
own, recorded for its target, and all of their commands have been counted.
-/

namespace BitcodeReplay.Replay

variable {base scratch : String} {index : Nat} {t : FileTree} {p : ProductTree} {jobs : List Job}
  {ready : List ReadyJob}

/-! ### Products -/

theorem recordProduct_of_not_mem {product : String} {guid : Option Pif.Guid}
    {products : List (String × Option Pif.Guid)} (h : product ∉ products.map (·.1)) :
    ProductTree.recordProduct product guid products = products ++ [(product, guid)] := by
  induction products with
  | nil => rfl
  | cons entry rest ih =>
    rw [List.map_cons, List.mem_cons, not_or] at h
    rw [ProductTree.recordProduct, if_neg (Ne.symm h.1), ih h.2, List.cons_append]

/-- A job has been prepared if its two directories have been made. -/
theorem prepare_cons_eq_ok {after : FileTree × ProductTree} {j : Job} {rest : List Job}
    (h : prepare base scratch index t p (j :: rest) = (after, .ok ready)) :
    ∃ made q made' later, ProductTree.ensure t p j.directory j.guid = (made, .ok q) ∧
      made.createDirAll (workDirectory scratch index j) = (made', .ok ()) ∧
      prepare base scratch (index + 1) made' q rest = (after, .ok later) ∧
      ready = ⟨j, ⟨base, workDirectory scratch index j, q.path j.directory⟩⟩ :: later := by
  rw [prepare] at h
  split at h
  · cases h
  next made q hensure =>
    simp only at h
    split at h
    · cases h
    next made' hwork =>
      split at h
      · cases h
      next after' later hlater =>
        cases h
        exact ⟨made, q, made', later, hensure, hwork, hlater, rfl⟩

/-- Preparing jobs records their directories behind those that are known. -/
theorem prepare_records {made : FileTree} {q : ProductTree}
    (h : prepare base scratch index t p jobs = ((made, q), .ok ready))
    (hnew : (p.names ++ jobs.map (·.directory)).Nodup) :
    q.root = p.root ∧ q.products = p.products ++ jobs.map fun j => (j.directory, j.guid) := by
  induction jobs generalizing index t p ready with
  | nil =>
    cases h
    exact ⟨rfl, by simp⟩
  | cons j rest ih =>
    obtain ⟨made', q', made'', later, hensure, -, hlater, -⟩ := prepare_cons_eq_ok h
    have hj : j.directory ∉ p.products.map (·.1) := fun hmem =>
      (List.nodup_append.1 hnew).2.2 _ hmem _ List.mem_cons_self rfl
    have hrecorded : q' = ⟨p.root, p.products ++ [(j.directory, j.guid)]⟩ := by
      rw [(ProductTree.ensure_eq_ok hensure).2, recordProduct_of_not_mem hj]
    subst hrecorded
    obtain ⟨hroot, hproducts⟩ := ih hlater (by simpa [ProductTree.names] using hnew)
    exact ⟨hroot, by rw [hproducts, List.append_assoc, List.map_cons, List.singleton_append]⟩

theorem prepare_jobs {after : FileTree × ProductTree}
    (h : prepare base scratch index t p jobs = (after, .ok ready)) : ready.map (·.job) = jobs := by
  induction jobs generalizing index t p ready with
  | nil =>
    cases h
    rfl
  | cons j rest ih =>
    obtain ⟨_, _, _, later, -, -, hlater, rfl⟩ := prepare_cons_eq_ok h
    rw [List.map_cons, ih hlater]

/-- Each job has the working directory of its place in the list and the product directory of its
name. -/
theorem prepare_site {after : FileTree × ProductTree} {k : Nat} {r : ReadyJob}
    (h : prepare base scratch index t p jobs = (after, .ok ready)) (hr : ready[k]? = some r) :
    ∃ j, jobs[k]? = some j ∧
      r = ⟨j, base, workDirectory scratch (index + k) j, Path.join p.root j.directory⟩ := by
  induction jobs generalizing index t p ready k with
  | nil =>
    cases h
    simp at hr
  | cons j rest ih =>
    obtain ⟨_, q, _, later, hensure, -, hlater, rfl⟩ := prepare_cons_eq_ok h
    obtain ⟨-, rfl⟩ := ProductTree.ensure_eq_ok hensure
    cases k with
    | zero =>
      cases hr
      exact ⟨j, rfl, rfl⟩
    | succ k =>
      obtain ⟨i, hi, rfl⟩ := ih hlater hr
      exact ⟨i, hi, by rw [Nat.add_right_comm, Nat.add_assoc]⟩

/-- After a run that starts without products, each job has its own. -/
theorem runJobs_records {replay : Replayer} {root : String} {after : FileTree} {tally : Tally}
    (h : runJobs replay base scratch t (.start root) jobs = ((after, p), .ok tally))
    (hjobs : (jobs.map (·.directory)).Nodup) :
    p.root = root ∧ p.products = jobs.map fun j => (j.directory, j.guid) := by
  rw [runJobs] at h
  split at h
  · cases h
  next hprepare =>
    cases h
    exact prepare_records hprepare hjobs

/-- Jobs whose directories are there already are prepared without a failure. -/
theorem prepare_of_hasDirectory
    (hproducts : ∀ j ∈ jobs, t.HasDirectory (Path.join p.root j.directory))
    (hworks : ∀ entry ∈ jobs.zipIdx index, t.HasDirectory (workDirectory scratch entry.2 entry.1)) :
    ∃ q ready, prepare base scratch index t p jobs = ((t, q), .ok ready) := by
  induction jobs generalizing index p with
  | nil => exact ⟨p, [], rfl⟩
  | cons j rest ih =>
    rw [List.zipIdx_cons] at hworks
    have hproduct : t.createDirAll (p.path j.directory) = (t, .ok ()) :=
      (hproducts j List.mem_cons_self).createDirAll_eq
    have hwork : t.createDirAll (workDirectory scratch index j) = (t, .ok ()) :=
      (hworks (j, index) List.mem_cons_self).createDirAll_eq
    obtain ⟨q, ready, hrest⟩ := ih
      (p := ⟨p.root, ProductTree.recordProduct j.directory j.guid p.products⟩)
      (fun k hk => hproducts k (List.mem_cons_of_mem _ hk))
      fun entry hentry => hworks entry (List.mem_cons_of_mem _ hentry)
    simp only [prepare, ProductTree.ensure, hproduct, hwork, hrest]
    exact ⟨q, _, rfl⟩

/-- A run over directories that are there already succeeds, and has a product for each job. -/
theorem runJobs_of_hasDirectory (replay : Replayer) {root : String}
    (hjobs : (jobs.map (·.directory)).Nodup)
    (hproducts : ∀ j ∈ jobs, t.HasDirectory (Path.join root j.directory))
    (hworks : ∀ entry ∈ jobs.zipIdx, t.HasDirectory (workDirectory scratch entry.2 entry.1)) :
    ∃ after tally, runJobs replay base scratch t (.start root) jobs =
      ((after, ⟨root, jobs.map fun j => (j.directory, j.guid)⟩), .ok tally) := by
  obtain ⟨⟨productRoot, products⟩, ready, hprepare⟩ : ∃ q ready,
      prepare base scratch 0 t (.start root) jobs = ((t, q), .ok ready) :=
    prepare_of_hasDirectory hproducts hworks
  have hrun : runJobs replay base scratch t (.start root) jobs =
      (((replay t ready).1, ⟨productRoot, products⟩), .ok (replay t ready).2) := by
    rw [runJobs, hprepare]
  obtain ⟨hroot, hrecorded⟩ := runJobs_records hrun hjobs
  simp only at hroot hrecorded
  rw [hroot, hrecorded] at hrun
  exact ⟨_, _, hrun⟩

/-! ### Counting -/

/-- How many commands jobs have. -/
def commandCount (jobs : List ReadyJob) : Nat := (jobs.map (·.job.commands.length)).sum

@[simp] theorem commandCount_nil : commandCount [] = 0 := rfl

@[simp] theorem commandCount_cons (r : ReadyJob) (rest : List ReadyJob) :
    commandCount (r :: rest) = r.job.commands.length + commandCount rest := by simp [commandCount]

@[simp] theorem commandCount_append (jobs more : List ReadyJob) :
    commandCount (jobs ++ more) = commandCount jobs + commandCount more := by simp [commandCount]

@[simp] theorem commands_add (a b : Tally) : (a.add b).commands = a.commands + b.commands := rfl

@[simp] theorem commands_zero : Tally.zero.commands = 0 := rfl

@[simp] theorem commands_one (succeeded : Bool) (modules : Nat) :
    (Tally.one succeeded modules).commands = 1 := rfl

theorem commands_tallyCommand (launch : Execution.Launcher) (t : FileTree) (s : Site)
    (c : CapturedCommand) : (tallyCommand launch t s c).2.commands = 1 := by
  rw [tallyCommand]
  split <;> rfl

theorem commands_replayCommands (launch : Execution.Launcher) (s : Site) (t : FileTree)
    (commands : List CapturedCommand) :
    (replayCommands launch s t commands).2.commands = commands.length := by
  induction commands generalizing t with
  | nil => rfl
  | cons c rest ih =>
    simp only [replayCommands, commands_add, commands_tallyCommand, ih, List.length_cons]
    omega

/-- One worker counts every command, whatever the compilers do. -/
theorem commands_replayJobs (launch : Execution.Launcher) (t : FileTree) (jobs : List ReadyJob) :
    (replayJobs launch t jobs).2.commands = commandCount jobs := by
  induction jobs generalizing t with
  | nil => rfl
  | cons r rest ih =>
    simp only [replayJobs, commands_add, commands_replayCommands, ih, commandCount_cons]

/-- A run counts all commands of its jobs if its replayer counts all commands of the jobs that have
been prepared. -/
theorem runJobs_commands {replay : Replayer} {after : FileTree × ProductTree} {tally : Tally}
    (hreplay : ∀ made q ready, prepare base scratch 0 t p jobs = ((made, q), .ok ready) →
      (replay made ready).2.commands = commandCount ready)
    (h : runJobs replay base scratch t p jobs = (after, .ok tally)) :
    tally.commands = (jobs.flatMap (·.commands)).length := by
  rw [runJobs] at h
  split at h
  · cases h
  next hprepare =>
    cases h
    rw [hreplay _ _ _ hprepare, ← prepare_jobs hprepare, commandCount, List.length_flatMap,
      List.map_map]
    rfl

end BitcodeReplay.Replay
