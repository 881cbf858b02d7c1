import BitcodeReplay.Execution.Replay
import BitcodeReplay.Proofs.Replay.Schedule
import BitcodeReplay.Replay.Crew
import Mathlib.Algebra.BigOperators.Group.List.Basic

/-!
A crew counts every command of its jobs once, however the jobs are shared out and in whatever order
compilers end. What workers still owe and what has been counted is the same sum all along, and in
the end nobody owes anything: a worker that finds no share finds none anywhere.
-/

namespace BitcodeReplay.Replay

variable {σ : Type} {b : Bench σ} {workers : List Worker} {place : Nat}

/-! ### What is owed -/

/-- The commands that a worker has still to count for what it does: the one that is running, those
behind it and those of other jobs. -/
def owedTask : Option Task → Nat
  | none => 0
  | some task => 1 + task.commands.length + commandCount task.jobs

@[simp] theorem owedTask_none : owedTask none = 0 := rfl

theorem owedTask_some (task : Task) :
    owedTask (some task) = 1 + task.commands.length + commandCount task.jobs := rfl

def owedShares (shares : List Share) : Nat := (shares.map fun s => commandCount s.jobs).sum

def sharesOf (workers : List Worker) : List Share := workers.flatMap (·.shares)

def owed (workers : List Worker) : Nat :=
  (workers.map fun w => owedTask w.task).sum + owedShares (sharesOf workers)

/-- How often shares can be taken before none is left. -/
def weight (shares : List Share) : Nat := (shares.map fun s => max 1 s.jobs.length).sum

/-- What a worker does, if there is such a worker and it does something. -/
def taskAt (workers : List Worker) (place : Nat) : Option Task := workers[place]?.bind (·.task)

@[simp] theorem owedShares_append (shares more : List Share) :
    owedShares (shares ++ more) = owedShares shares + owedShares more := by simp [owedShares]

@[simp] theorem weight_append (shares more : List Share) :
    weight (shares ++ more) = weight shares + weight more := by simp [weight]

/-! ### Starting compilers -/

theorem startCommands_count (site : Site) (jobs : List ReadyJob) (commands : List CapturedCommand)
    (s : σ) : ∃ s' tally task, Crew.startCommands b site jobs commands s = (s', tally, task) ∧
      tally.commands + owedTask task =
        commands.length + if task.isSome then commandCount jobs else 0 := by
  induction commands generalizing s with
  | nil => exact ⟨s, .zero, none, rfl, rfl⟩
  | cons c rest ih =>
    simp only [Crew.startCommands]
    split
    next s' task hstarted =>
      refine ⟨s', .zero, some task, rfl, ?_⟩
      split at hstarted
      · cases hstarted
      · split at hstarted
        · cases hstarted
          simp only [owedTask_some, commands_zero, Option.isSome_some, if_true, List.length_cons]
          omega
        · cases hstarted
    · obtain ⟨s', tally, task, heq, hcount⟩ := ih s
      refine ⟨s', (Tally.one false 0).add tally, task, by rw [heq], ?_⟩
      simp only [commands_add, commands_one, List.length_cons]
      omega

theorem startJobs_count (jobs : List ReadyJob) (s : σ) : ∃ s' tally task,
    Crew.startJobs b jobs s = (s', tally, task) ∧
      tally.commands + owedTask task = commandCount jobs := by
  induction jobs generalizing s with
  | nil => exact ⟨s, .zero, none, rfl, rfl⟩
  | cons r rest ih =>
    obtain ⟨s', tally, task, heq, hcount⟩ :=
      startCommands_count (b := b) r.site rest r.job.commands s
    rw [Crew.startJobs, heq]
    cases task with
    | some task => exact ⟨s', tally, some task, rfl, by simpa using hcount⟩
    | none =>
      obtain ⟨s'', more, task, heq', hcount'⟩ := ih s'
      refine ⟨s'', tally.add more, task, by simp only [heq'], ?_⟩
      simp only [owedTask_none, Option.isSome_none, Bool.false_eq_true, if_false] at hcount
      simp only [commands_add, commandCount_cons]
      omega

/-- Behind a command that has been counted, those that cannot be started are counted too. -/
theorem goOn_rest {own : Tally} (hown : own.commands = 1) (task : Task) (s : σ) :
    ∃ s' tally next, (match Crew.startCommands b task.site task.jobs task.commands s with
      | (s, tally, some next) => (s, own.add tally, some next)
      | (s, tally, none) =>
        let (s, more, next) := Crew.startJobs b task.jobs s
        (s, (own.add tally).add more, next)) = (s', tally, next) ∧
      tally.commands + owedTask next = owedTask (some task) ∧ 1 ≤ tally.commands := by
  obtain ⟨s', tally, next, heq, hcount⟩ := startCommands_count (b := b) task.site task.jobs
    task.commands s
  rw [heq]
  cases next with
  | some next =>
    refine ⟨s', own.add tally, some next, rfl, ?_⟩
    simp only [Option.isSome_some, if_true] at hcount
    simp only [owedTask_some task, commands_add, hown]
    omega
  | none =>
    obtain ⟨s'', more, next, heq', hcount'⟩ := startJobs_count (b := b) task.jobs s'
    refine ⟨s'', (own.add tally).add more, next, by simp only [heq'], ?_⟩
    simp only [owedTask_none, Option.isSome_none, Bool.false_eq_true, if_false] at hcount
    simp only [owedTask_some task, commands_add, hown]
    omega

/-- A worker whose compiler has ended counts that command, and those that it cannot start. -/
theorem goOn_count (task : Task) (s : σ) : ∃ s' tally next, Crew.goOn b task s = (s', tally, next) ∧
    tally.commands + owedTask next = owedTask (some task) ∧ 1 ≤ tally.commands := by
  rw [Crew.goOn]
  cases harvest (b.tree s) task.site task.invocation with
  | mk t result =>
    cases result with
    | ok modules => exact goOn_rest rfl task (b.withTree t s)
    | error e => exact goOn_rest rfl task (b.withTree t s)

/-! ### Taking shares -/

/-- What is done of a share and what is left of it are all of it, and less often can be taken. -/
theorem part_count (bound : Nat) (s : Share) :
    commandCount (Share.part bound s).1 + owedShares (Share.part bound s).2 = commandCount s.jobs ∧
      1 + weight (Share.part bound s).2 ≤ max 1 s.jobs.length := by
  induction bound generalizing s with
  | zero => exact ⟨rfl, Nat.le_max_left 1 s.jobs.length⟩
  | succ bound ih =>
    rw [Share.part]
    split
    · exact ⟨rfl, Nat.le_max_left 1 s.jobs.length⟩
    next hsplit =>
      have hlength : 2 ≤ s.jobs.length := by
        by_contra hlt
        exact hsplit (by simp [Nat.lt_of_not_le hlt])
      obtain ⟨hcount, hweight⟩ := ih ⟨s.jobs.take (s.jobs.length / 2), s.splits / 2⟩
      have htake : commandCount (s.jobs.take (s.jobs.length / 2)) +
          commandCount (s.jobs.drop (s.jobs.length / 2)) = commandCount s.jobs := by
        rw [← commandCount_append, List.take_append_drop]
      simp only [owedShares_append, weight_append]
      simp only [List.length_take] at hweight
      simp only [owedShares, weight, List.map_cons, List.map_nil, List.sum_cons, List.sum_nil,
        List.length_drop] at hcount hweight ⊢
      omega

theorem perm_sharesOf_modify {w : Worker} {f : Worker → Worker} {share : Share}
    (hw : workers[place]? = some w) (hf : w.shares.Perm (share :: (f w).shares)) :
    (sharesOf workers).Perm (share :: sharesOf (workers.modify place f)) := by
  induction workers generalizing place with
  | nil => simp at hw
  | cons first rest ih =>
    cases place with
    | zero =>
      obtain rfl : first = w := by simpa using hw
      simpa [sharesOf] using hf.append_right (sharesOf rest)
    | succ place =>
      have hlater : rest[place]? = some w := by simpa using hw
      have hrest := ih hlater
      simp only [sharesOf, List.modify_succ_cons, List.flatMap_cons]
      exact (hrest.append_left _).trans List.perm_middle

theorem taskAt_modify (f : Worker → Worker) (place i : Nat) :
    taskAt (workers.modify place f) i =
      workers[i]?.bind fun w => if i = place then (f w).task else w.task := by
  rw [taskAt, List.getElem?_modify]
  by_cases h : place = i
  · cases workers[i]? <;> simp [h]
  · cases workers[i]? <;> simp [h, Ne.symm h]

theorem map_task_modify (f : Worker → List Share) (place : Nat) :
    (workers.modify place fun w => { w with shares := f w }).map (·.task) =
      workers.map (·.task) := by
  refine List.ext_getElem? fun i => ?_
  rw [List.getElem?_map, List.getElem?_map, List.getElem?_modify]
  cases workers[i]? with
  | none => rfl
  | some w => by_cases h : place = i <;> simp [h]

/-- A worker that takes a share takes it from those that are left. -/
theorem take?_shares {share : Share} {rest : List Worker}
    (h : Crew.take? workers place = some (share, rest)) :
    rest.map (·.task) = workers.map (·.task) ∧
      ∃ found : Share, found.jobs = share.jobs ∧
        (sharesOf workers).Perm (found :: sharesOf rest) := by
  rw [Crew.take?] at h
  split at h
  next own left hown =>
    cases h
    obtain ⟨w, hw, hshares⟩ := Option.map_eq_some_iff.1 hown
    exact ⟨map_task_modify _ place, share, rfl,
      perm_sharesOf_modify hw (by rw [hshares])⟩
  · obtain ⟨other, -, h⟩ := Option.bind_eq_some_iff.1 h
    obtain ⟨found, hfound, h⟩ := Option.map_eq_some_iff.1 h
    cases h
    obtain ⟨w, hw, hlast⟩ := Option.bind_eq_some_iff.1 hfound
    refine ⟨map_task_modify _ other, found, rfl, perm_sharesOf_modify hw ?_⟩
    obtain ⟨front, hfront⟩ := List.getLast?_eq_some_iff.1 hlast
    rw [hfront]
    simp

/-- A worker finds a share if anybody has left one. -/
theorem sharesOf_of_take?_eq_none (hplace : place < workers.length)
    (h : Crew.take? workers place = none) : sharesOf workers = [] := by
  refine List.flatMap_eq_nil_iff.2 fun w hw => ?_
  by_contra hne
  obtain ⟨i, hi, rfl⟩ := List.mem_iff_getElem.1 hw
  have hgiver : (Crew.giver? workers place).isSome := by
    rw [Crew.giver?, List.find?_isSome]
    refine ⟨i, List.mem_map.2 ⟨(i + workers.length - (place + 1)) % workers.length, ?_, ?_⟩, ?_⟩
    · exact List.mem_range.2 (Nat.mod_lt _ (by omega))
    · rw [Nat.add_mod_mod, show place + 1 + (i + workers.length - (place + 1)) =
        i + workers.length by omega, Nat.add_mod_right, Nat.mod_eq_of_lt hi]
    · simpa [hi] using hne
  obtain ⟨other, hother⟩ := Option.isSome_iff_exists.1 hgiver
  rw [Crew.take?] at h
  split at h
  · cases h
  · rw [hother, Option.bind_some, Option.map_eq_none_iff] at h
    rw [Crew.giver?] at hother
    have hshares := List.find?_some hother
    rw [Option.any_eq_true] at hshares
    obtain ⟨w, hw, hnonempty⟩ := hshares
    rw [hw, Option.bind_some, List.getLast?_eq_none_iff] at h
    simp [h] at hnonempty

/-! ### Free workers -/

/-- What a crew does on its way: nothing owed is lost, and nothing more can be taken. -/
structure Proceeds (before after : Crew σ) : Prop where
  balance : after.tally.commands + owed after.workers = before.tally.commands + owed before.workers
  counted : before.tally.commands ≤ after.tally.commands
  length : after.workers.length = before.workers.length
  weight_le : weight (sharesOf after.workers) ≤ weight (sharesOf before.workers)

theorem Proceeds.refl (c : Crew σ) : Proceeds c c := ⟨rfl, Nat.le_refl _, rfl, Nat.le_refl _⟩

theorem Proceeds.trans {c d e : Crew σ} (hde : Proceeds d e) (hcd : Proceeds c d) : Proceeds c e :=
  ⟨hde.balance.trans hcd.balance, Nat.le_trans hcd.counted hde.counted,
    hde.length.trans hcd.length, Nat.le_trans hde.weight_le hcd.weight_le⟩

theorem owed_of_perm {rest : List Worker} {found : Share}
    (htasks : rest.map (·.task) = workers.map (·.task))
    (hshares : (sharesOf workers).Perm (found :: sharesOf rest)) :
    owed workers = commandCount found.jobs + owed rest := by
  have hsum : owedShares (sharesOf workers) =
      commandCount found.jobs + owedShares (sharesOf rest) := by
    simpa [owedShares] using (hshares.map fun s => commandCount s.jobs).sum_eq
  have htask : workers.map (fun w => owedTask w.task) = rest.map fun w => owedTask w.task := by
    simpa [Function.comp_def] using congrArg (List.map owedTask) htasks.symm
  rw [owed, owed, hsum, htask]
  omega

theorem taskAt_eq_of_map {rest : List Worker} (h : rest.map (·.task) = workers.map (·.task))
    (i : Nat) : taskAt rest i = taskAt workers i := by
  have hi := congrArg (fun tasks => tasks[i]?) h
  simp only [List.getElem?_map] at hi
  rw [taskAt, taskAt]
  cases hr : rest[i]? <;> cases hw : workers[i]? <;> simp_all

theorem sum_map_modify {g : Worker → Nat} {f : Worker → Worker} {w : Worker}
    (hw : workers[place]? = some w) :
    ((workers.modify place f).map g).sum + g w = (workers.map g).sum + g (f w) := by
  induction workers generalizing place with
  | nil => simp at hw
  | cons first rest ih =>
    cases place with
    | zero =>
      obtain rfl : first = w := by simpa using hw
      simp only [List.modify_zero_cons, List.map_cons, List.sum_cons]
      omega
    | succ place =>
      have hlater : rest[place]? = some w := by simpa using hw
      have hrest := ih hlater
      simp only [List.modify_succ_cons, List.map_cons, List.sum_cons]
      omega

theorem sharesOf_modify_append {w : Worker} (task : Option Task) (left : List Share)
    (hw : workers[place]? = some w) :
    (sharesOf (workers.modify place fun w => ⟨task, left ++ w.shares⟩)).Perm
      (left ++ sharesOf workers) := by
  induction workers generalizing place with
  | nil => simp at hw
  | cons first rest ih =>
    cases place with
    | zero => simp [sharesOf]
    | succ place =>
      have hlater : rest[place]? = some w := by simpa using hw
      have hrest := ih hlater
      simp only [sharesOf, List.modify_succ_cons, List.flatMap_cons]
      exact (hrest.append_left _).trans (List.perm_append_comm_assoc _ _ _)

theorem perm_weight {shares more : List Share} (h : shares.Perm more) :
    weight shares = weight more :=
  (h.map fun s : Share => max 1 s.jobs.length).sum_eq

theorem perm_owedShares {shares more : List Share} (h : shares.Perm more) :
    owedShares shares = owedShares more := (h.map fun s : Share => commandCount s.jobs).sum_eq

theorem eq_nil_of_weight {shares : List Share} (h : weight shares = 0) : shares = [] := by
  cases shares with
  | nil => rfl
  | cons s rest =>
    rw [weight, List.map_cons, List.sum_cons] at h
    omega

/-- The crew after a free worker has taken a share and started what it can of it. -/
structure TakesOne (place : Nat) (before after : Crew σ) (task : Option Task) : Prop
    extends Proceeds before after where
  others : ∀ i ≠ place, taskAt after.workers i = taskAt before.workers i
  weight_lt : weight (sharesOf after.workers) < weight (sharesOf before.workers)
  taken : taskAt after.workers place = task

/-- The crew after a free worker has taken shares: nobody else does anything else, and the worker is
busy unless nothing is left to take. -/
structure Occupies (place : Nat) (before after : Crew σ) : Prop extends Proceeds before after where
  others : ∀ i ≠ place, taskAt after.workers i = taskAt before.workers i
  busy : (taskAt after.workers place).isSome ∨ sharesOf after.workers = []

theorem takesOne {c : Crew σ} {share : Share} {rest : List Worker}
    (hplace : place < c.workers.length) (hfree : taskAt c.workers place = none)
    (htake : Crew.take? c.workers place = some (share, rest)) {bound : Nat} {s : σ} {tally : Tally}
    {task : Option Task}
    (hcount : tally.commands + owedTask task = commandCount (share.part bound).1) :
    TakesOne place c ⟨s, rest.modify place fun w => ⟨task, (share.part bound).2 ++ w.shares⟩,
      c.tally.add tally⟩ task := by
  obtain ⟨htasks, found, hjobs, hperm⟩ := take?_shares htake
  have hlength : rest.length = c.workers.length := by simpa using congrArg List.length htasks
  obtain ⟨w, hw⟩ : ∃ w, rest[place]? = some w := ⟨rest[place], List.getElem?_eq_getElem (by omega)⟩
  have hidle : w.task = none := by
    rw [← taskAt_eq_of_map htasks, taskAt, hw] at hfree
    exact hfree
  obtain ⟨hpart, hless⟩ := part_count bound share
  have hleft := sharesOf_modify_append task (share.part bound).2 hw
  have howed := owed_of_perm htasks hperm
  have htask := sum_map_modify (g := fun w => owedTask w.task)
    (f := fun w => ⟨task, (share.part bound).2 ++ w.shares⟩) hw
  simp only [hidle, owedTask_none] at htask
  have hlighter : weight (sharesOf (rest.modify place fun w =>
      ⟨task, (share.part bound).2 ++ w.shares⟩)) < weight (sharesOf c.workers) := by
    rw [perm_weight hleft, perm_weight hperm, weight_append, weight, weight, weight, List.map_cons,
      List.sum_cons, hjobs]
    rw [weight] at hless
    omega
  refine ⟨⟨?_, Nat.le_add_right _ _, by simp [hlength], Nat.le_of_lt hlighter⟩, ?_, hlighter, ?_⟩
  · rw [howed, hjobs, owed, owed, perm_owedShares hleft, owedShares_append]
    simp only [commands_add]
    omega
  · intro i hi
    rw [taskAt_modify, ← taskAt_eq_of_map htasks, taskAt]
    simp [hi]
  · rw [taskAt_modify, hw]
    simp

theorem occupy_occupies {c : Crew σ} {bound : Nat} (hplace : place < c.workers.length)
    (hfree : taskAt c.workers place = none) (hbound : weight (sharesOf c.workers) ≤ bound) :
    Occupies place c (Crew.occupy b place bound c) := by
  induction bound generalizing c with
  | zero =>
    exact ⟨.refl c, fun _ _ => rfl, Or.inr (eq_nil_of_weight (Nat.le_zero.1 hbound))⟩
  | succ bound ih =>
    rw [Crew.occupy]
    split
    next htake =>
      exact ⟨.refl c, fun _ _ => rfl, Or.inr (sharesOf_of_take?_eq_none hplace htake)⟩
    next share rest htake =>
      obtain ⟨s, tally, task, hstart, hcount⟩ :=
        startJobs_count (b := b) (share.part (share.jobs.length + 1)).1 c.state
      have hone := takesOne (s := s) hplace hfree htake hcount
      simp only [hstart]
      cases task with
      | some task =>
        rw [Option.isSome_some, if_pos rfl]
        exact ⟨hone.toProceeds, hone.others, Or.inl (by simp [hone.taken])⟩
      | none =>
        rw [if_neg (by simp)]
        have hlater := ih (by rw [hone.length]; exact hplace) hone.taken
          (Nat.le_of_lt_succ (Nat.lt_of_lt_of_le hone.weight_lt hbound))
        exact ⟨hlater.toProceeds.trans hone.toProceeds,
          fun i hi => (hlater.others i hi).trans (hone.others i hi), hlater.busy⟩

/-- The crew after some of its workers, the first ones, have taken shares. -/
structure Manned (count : Nat) (before after : Crew σ) : Prop extends Proceeds before after where
  busy : (∀ i < count, (taskAt after.workers i).isSome) ∨ sharesOf after.workers = []

theorem Manned.next {count bound : Nat} {c after : Crew σ} (h : Manned count c after)
    (hcount : count < c.workers.length) (hbound : weight (sharesOf c.workers) ≤ bound) :
    Manned (count + 1) c
      (if (after.workers[count]?).any fun w => w.task.isNone then Crew.occupy b count bound after
        else after) := by
  have hplace : count < after.workers.length := by rw [h.length]; exact hcount
  have hw : after.workers[count]? = some after.workers[count] := List.getElem?_eq_getElem hplace
  split
  next hfree =>
    have hidle : taskAt after.workers count = none := by
      rw [hw] at hfree
      simpa [taskAt, hw] using hfree
    have hone := occupy_occupies (b := b) hplace hidle (Nat.le_trans h.weight_le hbound)
    refine ⟨hone.toProceeds.trans h.toProceeds, ?_⟩
    rcases h.busy with hall | hnone
    · refine hone.busy.imp_left fun hbusy i hi => ?_
      rcases Nat.lt_succ_iff_lt_or_eq.1 hi with hlt | rfl
      · rw [hone.others i (Nat.ne_of_lt hlt)]
        exact hall i hlt
      · exact hbusy
    · refine Or.inr (eq_nil_of_weight (Nat.le_zero.1 ?_))
      simpa [hnone, weight] using hone.weight_le
  next hbusy =>
    refine ⟨h.toProceeds, h.busy.imp_left fun hall i hi => ?_⟩
    rcases Nat.lt_succ_iff_lt_or_eq.1 hi with hlt | rfl
    · exact hall i hlt
    · rw [hw] at hbusy
      simpa [taskAt, hw, Option.isSome_iff_ne_none] using hbusy

theorem occupyAll_manned {c : Crew σ} {bound : Nat} (hbound : weight (sharesOf c.workers) ≤ bound) :
    Manned c.workers.length c (Crew.occupyAll b bound c) := by
  have hfirst : ∀ count ≤ c.workers.length, Manned count c ((List.range count).foldl
      (fun c place =>
        if (c.workers[place]?).any fun w => w.task.isNone then Crew.occupy b place bound c else c)
      c) := by
    intro count hcount
    induction count with
    | zero => exact ⟨.refl c, Or.inl fun i hi => absurd hi (Nat.not_lt_zero i)⟩
    | succ count ih =>
      rw [List.range_succ, List.foldl_append]
      exact (ih (Nat.le_of_succ_le hcount)).next hcount hbound
  exact hfirst _ (Nat.le_refl _)

/-! ### A whole run -/

theorem sharesOf_modify_task (next : Option Task) (place : Nat) :
    sharesOf (workers.modify place fun w => { w with task := next }) = sharesOf workers := by
  induction workers generalizing place with
  | nil => simp
  | cons first rest ih => cases place <;> simp_all [sharesOf]

theorem owed_modify_task {w : Worker} (next : Option Task) (hw : workers[place]? = some w) :
    owed (workers.modify place fun w => { w with task := next }) + owedTask w.task =
      owed workers + owedTask next := by
  have htask := sum_map_modify (g := fun w => owedTask w.task)
    (f := fun w => { w with task := next }) hw
  simp only at htask
  rw [owed, owed, sharesOf_modify_task]
  omega

/-- Nothing is owed where nobody does anything and nothing can be taken. -/
theorem owed_eq_zero (htasks : ∀ w ∈ workers, w.task = none) (hshares : sharesOf workers = []) :
    owed workers = 0 := by
  have htask : workers.map (fun w => owedTask w.task) = workers.map fun _ => 0 :=
    List.map_congr_left fun w hw => by rw [htasks w hw, owedTask_none]
  simp [owed, htask, hshares, owedShares]

/-- A worker that is found has the place that is found. -/
theorem getElem?_of_findIdx? {isIt : Worker → Bool} {task : Task}
    (hplace : workers.findIdx? isIt = some place)
    (htask : (workers.find? isIt).bind (·.task) = some task) :
    ∃ w, workers[place]? = some w ∧ w.task = some task := by
  induction workers generalizing place with
  | nil => simp at hplace
  | cons first rest ih =>
    rw [List.findIdx?_cons] at hplace
    rw [List.find?_cons] at htask
    cases hfirst : isIt first with
    | true =>
      simp only [hfirst, if_true, Option.some.injEq] at hplace
      subst hplace
      exact ⟨first, rfl, by simpa [hfirst] using htask⟩
    | false =>
      simp only [hfirst, Bool.false_eq_true, if_false] at hplace
      obtain ⟨later, hlater, rfl⟩ := Option.map_eq_some_iff.1 hplace
      exact ih hlater (by simpa [hfirst] using htask)

/-- A compiler that somebody waits for is found. -/
theorem exists_waiting {number : Nat}
    (hnumber : number ∈ workers.filterMap fun w => w.task.map (·.number)) : ∃ place task,
      (workers.findIdx? fun w => w.task.any fun t => t.number == number) = some place ∧
      (workers.find? fun w => w.task.any fun t => t.number == number).bind (·.task) =
        some task := by
  induction workers with
  | nil => simp at hnumber
  | cons first rest ih =>
    by_cases hfirst : (first.task.any fun t => t.number == number) = true
    · obtain ⟨task, htask, hn⟩ := Option.any_eq_true _ _ |>.1 hfirst
      exact ⟨0, task, by simp [List.findIdx?_cons, hfirst], by simp [htask, hn]⟩
    · obtain ⟨w, hw, hn⟩ := List.mem_filterMap.1 hnumber
      rcases List.mem_cons.1 hw with rfl | hw
      · exact absurd (by cases ht : w.task <;> simp_all) hfirst
      · obtain ⟨place, task, hidx, hfind⟩ := ih (List.mem_filterMap.2 ⟨w, hw, hn⟩)
        exact ⟨place + 1, task, by simp [List.findIdx?_cons, hfirst, hidx],
          by simp [hfirst, hfind]⟩

/-- Waiting for some compilers ends with one of them. -/
def Bench.Ends (b : Bench σ) : Prop :=
  ∀ numbers s, numbers ≠ [] → ∃ n ∈ numbers, (b.await numbers s).2 = some n

/-- Nobody waits for a compiler. -/
def Crew.IsIdle (c : Crew σ) : Prop := ∀ w ∈ c.workers, w.task = none

/-- A crew that has come to its end owes what is not counted. If nobody waits for a compiler,
nothing is left to take either; and nobody does if compilers end. -/
structure Settles (b : Bench σ) (before after : Crew σ) : Prop where
  balance : after.tally.commands + owed after.workers = before.tally.commands + owed before.workers
  taken : after.IsIdle → sharesOf after.workers = []
  idle : b.Ends → after.IsIdle

/-- After the workers have taken shares, the crew is done if nobody has become busy. -/
theorem Manned.settles {c d : Crew σ} (h : Manned c.workers.length c d) (hworkers : c.workers ≠ [])
    (hidle : d.IsIdle) : Settles b c d := by
  refine ⟨h.balance, fun _ => h.busy.resolve_left fun hall => ?_, fun _ => hidle⟩
  have hnonempty : 0 < c.workers.length := List.length_pos_iff.2 hworkers
  have hfirst := hall 0 hnonempty
  obtain ⟨w, hw⟩ : ∃ w, d.workers[0]? = some w :=
    ⟨_, List.getElem?_eq_getElem (by rw [h.length]; exact hnonempty)⟩
  rw [taskAt, hw, Option.bind_some, hidle w (List.mem_of_getElem? hw)] at hfirst
  cases hfirst

/-- The crew after a worker has gone on behind its command: less is owed, and no share is taken. -/
theorem goOn_proceeds {d : Crew σ} {w : Worker} {task : Task} (hw : d.workers[place]? = some w)
    (htask : w.task = some task) (s : σ) : ∃ s' tally next, Crew.goOn b task s = (s', tally, next) ∧
      Proceeds d ⟨s', d.workers.modify place fun w => { w with task := next }, d.tally.add tally⟩ ∧
      owed (d.workers.modify place fun w => { w with task := next }) < owed d.workers := by
  obtain ⟨s', tally, next, hgo, hcount, hone⟩ := goOn_count (b := b) task s
  have howed := owed_modify_task next hw
  rw [htask] at howed
  refine ⟨s', tally, next, hgo, ⟨?_, Nat.le_add_right _ _, by simp, ?_⟩, by omega⟩
  · simp only [commands_add]
    omega
  · exact Nat.le_of_eq (congrArg weight (sharesOf_modify_task next place))

theorem run_settles {c : Crew σ} {shares bound : Nat} (hworkers : c.workers ≠ [])
    (hshares : weight (sharesOf c.workers) ≤ shares) (hbound : owed c.workers < bound) :
    Settles b c (Crew.run b shares bound c) := by
  induction bound generalizing c with
  | zero => exact absurd hbound (Nat.not_lt_zero _)
  | succ bound ih =>
    have hmanned := occupyAll_manned (b := b) hshares
    rw [Crew.run]
    generalize Crew.occupyAll b shares c = d at hmanned
    simp only
    split
    next hidle =>
      exact hmanned.settles hworkers fun w hw => by
        simpa using List.filterMap_eq_nil_iff.1 hidle w hw
    next hbusy =>
      -- a crew that stops here has somebody who waits, for a compiler that has not ended
      have hstop : ∀ s, (b.Ends → False) → Settles b c { d with state := s } := by
        intro s hends
        refine ⟨hmanned.balance, fun hidle => absurd ?_ hbusy, fun hb => (hends hb).elim⟩
        exact List.filterMap_eq_nil_iff.2 fun w hw => by simp [hidle w hw]
      split
      next s heq =>
        refine hstop s fun hb => ?_
        obtain ⟨number, -, hended⟩ := hb _ d.state hbusy
        rw [heq] at hended
        cases hended
      next s number heq =>
        split
        next place task hidx hfind =>
          obtain ⟨w, hw, htask⟩ := getElem?_of_findIdx? hidx hfind
          obtain ⟨s', tally, next, hgo, hproceeds, hless⟩ := goOn_proceeds (b := b) hw htask s
          rw [hgo]
          have hwhole := hproceeds.trans hmanned.toProceeds
          have hrest := ih (c := ⟨s', d.workers.modify place fun w => { w with task := next },
            d.tally.add tally⟩)
            (by
              rw [Ne, ← List.length_eq_zero_iff, hwhole.length, List.length_eq_zero_iff]
              exact hworkers)
            (Nat.le_trans hwhole.weight_le hshares)
            (by
              have hbalance := hmanned.balance
              have hcounted := hmanned.counted
              simp only
              omega)
          exact ⟨hrest.balance.trans hwhole.balance, hrest.taken, hrest.idle⟩
        next hnobody =>
          refine hstop s fun hb => ?_
          obtain ⟨n, hn, hended⟩ := hb _ d.state hbusy
          rw [heq] at hended
          obtain rfl : number = n := by simpa using hended
          obtain ⟨place, task, hidx, hfind⟩ := exists_waiting hn
          exact hnobody place task hidx hfind

theorem foldl_length (jobs : List ReadyJob) (n : Nat) :
    jobs.foldl (fun n r => n + r.job.commands.length) n = n + commandCount jobs := by
  induction jobs generalizing n with
  | nil => rfl
  | cons r rest ih => rw [List.foldl_cons, ih, commandCount_cons, Nat.add_assoc]

/-- The crew that has replayed jobs. -/
def Crew.last (b : Bench σ) (workers : Nat) (jobs : List ReadyJob) (s : σ) : Crew σ :=
  Crew.run b (jobs.length + 1) (commandCount jobs + 1)
    ⟨s, ⟨none, [⟨jobs, workers⟩]⟩ :: List.replicate (workers - 1) ⟨none, []⟩, .zero⟩

theorem Crew.replay_eq (b : Bench σ) (workers : Nat) (jobs : List ReadyJob) (s : σ) :
    Crew.replay b workers jobs s =
      ((Crew.last b workers jobs s).state, (Crew.last b workers jobs s).tally) := by
  rw [Crew.replay, foldl_length, Nat.zero_add]
  rfl

theorem last_settles (b : Bench σ) (workers : Nat) (jobs : List ReadyJob) (s : σ) :
    Settles b ⟨s, ⟨none, [⟨jobs, workers⟩]⟩ :: List.replicate (workers - 1) ⟨none, []⟩, .zero⟩
      (Crew.last b workers jobs s) ∧
    owed (⟨none, [⟨jobs, workers⟩]⟩ :: List.replicate (workers - 1) ⟨none, []⟩) =
      commandCount jobs := by
  have hshares : sharesOf (⟨none, [⟨jobs, workers⟩]⟩ ::
      List.replicate (workers - 1) (⟨none, []⟩ : Worker)) = [⟨jobs, workers⟩] := by
    simp [sharesOf]
  have howed : owed (⟨none, [⟨jobs, workers⟩]⟩ ::
      List.replicate (workers - 1) (⟨none, []⟩ : Worker)) = commandCount jobs := by
    rw [owed, hshares]
    simp [owedShares]
  refine ⟨run_settles (by simp) ?_ ?_, howed⟩
  · simp only [hshares, weight, List.map_cons, List.map_nil, List.sum_cons, List.sum_nil]
    omega
  · simp only [howed]
    omega

/-- A crew in which nobody is left waiting has counted every command of its jobs once. -/
theorem crew_commands {workers : Nat} {jobs : List ReadyJob} {s : σ}
    (hidle : (Crew.last b workers jobs s).IsIdle) :
    (Crew.replay b workers jobs s).2.commands = commandCount jobs := by
  obtain ⟨hsettles, howed⟩ := last_settles b workers jobs s
  have hbalance := hsettles.balance
  rw [owed_eq_zero hidle (hsettles.taken hidle), howed] at hbalance
  rw [Crew.replay_eq]
  simpa using hbalance

/-- Where compilers end, nobody is left waiting. -/
theorem Bench.Ends.isIdle_last (hb : b.Ends) (workers : Nat) (jobs : List ReadyJob) (s : σ) :
    (Crew.last b workers jobs s).IsIdle := (last_settles b workers jobs s).1.idle hb

/-- Replaying with a crew, from a tree and to a tree. -/
def Bench.replayer (b : Bench σ) (enter : FileTree → σ) (leave : σ → FileTree) (workers : Nat) :
    Replayer := fun t jobs =>
  let (s, tally) := Crew.replay b workers jobs (enter t)
  (leave s, tally)

theorem commands_replayer {enter : FileTree → σ} {workers : Nat} {t : FileTree}
    {jobs : List ReadyJob} (leave : σ → FileTree)
    (hidle : (Crew.last b workers jobs (enter t)).IsIdle) :
    (b.replayer enter leave workers t jobs).2.commands = commandCount jobs :=
  crew_commands hidle

/-- Programs that stand in the tree are run by one worker, or by a crew that starts and ends with
the tree. -/
theorem execution_replay_eq (workers : Nat) : Execution.replay workers =
    if workers ≤ 1 then replayJobs Execution.launch
    else Execution.Workshop.bench.replayer (fun t => ⟨⟨Execution.world t, []⟩, []⟩)
      (fun s => Execution.reachable s.kernel.world.tree) workers := by
  funext t jobs
  rw [Execution.replay]
  split <;> rfl

/-- Whoever replays jobs with programs that stand in the tree counts each command once. -/
theorem commands_execution_replay {workers : Nat} {t : FileTree} {jobs : List ReadyJob}
    (hidle : 1 < workers → (Crew.last Execution.Workshop.bench workers jobs
      ⟨⟨Execution.world t, []⟩, []⟩).IsIdle) :
    (Execution.replay workers t jobs).2.commands = commandCount jobs := by
  rw [execution_replay_eq]
  split
  next => exact commands_replayJobs Execution.launch t jobs
  next hworkers => exact commands_replayer _ (hidle (Nat.not_le.1 hworkers))

end BitcodeReplay.Replay
