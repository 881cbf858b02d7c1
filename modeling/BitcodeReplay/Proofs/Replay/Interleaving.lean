import BitcodeReplay.Proofs.Replay.Job
import BitcodeReplay.Proofs.Replay.Local
import BitcodeReplay.Replay.Schedule
import Mathlib.Logic.Function.Iterate

/-!
Jobs that are replayed beside each other, one step at a time: a command is compiled, or what its
compiler has left is harvested. Where every job keeps to places of its own and to places that nobody
changes, each is at all times where it would be alone, so that all orders of steps end alike.
-/

namespace BitcodeReplay.Replay

open FileTree

/-- What a command counts for, once what its compiler has left has been harvested. -/
def harvestTally (outcome : Execution.Outcome) : Except HarvestFailure Nat → Tally
  | .ok modules => .one outcome.succeeded modules
  | .error _ => .one false 0

/-- What follows a compiler run. -/
def afterCompile (s : Site) (result : Except CommandFailure (Invocation × Execution.Outcome))
    (t : FileTree) : FileTree × Tally :=
  match result with
  | .ok (i, outcome) => ((harvest t s i).1, harvestTally outcome (harvest t s i).2)
  | .error _ => (t, .one false 0)

/-- A job at work: what the compiler that ran last has left to be harvested, the commands that are
still to be replayed, and what those before have come to. -/
structure Thread where
  site : Site
  pending : Option (Invocation × Execution.Outcome)
  commands : List CapturedCommand
  tally : Tally

namespace Thread

def start (r : ReadyJob) : Thread := ⟨r.site, none, r.job.commands, .zero⟩

/-- Nothing is left to be done. -/
def IsDone (w : Thread) : Prop := w.pending = none ∧ w.commands = []

/-- How many steps are left, if all commands can be run. -/
def remaining (w : Thread) : Nat := (if w.pending.isSome then 1 else 0) + 2 * w.commands.length

/-- After a compiler has been run for the first command, which leaves the others. -/
def compiled (w : Thread) (rest : List CapturedCommand) :
    Except CommandFailure (Invocation × Execution.Outcome) → Thread
  | .ok run => { w with pending := some run, commands := rest }
  | .error _ => { w with commands := rest, tally := w.tally.add (.one false 0) }

/-- After what a compiler has left has been harvested. -/
def harvested (w : Thread) (outcome : Execution.Outcome) (result : Except HarvestFailure Nat) :
    Thread :=
  { w with pending := none, tally := w.tally.add (harvestTally outcome result) }

/-- The next step of a job: a harvest if something is left to be harvested, or else a compiler run. -/
def step (launch : Execution.Launcher) (w : Thread) (t : FileTree) : FileTree × Thread :=
  match w.pending with
  | some (i, outcome) => ((harvest t w.site i).1, w.harvested outcome (harvest t w.site i).2)
  | none =>
    match w.commands with
    | [] => (t, w)
    | c :: rest => ((compile launch t w.site c).1, w.compiled rest (compile launch t w.site c).2)

end Thread

/-- A job that is alone takes a step. -/
def advance (launch : Execution.Launcher) (p : FileTree × Thread) : FileTree × Thread :=
  p.2.step launch p.1

/-- One of several jobs takes a step. -/
def turn (launch : Execution.Launcher) (p : FileTree × List Thread) (k : Nat) :
    FileTree × List Thread :=
  match p.2[k]? with
  | none => p
  | some w => ((w.step launch p.1).1, p.2.set k (w.step launch p.1).2)

/-- Jobs take steps in an order that is given by their places in the list. -/
def interleave (launch : Execution.Launcher) (t : FileTree) (threads : List Thread)
    (order : List Nat) : FileTree × List Thread :=
  order.foldl (turn launch) (t, threads)

/-- What jobs have come to together. -/
def total (threads : List Thread) : Tally := threads.foldr (fun w sum => w.tally.add sum) .zero

/-- The places that are nobody else's. -/
def view (own : Nat → Location → Prop) (k : Nat) (l : Location) : Prop := ∀ j, own j l → j = k

/-- A compiler looks at some places only and changes no others than some of them, and so does the
harvest of what it leaves. -/
structure Keeps (launch : Execution.Launcher) (V O : Location → Prop) (s : Site)
    (p : FileTree × CapturedCommand) : Prop where
  compiles : IsLocal V O (compile launch · s p.2) p.1
  harvests : ∀ compiled i outcome, compile launch p.1 s p.2 = (compiled, .ok (i, outcome)) →
    IsHarvestable compiled V O s i

/-- All steps of a job that is alone keep to its places. -/
def IsSteady (launch : Execution.Launcher) (V O : Location → Prop) (p : FileTree × Thread) : Prop :=
  ∀ n, IsLocal V O (((advance launch)^[n] p).2.step launch) ((advance launch)^[n] p).1

/-- Jobs that have been replayed beside each other: each is where it would be alone after some steps,
and finds at its places what it would find there. -/
structure Beside (launch : Execution.Launcher) (own : Nat → Location → Prop)
    (first now : FileTree × List Thread) : Prop where
  proper : now.1.Proper
  length : now.2.length = first.2.length
  spares : ∀ l, (∀ k < first.2.length, ¬ own k l) → now.1.get? l = first.1.get? l
  alone : ∀ k w, first.2[k]? = some w → ∃ n,
    now.2[k]? = some ((advance launch)^[n] (first.1, w)).2 ∧
      Agree (view own k) ((advance launch)^[n] (first.1, w)).1 now.1

variable {launch : Execution.Launcher} {V O : Location → Prop} {s : Site} {t : FileTree}
  {c : CapturedCommand} {commands rest : List CapturedCommand} {tally : Tally} {w : Thread}
  {threads : List Thread} {own : Nat → Location → Prop} {order order' : List Nat}
  {now first : FileTree × List Thread}

/-! ### Tallies -/

theorem Tally.add_assoc (a b c : Tally) : (a.add b).add c = a.add (b.add c) := by
  simp [Tally.add, Nat.add_assoc]

@[simp] theorem Tally.zero_add (a : Tally) : Tally.zero.add a = a := by simp [Tally.add, Tally.zero]

@[simp] theorem Tally.add_zero (a : Tally) : a.add Tally.zero = a := by simp [Tally.add, Tally.zero]

/-! ### One job alone -/

theorem Thread.IsDone.step_eq (h : w.IsDone) (t : FileTree) : w.step launch t = (t, w) := by
  rw [Thread.step, h.1]
  simp only [h.2]

theorem Thread.IsDone.iterate_eq (h : w.IsDone) (t : FileTree) (n : Nat) :
    (advance launch)^[n] (t, w) = (t, w) :=
  Function.iterate_fixed (h.step_eq t) n

/-- A job that has come to its end has come to one only. -/
theorem iterate_eq_of_isDone {p : FileTree × Thread} {m n : Nat}
    (hm : ((advance launch)^[m] p).2.IsDone) (hn : ((advance launch)^[n] p).2.IsDone) :
    (advance launch)^[m] p = (advance launch)^[n] p := by
  have hlater : ∀ {a b : Nat}, a ≤ b → ((advance launch)^[a] p).2.IsDone →
      (advance launch)^[b] p = (advance launch)^[a] p := by
    intro a b hab ha
    obtain ⟨d, rfl⟩ := Nat.exists_eq_add_of_le' hab
    rw [Function.iterate_add_apply]
    exact ha.iterate_eq _ d
  rcases Nat.le_total m n with hmn | hnm
  · exact (hlater hmn hm).symm
  · exact hlater hnm hn

theorem tallyCommand_eq (launch : Execution.Launcher) (s : Site) (t : FileTree)
    (c : CapturedCommand) : tallyCommand launch t s c =
      afterCompile s (compile launch t s c).2 (compile launch t s c).1 := by
  rw [tallyCommand, replayCommand]
  cases compile launch t s c with
  | mk compiled result =>
    cases result with
    | error e => rfl
    | ok r =>
      simp only [afterCompile]
      cases harvest compiled s r.1 with
      | mk after taken => cases taken <;> rfl

/-- A command that cannot be run is replayed in one step. -/
theorem advance_of_error {compiled : FileTree} {e : CommandFailure}
    (h : compile launch t s c = (compiled, .error e)) (rest : List CapturedCommand)
    (tally : Tally) : advance launch (t, ⟨s, none, c :: rest, tally⟩) =
      ((tallyCommand launch t s c).1, ⟨s, none, rest, tally.add (tallyCommand launch t s c).2⟩) := by
  simp only [advance, Thread.step, Thread.compiled, tallyCommand_eq, h, afterCompile]

/-- Other commands are compiled in one step and harvested in the next. -/
theorem advance_of_ok {compiled : FileTree} {i : Invocation} {outcome : Execution.Outcome}
    (h : compile launch t s c = (compiled, .ok (i, outcome))) (rest : List CapturedCommand)
    (tally : Tally) : advance launch (t, ⟨s, none, c :: rest, tally⟩) =
        (compiled, ⟨s, some (i, outcome), rest, tally⟩) ∧
      advance launch (compiled, ⟨s, some (i, outcome), rest, tally⟩) =
        ((tallyCommand launch t s c).1,
          ⟨s, none, rest, tally.add (tallyCommand launch t s c).2⟩) := by
  refine ⟨?_, ?_⟩
  · simp only [advance, Thread.step, Thread.compiled, h]
  · simp only [advance, Thread.step, Thread.harvested, tallyCommand_eq, h, afterCompile]

/-- A job that is alone comes to what its commands come to. -/
theorem iterate_replayCommands (launch : Execution.Launcher) (s : Site) (t : FileTree)
    (commands : List CapturedCommand) (tally : Tally) :
    ∃ n, (advance launch)^[n] (t, ⟨s, none, commands, tally⟩) =
      ((replayCommands launch s t commands).1,
        ⟨s, none, [], tally.add (replayCommands launch s t commands).2⟩) := by
  induction commands generalizing t tally with
  | nil => exact ⟨0, by simp [replayCommands]⟩
  | cons c rest ih =>
    obtain ⟨n, hn⟩ := ih (tallyCommand launch t s c).1 (tally.add (tallyCommand launch t s c).2)
    rw [replayCommands_cons]
    cases hcompile : compile launch t s c with
    | mk compiled result =>
      cases result with
      | error e =>
        refine ⟨n + 1, ?_⟩
        rw [Function.iterate_succ_apply, advance_of_error hcompile, hn, Tally.add_assoc]
      | ok r =>
        obtain ⟨hcompiled, hharvested⟩ := advance_of_ok hcompile rest tally
        refine ⟨n + 2, ?_⟩
        rw [Function.iterate_succ_apply, Function.iterate_succ_apply, hcompiled, hharvested, hn,
          Tally.add_assoc]

theorem Keeps.proper_compile (h : Keeps launch V O s (t, c)) (ht : t.Proper) :
    (compile launch t s c).1.Proper :=
  (h.compiles t ht (Agree.refl V t)).proper

/-- Such a command is local as a whole. -/
theorem Keeps.tallyCommand_local (h : Keeps launch V O s (t, c)) (ht : t.Proper) :
    IsLocal V O (tallyCommand launch · s c) t := by
  simp only [tallyCommand_eq]
  refine h.compiles.bind ht (afterCompile s) fun hcompiled => ?_
  cases hcompile : compile launch t s c with
  | mk compiled result =>
    simp only [hcompile] at hcompiled ⊢
    cases result with
    | error e => exact isLocal_pure V O _ compiled
    | ok r => exact ((h.harvests compiled r.1 r.2 hcompile).harvest_local hcompiled).map _

/-- A job keeps to its places if the compilers of all of its commands do. -/
theorem isSteady_of_trail (ht : t.Proper)
    (hkeeps : ∀ p ∈ trail launch s t commands, Keeps launch V O s p) (tally : Tally) :
    IsSteady launch V O (t, ⟨s, none, commands, tally⟩) := by
  induction commands generalizing t tally with
  | nil =>
    intro n
    rw [Thread.IsDone.iterate_eq (by exact ⟨rfl, rfl⟩)]
    exact isLocal_pure V O _ t
  | cons c rest ih =>
    have hfirst := hkeeps (t, c) List.mem_cons_self
    have hproper := (hfirst.tallyCommand_local ht t ht (Agree.refl V t)).proper
    have hrest := ih hproper fun p hp => hkeeps p (List.mem_cons_of_mem _ hp)
    intro n
    cases n with
    | zero => exact hfirst.compiles.map fun r => Thread.compiled ⟨s, none, c :: rest, tally⟩ rest r
    | succ n =>
      rw [Function.iterate_succ_apply]
      cases hcompile : compile launch t s c with
      | mk compiled result =>
        cases result with
        | error e =>
          rw [advance_of_error hcompile]
          exact hrest _ n
        | ok r =>
          obtain ⟨i, outcome⟩ := r
          obtain ⟨hnext, hafter⟩ := advance_of_ok hcompile rest tally
          rw [hnext]
          cases n with
          | zero =>
            have hcompiled := hfirst.proper_compile ht
            rw [hcompile] at hcompiled
            exact ((hfirst.harvests compiled i outcome hcompile).harvest_local hcompiled).map
              fun r => Thread.harvested ⟨s, some (i, outcome), rest, tally⟩ outcome r
          | succ n =>
            rw [Function.iterate_succ_apply, hafter]
            exact hrest _ n

/-! ### Jobs beside each other -/

theorem Beside.refl (launch : Execution.Launcher) (own : Nat → Location → Prop)
    (hproper : t.Proper) : Beside launch own (t, threads) (t, threads) where
  proper := hproper
  length := rfl
  spares := fun _ _ => rfl
  alone := fun _ _ hw => ⟨0, hw, Agree.refl _ t⟩

/-- One step of one of the jobs. -/
theorem Beside.turn (h : Beside launch own first now)
    (hsteady : ∀ k w, first.2[k]? = some w → IsSteady launch (view own k) (own k) (first.1, w))
    (k : Nat) : Beside launch own first (turn launch now k) := by
  rw [Replay.turn]
  cases hnow : now.2[k]? with
  | none => exact h
  | some now' =>
    obtain ⟨hlt, -⟩ := List.getElem?_eq_some_iff.1 hnow
    have hlength := h.length
    obtain ⟨w, hw⟩ : ∃ w, first.2[k]? = some w := ⟨_, List.getElem?_eq_getElem (by omega)⟩
    obtain ⟨n, hthread, hagree⟩ := h.alone k w hw
    rw [hnow] at hthread
    cases hthread
    obtain ⟨hresult, hafter, hspares, hproper⟩ := hsteady k w hw n now.1 h.proper hagree
    exact {
      proper := hproper
      length := by rw [List.length_set, hlength]
      spares := fun l hl => (hspares l (hl k (by omega))).trans (h.spares l hl)
      alone := by
        intro j w' hw'
        by_cases hj : k = j
        · subst hj
          rw [hw] at hw'
          cases hw'
          refine ⟨n + 1, ?_, ?_⟩
          · rw [List.getElem?_set_self hlt, Function.iterate_succ_apply', hresult]
            rfl
          · rw [Function.iterate_succ_apply']
            exact hafter
        · -- what another job does is out of sight
          obtain ⟨m, hthread, hagree⟩ := h.alone j w' hw'
          refine ⟨m, by rwa [List.getElem?_set_ne hj], fun l hl => ?_⟩
          rw [hspares l fun hown => hj (hl k hown), hagree l hl] }

theorem beside_interleave (hproper : t.Proper)
    (hsteady : ∀ k w, threads[k]? = some w → IsSteady launch (view own k) (own k) (t, w))
    (order : List Nat) :
    Beside launch own (t, threads) (interleave launch t threads order) := by
  induction order using List.reverseRecOn with
  | nil => exact .refl launch own hproper
  | append_singleton front k ih =>
    rw [interleave, List.foldl_concat]
    exact ih.turn hsteady k

/-! ### Coming to an end -/

theorem Thread.isDone_iff : w.IsDone ↔ w.remaining = 0 := by
  rw [IsDone, remaining, Nat.add_eq_zero_iff, Nat.mul_eq_zero, List.length_eq_zero_iff]
  cases w.pending <;> simp

theorem Thread.remaining_step (launch : Execution.Launcher) (w : Thread) (t : FileTree) :
    (w.step launch t).2.remaining ≤ w.remaining - 1 := by
  obtain ⟨s, pending, commands, tally⟩ := w
  cases pending with
  | some run =>
    simp [step, harvested, remaining]
  | none =>
    cases commands with
    | nil => simp [step, remaining]
    | cons c rest =>
      simp only [step, compiled]
      split <;> simp [remaining] <;> omega

/-- A turn of a job leaves it fewer steps. -/
theorem remaining_turn {k j : Nat} {w' : Thread} (h : (turn launch now j).2[k]? = some w') :
    ∃ w, now.2[k]? = some w ∧ w'.remaining ≤ w.remaining - if j = k then 1 else 0 := by
  rw [turn] at h
  cases hj : now.2[j]? with
  | none =>
    rw [hj] at h
    have hne : j ≠ k := by
      rintro rfl
      rw [hj] at h
      cases h
    exact ⟨w', h, by simp [hne]⟩
  | some v =>
    rw [hj] at h
    obtain ⟨hlt, -⟩ := List.getElem?_eq_some_iff.1 hj
    by_cases hne : j = k
    · subst hne
      rw [List.getElem?_set_self hlt] at h
      cases h
      exact ⟨v, hj, by simpa using Thread.remaining_step launch v now.1⟩
    · rw [List.getElem?_set_ne hne] at h
      exact ⟨w', h, by simp [hne]⟩

theorem remaining_interleave {k : Nat} {w' : Thread}
    (h : (interleave launch t threads order).2[k]? = some w') :
    ∃ w, threads[k]? = some w ∧ w'.remaining ≤ w.remaining - order.count k := by
  induction order using List.reverseRecOn generalizing w' with
  | nil => exact ⟨w', h, Nat.le_refl _⟩
  | append_singleton front j ih =>
    rw [interleave, List.foldl_concat] at h
    obtain ⟨v, hv, hturn⟩ := remaining_turn h
    obtain ⟨w, hw, hle⟩ := ih hv
    refine ⟨w, hw, ?_⟩
    simp only [List.count_append, List.count_singleton, beq_iff_eq]
    omega

/-- Jobs come to their end in every order that lets each of them take enough steps. -/
theorem isDone_interleave
    (h : ∀ k w, threads[k]? = some w → w.remaining ≤ order.count k) :
    ∀ w ∈ (interleave launch t threads order).2, w.IsDone := by
  intro w' hw'
  obtain ⟨k, hk⟩ := List.mem_iff_getElem?.1 hw'
  obtain ⟨w, hw, hle⟩ := remaining_interleave hk
  have henough := h k w hw
  exact Thread.isDone_iff.2 (by omega)

/-- Jobs that keep to places of their own end alike in whatever order they take their steps. -/
theorem interleave_confluent (hown : ∀ j k l, own j l → own k l → j = k) (hproper : t.Proper)
    (hsteady : ∀ k w, threads[k]? = some w → IsSteady launch (view own k) (own k) (t, w))
    (hdone : ∀ w ∈ (interleave launch t threads order).2, w.IsDone)
    (hdone' : ∀ w ∈ (interleave launch t threads order').2, w.IsDone) :
    (∀ l, (interleave launch t threads order).1.get? l =
      (interleave launch t threads order').1.get? l) ∧
    (interleave launch t threads order).2 = (interleave launch t threads order').2 := by
  have h := beside_interleave hproper hsteady order
  have h' := beside_interleave hproper hsteady order'
  have hsame : ∀ k w, threads[k]? = some w →
      (interleave launch t threads order).2[k]? = (interleave launch t threads order').2[k]? ∧
      ∀ l, own k l → (interleave launch t threads order).1.get? l =
        (interleave launch t threads order').1.get? l := by
    intro k w hw
    obtain ⟨m, hthread, hagree⟩ := h.alone k w hw
    obtain ⟨n, hthread', hagree'⟩ := h'.alone k w hw
    have heq := iterate_eq_of_isDone (hdone _ (List.mem_of_getElem? hthread))
      (hdone' _ (List.mem_of_getElem? hthread'))
    refine ⟨by rw [hthread, hthread', heq], fun l hl => ?_⟩
    have hview : view own k l := fun j hj => hown j k l hj hl
    rw [hagree l hview, hagree' l hview, heq]
  constructor
  · intro l
    by_cases hl : ∃ k < threads.length, own k l
    · obtain ⟨k, hk, hkl⟩ := hl
      exact (hsame k _ (List.getElem?_eq_getElem hk)).2 l hkl
    · have hnobody : ∀ k < threads.length, ¬ own k l := fun k hk hkl => hl ⟨k, hk, hkl⟩
      rw [h.spares l hnobody, h'.spares l hnobody]
  · refine List.ext_getElem? fun k => ?_
    by_cases hk : k < threads.length
    · exact (hsame k _ (List.getElem?_eq_getElem hk)).1
    · rw [List.getElem?_eq_none (by rw [h.length]; exact Nat.le_of_not_lt hk),
        List.getElem?_eq_none (by rw [h'.length]; exact Nat.le_of_not_lt hk)]

/-! ### One job after the other -/

theorem interleave_append (launch : Execution.Launcher) (t : FileTree) (threads : List Thread)
    (order order' : List Nat) : interleave launch t threads (order ++ order') =
      interleave launch (interleave launch t threads order).1
        (interleave launch t threads order).2 order' := by
  rw [interleave, List.foldl_append]
  rfl

/-- Steps of one job alone. -/
theorem interleave_replicate (launch : Execution.Launcher) (t : FileTree) (front back : List Thread)
    (w : Thread) (n : Nat) :
    interleave launch t (front ++ w :: back) (List.replicate n front.length) =
      (((advance launch)^[n] (t, w)).1, front ++ ((advance launch)^[n] (t, w)).2 :: back) := by
  induction n generalizing t w with
  | zero => rfl
  | succ n ih =>
    have hturn : turn launch (t, front ++ w :: back) front.length =
        ((advance launch (t, w)).1, front ++ (advance launch (t, w)).2 :: back) := by
      simp [turn, advance]
    rw [List.replicate_succ, interleave, List.foldl_cons, hturn, Function.iterate_succ_apply]
    exact ih _ _

/-- Replaying jobs one after the other is one of the orders. -/
theorem interleave_replayJobs (launch : Execution.Launcher) (t : FileTree) (front : List Thread)
    (ready : List ReadyJob) : ∃ order ends,
      interleave launch t (front ++ ready.map Thread.start) order =
        ((replayJobs launch t ready).1, front ++ ends) ∧
      (∀ w ∈ ends, w.IsDone) ∧ total ends = (replayJobs launch t ready).2 := by
  induction ready generalizing t front with
  | nil => exact ⟨[], [], rfl, by simp, rfl⟩
  | cons r rest ih =>
    obtain ⟨n, hn⟩ := iterate_replayCommands launch r.site t r.job.commands .zero
    obtain ⟨order, ends, horder, hends, htotal⟩ :=
      ih (replayCommands launch r.site t r.job.commands).1
        (front ++ [⟨r.site, none, [], (replayCommands launch r.site t r.job.commands).2⟩])
    refine ⟨List.replicate n front.length ++ order,
      ⟨r.site, none, [], (replayCommands launch r.site t r.job.commands).2⟩ :: ends, ?_, ?_, ?_⟩
    · rw [List.map_cons, interleave_append, interleave_replicate, Thread.start, hn]
      simpa [replayJobs] using horder
    · intro w hw
      rcases List.mem_cons.1 hw with rfl | hw
      · exact ⟨rfl, rfl⟩
      · exact hends w hw
    · rw [total, List.foldr_cons, ← total, htotal, replayJobs]

end BitcodeReplay.Replay
