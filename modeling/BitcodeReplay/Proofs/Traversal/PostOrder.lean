import BitcodeReplay.Proofs.List
import BitcodeReplay.Proofs.Traversal.Discovery
import Mathlib.Data.List.Induction
import Mathlib.Data.List.Nodup
import Mathlib.Logic.Relation

/-!
The order in which a depth-first traversal leaves vertices. A vertex is left after all vertices that
its edges lead to, but for those that are still waiting below it, from which it has been reached.
Without cycles there are none of these. The vertex where the traversal starts is left last.
-/

namespace BitcodeReplay.Traversal

variable {α : Type}

@[simp] theorem left_nil : left ([] : List (Event α)) = [] := rfl

@[simp] theorem left_enter (a : α) (es : List (Event α)) : left (.enter a :: es) = left es := rfl

@[simp] theorem left_edge (a b : α) (es : List (Event α)) :
    left (.edge a b :: es) = left es := rfl

@[simp] theorem left_leave (a : α) (es : List (Event α)) :
    left (.leave a :: es) = a :: left es := rfl

theorem left_append (es fs : List (Event α)) : left (es ++ fs) = left es ++ left fs := by
  simp [left]

/-- The vertices that have been entered and not been left, the last one first. -/
def opened (tasks : List (Task α)) : List α :=
  tasks.filterMap fun
    | .leave a => some a
    | _ => none

theorem mem_opened {tasks : List (Task α)} {a : α} : a ∈ opened tasks ↔ .leave a ∈ tasks := by
  rw [opened, List.mem_filterMap]
  constructor
  · rintro ⟨task, htask, h⟩
    split at h
    · cases h
      exact htask
    · cases h
  · exact fun h => ⟨_, h, rfl⟩

theorem opened_append (ts us : List (Task α)) : opened (ts ++ us) = opened ts ++ opened us := by
  simp [opened]

@[simp] theorem opened_leave (a : α) (rest : List (Task α)) :
    opened (.leave a :: rest) = a :: opened rest := rfl

@[simp] theorem opened_visit (a : α) (rest : List (Task α)) :
    opened (.visit a :: rest) = opened rest := rfl

@[simp] theorem opened_edge (a b : α) (rest : List (Task α)) :
    opened (.edge a b :: rest) = opened rest := rfl

/-- What is done at a vertex before it is left. -/
def visits (next : α → List α) (a : α) : List (Task α) :=
  (next a).flatMap fun b => [.edge a b, .visit b]

theorem tasksOf_eq (next : α → List α) (a : α) : tasksOf next a = visits next a ++ [.leave a] := rfl

theorem mem_visits {next : α → List α} {a : α} {task : Task α} (h : task ∈ visits next a) :
    ∃ b ∈ next a, task = .edge a b ∨ task = .visit b := by
  obtain ⟨b, hb, htask⟩ := List.mem_flatMap.1 h
  exact ⟨b, hb, by simpa using htask⟩

theorem visit_mem_visits {next : α → List α} {a b : α} (h : b ∈ next a) :
    .visit b ∈ visits next a := List.mem_flatMap.2 ⟨b, h, by simp⟩

theorem opened_visits (next : α → List α) (a : α) : opened (visits next a) = [] := by
  refine List.eq_nil_iff_forall_not_mem.2 fun x hx => ?_
  obtain ⟨b, -, hedge | hvisit⟩ := mem_visits (mem_opened.1 hx)
  · cases hedge
  · cases hvisit

/-- A vertex that is entered is open until it is left. -/
theorem opened_tasksOf (next : α → List α) (a : α) (rest : List (Task α)) :
    opened (tasksOf next a ++ rest) = a :: opened rest := by
  rw [tasksOf_eq, opened_append, opened_append, opened_visits]
  rfl

/-! ### What stands on the stack -/

/-- Every vertex stands behind all those that its edges lead to. -/
structure PostOrdered (next : α → List α) (vertices order : List α) : Prop where
  nodup : order.Nodup
  earlier : ∀ front x back, order = front ++ x :: back → ∀ y ∈ next x, y ∈ vertices → y ∈ front

/-- The edge relation. -/
def Follows (next : α → List α) (a b : α) : Prop := b ∈ next a

/-- Every vertex stands behind all those that its edges lead to, unless they lead back to it. -/
structure Unwound (next : α → List α) (vertices order : List α) : Prop where
  nodup : order.Nodup
  earlier : ∀ front x back, order = front ++ x :: back → ∀ y ∈ next x, y ∈ vertices →
    y ∈ front ∨ Relation.ReflTransGen (Follows next) y x

/-- What the tasks say about the vertices: an open vertex leads to all that is done before it is
left, and the ends of its edges have been left, or will be before it, or lead back to it. -/
structure Stacked (next : α → List α) (vertices : List α) (tasks : List (Task α))
    (seen order : List α) : Prop where
  below : tasks.Pairwise fun task later => ∀ x z, task = .visit x ∨ task = .leave x →
    later = .leave z → Relation.TransGen (Follows next) z x
  seen_iff : ∀ v, v ∈ seen ↔ v ∈ order ++ opened tasks
  nodup : (order ++ opened tasks).Nodup
  ends : ∀ front x back, tasks = front ++ .leave x :: back → ∀ y ∈ next x, y ∈ vertices →
    y ∈ order ∨ .visit y ∈ front ∨ .leave y ∈ front ∨ Relation.ReflTransGen (Follows next) y x
  ordered : Unwound next vertices order

variable {next : α → List α} {vertices seen order : List α} {rest : List (Task α)} {a : α}

theorem PostOrdered.unwound (h : PostOrdered next vertices order) :
    Unwound next vertices order where
  nodup := h.nodup
  earlier := fun front x back heq y hy hv => .inl (h.earlier front x back heq y hy hv)

/-- Without cycles no edge leads back. -/
theorem Unwound.postOrdered (h : Unwound next vertices order)
    (hacyclic : ∀ x, ¬ Relation.TransGen (Follows next) x x) : PostOrdered next vertices order where
  nodup := h.nodup
  earlier := by
    intro front x back heq y hy hv
    rcases h.earlier front x back heq y hy hv with hfront | hback
    · exact hfront
    · exact absurd (Relation.TransGen.head' hy hback) (hacyclic x)

theorem Unwound.concat (h : Unwound next vertices order) (ha : a ∉ order)
    (hends : ∀ y ∈ next a, y ∈ vertices →
      y ∈ order ∨ Relation.ReflTransGen (Follows next) y a) :
    Unwound next vertices (order ++ [a]) where
  nodup := by
    rw [List.nodup_append]
    refine ⟨h.nodup, by simp, fun x hx y hy hxy => ha ?_⟩
    rw [← List.mem_singleton.1 hy, ← hxy]
    exact hx
  earlier := by
    intro front x back heq y hy hv
    rcases split_concat heq with ⟨before, horder⟩ | ⟨rfl, rfl⟩
    · exact h.earlier front x before horder y hy hv
    · exact hends y hy hv

theorem PostOrdered.of_concat (h : PostOrdered next vertices (order ++ [a])) :
    PostOrdered next vertices order where
  nodup := (List.nodup_append.1 h.nodup).1
  earlier := by
    intro front x back heq y hy hv
    exact h.earlier front x (back ++ [a]) (by simp [heq]) y hy hv

theorem PostOrdered.mem_of_next (h : PostOrdered next vertices order) {x y : α} (hx : x ∈ order)
    (hy : y ∈ next x) (hv : y ∈ vertices) : y ∈ order := by
  obtain ⟨front, back, rfl⟩ := List.append_of_mem hx
  exact List.mem_append_left _ (h.earlier front x back rfl y hy hv)

/-- What holds of a vertex whenever it holds of all those that its edges lead to holds of every
vertex in the order. -/
theorem PostOrdered.induction {P : α → Prop} (h : PostOrdered next vertices order)
    (step : ∀ x ∈ order, (∀ y ∈ next x, y ∈ vertices → P y) → P x) : ∀ x ∈ order, P x := by
  have hfront : ∀ front back, order = front ++ back → ∀ x ∈ front, P x := by
    intro front
    induction front using List.reverseRecOn with
    | nil => simp
    | append_singleton front x ih =>
      intro back heq y hy
      rw [List.append_assoc, List.singleton_append] at heq
      rcases List.mem_append.1 hy with hy | hy
      · exact ih _ heq y hy
      · obtain rfl := List.mem_singleton.1 hy
        refine step y (by simp [heq]) fun z hz hv => ?_
        exact ih _ heq z (h.earlier front y back heq z hz hv)
  exact hfront order [] (List.append_nil order).symm

theorem Stacked.leave (h : Stacked next vertices (.leave a :: rest) seen order) :
    Stacked next vertices rest seen (order ++ [a]) where
  below := (List.pairwise_cons.1 h.below).2
  seen_iff := by
    intro v
    rw [h.seen_iff]
    simp
  nodup := by simpa using h.nodup
  ends := by
    intro front x back heq y hy hv
    rcases h.ends (.leave a :: front) x back (by rw [heq]; rfl) y hy hv with
      hdone | hvisit | hleave | hback
    · exact .inl (List.mem_append_left _ hdone)
    · exact .inr (.inl (by simpa using hvisit))
    · rcases List.mem_cons.1 hleave with he | hleave
      · cases he
        exact .inl (by simp)
      · exact .inr (.inr (.inl hleave))
    · exact .inr (.inr (.inr hback))
  ordered := by
    refine h.ordered.concat (fun ha => ?_) fun y hy hv => ?_
    · exact (List.nodup_append.1 h.nodup).2.2 a ha a (by simp) rfl
    · simpa using h.ends [] a rest rfl y hy hv

theorem Stacked.edge {b : α} (h : Stacked next vertices (.edge a b :: rest) seen order) :
    Stacked next vertices rest seen order where
  below := (List.pairwise_cons.1 h.below).2
  seen_iff := h.seen_iff
  nodup := h.nodup
  ends := by
    intro front x back heq y hy hv
    simpa using h.ends (.edge a b :: front) x back (by rw [heq]; rfl) y hy hv
  ordered := h.ordered

/-- An open vertex that waits behind another, or is the same, leads to it. -/
theorem Stacked.leads_of_leave {front back : List (Task α)} {x : α}
    (h : Stacked next vertices (front ++ .leave x :: back) seen order)
    (ha : .leave a ∈ .leave x :: back) : Relation.ReflTransGen (Follows next) a x := by
  rcases List.mem_cons.1 ha with he | hback
  · cases he
    exact .refl
  · have hbelow := (List.pairwise_cons.1 (List.pairwise_append.1 h.below).2.1).1
    exact (hbelow _ hback x a (.inr rfl) rfl).to_reflTransGen

/-- A vertex that is met again has been left or is still open. -/
theorem Stacked.skip (ha : ¬ (a ∈ vertices ∧ a ∉ seen))
    (h : Stacked next vertices (.visit a :: rest) seen order) :
    Stacked next vertices rest seen order where
  below := (List.pairwise_cons.1 h.below).2
  seen_iff := h.seen_iff
  nodup := h.nodup
  ends := by
    intro front x back heq y hy hv
    rcases h.ends (.visit a :: front) x back (by rw [heq]; rfl) y hy hv with
      hdone | hvisit | hleave | hback
    · exact .inl hdone
    · rcases List.mem_cons.1 hvisit with he | hvisit
      · cases he
        have hseen : a ∈ seen := by_contra fun hs => ha ⟨hv, hs⟩
        rcases List.mem_append.1 ((h.seen_iff a).1 hseen) with hdone | hopen
        · exact .inl hdone
        · rw [opened_visit, mem_opened, heq, List.mem_append] at hopen
          rcases hopen with hfront | hlater
          · exact .inr (.inr (.inl hfront))
          · have hstack : Stacked next vertices ((.visit a :: front) ++ .leave x :: back) seen
                order := by rwa [heq] at h
            exact .inr (.inr (.inr (hstack.leads_of_leave hlater)))
      · exact .inr (.inl hvisit)
    · exact .inr (.inr (.inl (by simpa using hleave)))
    · exact .inr (.inr (.inr hback))
  ordered := h.ordered

/-- A vertex leads to whatever is done between entering and leaving it. -/
theorem leads_of_mem_tasksOf {task : Task α} {x : α} (htask : task ∈ tasksOf next a)
    (hx : task = .visit x ∨ task = .leave x) : Relation.ReflTransGen (Follows next) a x := by
  rw [tasksOf_eq, List.mem_append] at htask
  rcases htask with htask | htask
  · obtain ⟨b, hb, rfl | rfl⟩ := mem_visits htask
    · simp at hx
    · obtain rfl : b = x := by simpa using hx
      exact .single hb
  · obtain rfl : a = x := by
      rw [List.mem_singleton.1 htask] at hx
      simpa using hx
    exact .refl

/-- The only vertex that is left among the tasks of a vertex is the vertex itself, after its edges
have been followed. -/
theorem pairwise_tasksOf (next : α → List α) (a : α) :
    (tasksOf next a).Pairwise fun task later => ∀ x z, task = .visit x ∨ task = .leave x →
      later = .leave z → Relation.TransGen (Follows next) z x := by
  rw [tasksOf_eq, List.pairwise_append]
  refine ⟨?_, by simp, fun task htask later hlater x z hx hz => ?_⟩
  · refine List.pairwise_of_forall_mem_list fun task _ later hlater x z _ hz => ?_
    obtain ⟨b, -, hedge | hvisit⟩ := mem_visits hlater
    · rw [hz] at hedge
      cases hedge
    · rw [hz] at hvisit
      cases hvisit
  · rw [List.mem_singleton.1 hlater] at hz
    cases hz
    obtain ⟨b, hb, rfl | rfl⟩ := mem_visits htask
    · simp at hx
    · obtain rfl : b = x := by simpa using hx
      exact .single hb

theorem tasksOf_split {front back : List (Task α)} {x : α}
    (h : tasksOf next a = front ++ .leave x :: back) : x = a ∧ front = visits next a := by
  rw [tasksOf_eq] at h
  rcases split_concat h with ⟨mid, hvisits⟩ | ⟨rfl, hx⟩
  · have hmem : x ∈ opened (visits next a) := mem_opened.2 (by simp [hvisits])
    rw [opened_visits] at hmem
    cases hmem
  · cases hx
    exact ⟨rfl, rfl⟩

theorem Stacked.enter (hs : a ∉ seen)
    (h : Stacked next vertices (.visit a :: rest) seen order) :
    Stacked next vertices (tasksOf next a ++ rest) (a :: seen) order where
  below := by
    obtain ⟨habove, hrest⟩ := List.pairwise_cons.1 h.below
    rw [List.pairwise_append]
    refine ⟨pairwise_tasksOf next a, hrest, fun task htask later hlater x z hx hz => ?_⟩
    have hza := habove later hlater a z (.inl rfl) hz
    exact hza.trans_left (leads_of_mem_tasksOf htask hx)
  seen_iff := by
    intro v
    rw [List.mem_cons, h.seen_iff, opened_tasksOf, opened_visit]
    simp only [List.mem_append, List.mem_cons]
    tauto
  nodup := by
    have hnew : a ∉ order ++ opened rest := fun hmem => hs ((h.seen_iff a).2 hmem)
    rw [opened_tasksOf]
    exact List.nodup_middle.2 (List.nodup_cons.2 ⟨hnew, h.nodup⟩)
  ends := by
    intro front x back heq y hy hv
    rcases split_append heq with ⟨mid, htasks, -⟩ | ⟨mid, rfl, hrest⟩
    · obtain ⟨rfl, rfl⟩ := tasksOf_split htasks
      exact .inr (.inl (visit_mem_visits hy))
    · rcases h.ends (.visit a :: mid) x back (by rw [hrest]; rfl) y hy hv with
        hdone | hvisit | hleave | hback
      · exact .inl hdone
      · rcases List.mem_cons.1 hvisit with he | hvisit
        · cases he
          exact .inr (.inr (.inl (List.mem_append_left _ (by simp [tasksOf_eq]))))
        · exact .inr (.inl (List.mem_append_right _ hvisit))
      · exact .inr (.inr (.inl (List.mem_append_right _ (by simpa using hleave))))
      · exact .inr (.inr (.inr hback))
  ordered := h.ordered

/-! ### The order of leaving -/

variable [DecidableEq α]

/-- A run from one vertex leaves all that it enters, and nothing else. -/
theorem mem_entered_iff_left (next : α → List α) (vertices seen : List α) (n v : α) :
    v ∈ entered (run next vertices [.visit n] seen) ++ seen ↔
      v ∈ left (run next vertices [.visit n] seen) ++ seen := by
  have hend : v ∈ (entered (run next vertices [.visit n] seen)).reverse ++ seen ↔
      v ∈ left ([] ++ run next vertices [.visit n] seen) ++ (opened [] ++ seen) := run_invariant
    (P := fun tasks met past => v ∈ met ↔ v ∈ left past ++ (opened tasks ++ seen))
    (fun a rest met past h => by simpa [left_append] using h)
    (fun a b rest met past h => by simpa [left_append] using h)
    (fun a rest met past _ _ h => by
      rw [opened_visit] at h
      rw [opened_tasksOf, List.mem_cons, h, left_append, left_enter, left_nil]
      simp only [List.mem_append, List.mem_cons, List.append_nil]
      tauto)
    (fun a rest met past _ h => by simpa using h)
    [.visit n] seen [] (by simp [opened])
  simpa [opened] using hend

theorem mem_entered_of_visit {n : α} (hn : n ∈ vertices) (next : α → List α) (seen : List α) :
    n ∈ entered (run next vertices [.visit n] seen) ++ seen := by
  by_cases hs : n ∈ seen
  · exact List.mem_append_right _ hs
  · rw [run_visit_fresh ⟨hn, hs⟩]
    exact List.mem_append_left _ List.mem_cons_self

/-- A run from one vertex, after some have been left, leaves more of them in order. -/
theorem run_unwound (hordered : Unwound next vertices order) (hseen : ∀ v, v ∈ seen ↔ v ∈ order)
    (n : α) : Unwound next vertices (order ++ left (run next vertices [.visit n] seen)) := by
  have hstart : Stacked next vertices [.visit n] seen (order ++ left ([] : List (Event α))) := by
    refine ⟨by simp, fun v => by simp [hseen, opened], ?_, fun front x back heq => ?_, ?_⟩
    · simpa [opened] using hordered.nodup
    · cases front with
      | nil => simp at heq
      | cons task front => simp at heq
    · simpa using hordered
  have hend := run_invariant
    (P := fun tasks seen past => Stacked next vertices tasks seen (order ++ left past))
    (fun a rest seen past h => by
      rw [left_append, left_leave, left_nil, ← List.append_assoc]
      exact h.leave)
    (fun a b rest seen past h => by
      rw [left_append, left_edge, left_nil, List.append_nil]
      exact h.edge)
    (fun a rest seen past _ hs h => by
      rw [left_append, left_enter, left_nil, List.append_nil]
      exact h.enter hs)
    (fun a rest seen past ha h => h.skip ha)
    [.visit n] seen [] hstart
  exact hend.ordered

theorem run_postOrdered (hacyclic : ∀ x, ¬ Relation.TransGen (Follows next) x x)
    (hordered : PostOrdered next vertices order) (hseen : ∀ v, v ∈ seen ↔ v ∈ order) (n : α) :
    PostOrdered next vertices (order ++ left (run next vertices [.visit n] seen)) ∧
    (∀ v, v ∈ entered (run next vertices [.visit n] seen) ++ seen ↔
      v ∈ order ++ left (run next vertices [.visit n] seen)) ∧
    (n ∈ vertices → n ∈ order ++ left (run next vertices [.visit n] seen)) := by
  have hiff : ∀ v, v ∈ entered (run next vertices [.visit n] seen) ++ seen ↔
      v ∈ order ++ left (run next vertices [.visit n] seen) := by
    intro v
    rw [mem_entered_iff_left, List.mem_append, List.mem_append, hseen, or_comm]
  exact ⟨(run_unwound hordered.unwound hseen n).postOrdered hacyclic, hiff,
    fun hn => (hiff n).1 (mem_entered_of_visit hn next seen)⟩

/-- A vertex that waits behind all other tasks is left when they have been worked off. -/
theorem run_concat_leave (next : α → List α) (vertices : List α) (a : α) (tasks : List (Task α))
    (seen : List α) : run next vertices (tasks ++ [.leave a]) seen =
      run next vertices tasks seen ++ [.leave a] := by
  induction tasks, seen using run.induct next vertices with
  | case1 seen => rw [List.nil_append, run_leave, run_nil, List.nil_append]
  | case2 b rest seen ih => rw [List.cons_append, run_leave, run_leave, ih, List.cons_append]
  | case3 b c rest seen ih => rw [List.cons_append, run_edge, run_edge, ih, List.cons_append]
  | case4 b rest seen hfresh ih =>
    rw [List.cons_append, run_visit_fresh hfresh, run_visit_fresh hfresh, ← List.append_assoc, ih,
      List.cons_append]
  | case5 b rest seen hstale ih =>
    rw [List.cons_append, run_visit_stale hstale, run_visit_stale hstale, ih]

/-- The vertex where a run starts is left last. -/
theorem left_run_visit {n : α} (hn : n ∈ vertices) (hs : n ∉ seen) :
    left (run next vertices [.visit n] seen) =
      left (run next vertices (visits next n) (n :: seen)) ++ [n] := by
  rw [run_visit_fresh ⟨hn, hs⟩, List.append_nil, tasksOf_eq, run_concat_leave, left_enter,
    left_append, left_leave, left_nil]

end BitcodeReplay.Traversal
