import BitcodeReplay.Traversal
import Mathlib.Data.List.Basic
import Mathlib.Data.List.Nodup
import Mathlib.Logic.Relation

/-!
The order in which a depth-first traversal meets vertices, without its stack: the next vertex is
always the first unmet end of an edge of the vertex met last that has such an edge, or else the next
root. From this alone it follows that each vertex is met once and that exactly those are met to
which a path leads.
-/

namespace BitcodeReplay.Traversal

variable {α : Type}

@[simp] theorem entered_nil : entered ([] : List (Event α)) = [] := rfl

@[simp] theorem entered_enter (a : α) (es : List (Event α)) :
    entered (.enter a :: es) = a :: entered es := rfl

@[simp] theorem entered_edge (a b : α) (es : List (Event α)) :
    entered (.edge a b :: es) = entered es := rfl

@[simp] theorem entered_leave (a : α) (es : List (Event α)) :
    entered (.leave a :: es) = entered es := rfl

/-- The edges that are passed, in order. -/
def passed (events : List (Event α)) : List (α × α) :=
  events.filterMap fun
    | .edge a b => some (a, b)
    | _ => none

@[simp] theorem passed_nil : passed ([] : List (Event α)) = [] := rfl

@[simp] theorem passed_concat_edge (es : List (Event α)) (a b : α) :
    passed (es ++ [.edge a b]) = passed es ++ [(a, b)] := by simp [passed]

@[simp] theorem passed_concat_enter (es : List (Event α)) (a : α) :
    passed (es ++ [.enter a]) = passed es := by simp [passed]

@[simp] theorem passed_concat_leave (es : List (Event α)) (a : α) :
    passed (es ++ [.leave a]) = passed es := by simp [passed]

/-- The edges that are still to be passed. -/
def pendingEdges (tasks : List (Task α)) : List (α × α) :=
  tasks.filterMap fun
    | .edge a b => some (a, b)
    | _ => none

theorem pendingEdges_tasksOf (next : α → List α) (a : α) (rest : List (Task α)) :
    pendingEdges (tasksOf next a ++ rest) = (next a).map (fun b => (a, b)) ++ pendingEdges rest := by
  simp only [tasksOf]
  induction next a with
  | nil => simp [pendingEdges]
  | cons b children ih => simpa [pendingEdges] using ih

variable [DecidableEq α] {next : α → List α} {vertices roots : List α}

/-- The ends of the edges that start at a vertex. -/
def endsFrom (a : α) (edges : List (α × α)) : List α :=
  edges.filterMap fun e => if e.1 = a then some e.2 else none

@[simp] theorem endsFrom_nil (a : α) : endsFrom a [] = [] := rfl

theorem endsFrom_append (a : α) (es fs : List (α × α)) :
    endsFrom a (es ++ fs) = endsFrom a es ++ endsFrom a fs := by simp [endsFrom]

theorem mem_endsFrom {a b : α} {edges : List (α × α)} : b ∈ endsFrom a edges ↔ (a, b) ∈ edges := by
  simp [endsFrom, List.mem_filterMap]

theorem endsFrom_map (a x : α) (ends : List α) :
    endsFrom x (ends.map fun b => (a, b)) = if a = x then ends else [] := by
  by_cases h : a = x <;> simp [endsFrom, h, List.filterMap_map]

theorem nodup_of_endsFrom {edges : List (α × α)} (h : ∀ a, (endsFrom a edges).Nodup) :
    edges.Nodup := by
  induction edges with
  | nil => exact List.nodup_nil
  | cons e rest ih =>
    have happend : ∀ a, endsFrom a (e :: rest) = endsFrom a [e] ++ endsFrom a rest :=
      fun a => endsFrom_append a [e] rest
    refine List.nodup_cons.2 ⟨fun he => ?_, ih fun a => ?_⟩
    · have hnodup := h e.1
      rw [happend, List.nodup_append] at hnodup
      exact hnodup.2.2 e.2 (by simp [endsFrom]) e.2 (mem_endsFrom.2 he) rfl
    · have hnodup := h a
      rw [happend, List.nodup_append] at hnodup
      exact hnodup.2.1

/-! ### Running -/

theorem run_leave (next : α → List α) (vertices : List α) (a : α) (rest : List (Task α))
    (seen : List α) : run next vertices (.leave a :: rest) seen =
      .leave a :: run next vertices rest seen := by rw [run]

theorem run_edge (next : α → List α) (vertices : List α) (a b : α) (rest : List (Task α))
    (seen : List α) : run next vertices (.edge a b :: rest) seen =
      .edge a b :: run next vertices rest seen := by rw [run]

theorem run_visit_fresh {a : α} {seen : List α} (h : a ∈ vertices ∧ a ∉ seen)
    (rest : List (Task α)) : run next vertices (.visit a :: rest) seen =
      .enter a :: run next vertices (tasksOf next a ++ rest) (a :: seen) := by
  rw [run, if_pos h]

theorem run_visit_stale {a : α} {seen : List α} (h : ¬ (a ∈ vertices ∧ a ∉ seen))
    (rest : List (Task α)) :
    run next vertices (.visit a :: rest) seen = run next vertices rest seen := by
  rw [run, if_neg h]

/-- What every step keeps of the tasks, the vertices met and the events so far, a run keeps. -/
theorem run_invariant {P : List (Task α) → List α → List (Event α) → Prop}
    (leave : ∀ a rest seen past, P (.leave a :: rest) seen past → P rest seen (past ++ [.leave a]))
    (edge : ∀ a b rest seen past, P (.edge a b :: rest) seen past →
      P rest seen (past ++ [.edge a b]))
    (enter : ∀ a rest seen past, a ∈ vertices → a ∉ seen → P (.visit a :: rest) seen past →
      P (tasksOf next a ++ rest) (a :: seen) (past ++ [.enter a]))
    (skip : ∀ a rest seen past, ¬ (a ∈ vertices ∧ a ∉ seen) → P (.visit a :: rest) seen past →
      P rest seen past)
    (tasks : List (Task α)) (seen : List α) (past : List (Event α)) (h : P tasks seen past) :
    P [] ((entered (run next vertices tasks seen)).reverse ++ seen)
      (past ++ run next vertices tasks seen) := by
  induction tasks, seen using run.induct next vertices generalizing past with
  | case1 seen => simpa using h
  | case2 a rest seen ih =>
    simpa [run_leave] using ih _ (leave a rest seen past h)
  | case3 a b rest seen ih =>
    simpa [run_edge] using ih _ (edge a b rest seen past h)
  | case4 a rest seen hfresh ih =>
    simpa [run_visit_fresh hfresh] using ih _ (enter a rest seen past hfresh.1 hfresh.2 h)
  | case5 a rest seen hstale ih =>
    simpa [run_visit_stale hstale] using ih _ (skip a rest seen past hstale h)

/-! ### What is met next -/

/-- The vertex is there and has not been met. -/
def isNew (vertices met : List α) (a : α) : Bool := decide (a ∈ vertices ∧ a ∉ met)

/-- The first new end of an edge of the first vertex of a list that has one, or else the first new
root. -/
def offer (next : α → List α) (vertices roots met source : List α) : Option α :=
  (source.findSome? fun a => (next a).find? (isNew vertices met)).or
    (roots.find? (isNew vertices met))

/-- The vertex that is met next, after some. -/
def nextMet (next : α → List α) (vertices roots met : List α) : Option α :=
  offer next vertices roots met met.reverse

/-- Every vertex of the list is the one that is met next after those before it, and none is met
after the last. -/
def IsDiscoveryOrder (next : α → List α) (vertices roots met : List α) : Prop :=
  ∀ k, met[k]? = nextMet next vertices roots (met.take k)

/-- The first visit among tasks that would enter a vertex. -/
def firstVisit (vertices met : List α) (tasks : List (Task α)) : Option α :=
  tasks.findSome? fun
    | .visit a => if isNew vertices met a then some a else none
    | _ => none

theorem firstVisit_visit (met : List α) (a : α) (rest : List (Task α)) :
    firstVisit vertices met (.visit a :: rest) =
      if isNew vertices met a then some a else firstVisit vertices met rest := by
  by_cases h : isNew vertices met a <;> simp [firstVisit, h]

theorem firstVisit_edge (met : List α) (a b : α) (rest : List (Task α)) :
    firstVisit vertices met (.edge a b :: rest) = firstVisit vertices met rest := rfl

theorem firstVisit_leave (met : List α) (a : α) (rest : List (Task α)) :
    firstVisit vertices met (.leave a :: rest) = firstVisit vertices met rest := rfl

theorem firstVisit_tasksOf (met : List α) (a : α) (rest : List (Task α)) :
    firstVisit vertices met (tasksOf next a ++ rest) =
      ((next a).find? (isNew vertices met)).or (firstVisit vertices met rest) := by
  simp only [tasksOf]
  induction next a with
  | nil => simp [firstVisit_leave]
  | cons b children ih =>
    simp only [List.flatMap_cons, List.cons_append, List.nil_append, firstVisit_edge,
      firstVisit_visit, List.find?_cons] at ih ⊢
    cases isNew vertices met b with
    | true => simp
    | false => simpa using ih

/-- Whatever else has been met, the tasks start with what the vertices met so far offer. -/
def Offers (next : α → List α) (vertices roots : List α) (tasks : List (Task α))
    (seen : List α) : Prop :=
  ∀ met, (∀ a ∈ seen, a ∈ met) →
    firstVisit vertices met tasks = offer next vertices roots met seen

theorem offers_roots : Offers next vertices roots (roots.map .visit) [] := by
  intro met _
  simp only [offer, List.findSome?_nil, Option.none_or]
  induction roots with
  | nil => rfl
  | cons r rest ih =>
    by_cases h : isNew vertices met r <;> simp [firstVisit_visit, h, ih]

theorem Offers.skip {a : α} {rest : List (Task α)} {seen : List α}
    (ha : ¬ (a ∈ vertices ∧ a ∉ seen))
    (h : Offers next vertices roots (.visit a :: rest) seen) :
    Offers next vertices roots rest seen := by
  intro met hmet
  have hold : isNew vertices met a = false :=
    decide_eq_false fun hnew => ha ⟨hnew.1, fun hs => hnew.2 (hmet a hs)⟩
  have hfirst := h met hmet
  rwa [firstVisit_visit, hold, if_neg Bool.false_ne_true] at hfirst

theorem Offers.enter {a : α} {rest : List (Task α)} {seen : List α}
    (h : Offers next vertices roots (.visit a :: rest) seen) :
    Offers next vertices roots (tasksOf next a ++ rest) (a :: seen) := by
  intro met hmet
  have hrest := h met fun b hb => hmet b (List.mem_cons_of_mem _ hb)
  have hold : isNew vertices met a = false := by simp [isNew, hmet a List.mem_cons_self]
  rw [firstVisit_visit, hold, if_neg Bool.false_ne_true] at hrest
  rw [firstVisit_tasksOf, hrest, offer, offer, List.findSome?_cons]
  cases (next a).find? (isNew vertices met) <;> simp

/-- The vertex that a visit enters is the one that is met next. -/
theorem Offers.nextMet_eq {a : α} {rest : List (Task α)} {seen : List α}
    (h : Offers next vertices roots (.visit a :: rest) seen) (ha : a ∈ vertices)
    (hs : a ∉ seen) : nextMet next vertices roots seen.reverse = some a := by
  have hnew : ∀ b, isNew vertices seen.reverse b = isNew vertices seen b := fun b => by
    simp [isNew]
  have hfirst := h seen fun _ hb => hb
  have hvisit : isNew vertices seen a = true := decide_eq_true ⟨ha, hs⟩
  rw [firstVisit_visit, if_pos hvisit] at hfirst
  simp only [nextMet, offer, List.reverse_reverse, funext hnew]
  exact hfirst.symm

/-! ### The order of discovery -/

/-- What a run keeps: the tasks hold what is met next, and what has been met has been met in
order. -/
structure Discovers (next : α → List α) (vertices roots : List α) (tasks : List (Task α))
    (seen : List α) : Prop where
  offers : Offers next vertices roots tasks seen
  order : ∀ k < seen.length,
    seen.reverse[k]? = nextMet next vertices roots (seen.reverse.take k)

theorem discovers_enter {a : α} {rest : List (Task α)} {seen : List α} (ha : a ∈ vertices)
    (hs : a ∉ seen) (h : Discovers next vertices roots (.visit a :: rest) seen) :
    Discovers next vertices roots (tasksOf next a ++ rest) (a :: seen) where
  offers := h.offers.enter
  order := by
    intro k hk
    rw [List.reverse_cons]
    rcases Nat.lt_or_ge k seen.length with hlt | hge
    · rw [List.getElem?_append_left (by simpa using hlt),
        List.take_append_of_le_length (by simpa using Nat.le_of_lt hlt)]
      exact h.order k hlt
    · obtain rfl : k = seen.length := by simp at hk; omega
      have hlength : seen.length = seen.reverse.length := by simp
      rw [hlength, List.getElem?_concat_length, List.take_left]
      exact (h.offers.nextMet_eq ha hs).symm

theorem isDiscoveryOrder_entered (next : α → List α) (vertices roots : List α) :
    IsDiscoveryOrder next vertices roots
      (entered (run next vertices (roots.map .visit) [])) := by
  have hend : Discovers next vertices roots []
      ((entered (run next vertices (roots.map .visit) [])).reverse ++ []) :=
    run_invariant (P := fun tasks seen _ => Discovers next vertices roots tasks seen)
      (fun a rest seen _ h => ⟨fun met hmet => h.offers met hmet, h.order⟩)
      (fun a b rest seen _ h => ⟨fun met hmet => h.offers met hmet, h.order⟩)
      (fun a rest seen _ ha hs h => discovers_enter ha hs h)
      (fun a rest seen _ ha h => ⟨h.offers.skip ha, h.order⟩)
      (roots.map .visit) [] [] ⟨offers_roots, by simp⟩
  simp only [List.append_nil] at hend
  intro k
  rcases Nat.lt_or_ge k (entered (run next vertices (roots.map .visit) [])).length with hlt | hge
  · simpa using hend.order k (by simpa using hlt)
  · have hnone := hend.offers _ fun _ hb => List.mem_reverse.1 hb
    rw [List.getElem?_eq_none hge, List.take_of_length_le hge, nextMet, ← hnone]
    rfl

/-! ### What is met -/

variable {met : List α}

theorem isNew_iff {a : α} : isNew vertices met a = true ↔ a ∈ vertices ∧ a ∉ met := by
  simp [isNew]

theorem mem_offer {source : List α} {b : α} (h : offer next vertices roots met source = some b) :
    (b ∈ vertices ∧ b ∉ met) ∧ ((∃ a ∈ source, b ∈ next a) ∨ b ∈ roots) := by
  rcases Option.or_eq_some_iff.1 h with hedge | ⟨-, hroot⟩
  · obtain ⟨a, ha, hb⟩ := List.exists_of_findSome?_eq_some hedge
    exact ⟨isNew_iff.1 (List.find?_some hb), .inl ⟨a, ha, List.mem_of_find?_eq_some hb⟩⟩
  · exact ⟨isNew_iff.1 (List.find?_some hroot), .inr (List.mem_of_find?_eq_some hroot)⟩

theorem IsDiscoveryOrder.nextMet_eq (h : IsDiscoveryOrder next vertices roots met) {k : Nat}
    (hk : k < met.length) : nextMet next vertices roots (met.take k) = some met[k] := by
  rw [← h k, List.getElem?_eq_getElem hk]

theorem IsDiscoveryOrder.nodup (h : IsDiscoveryOrder next vertices roots met) : met.Nodup := by
  rw [List.nodup_iff_getElem?_ne_getElem?]
  intro i j hij hj heq
  have hnew := (mem_offer (h.nextMet_eq hj)).1.2
  rw [List.getElem?_eq_getElem (Nat.lt_trans hij hj), List.getElem?_eq_getElem hj] at heq
  exact hnew (List.mem_take_iff_getElem.2 ⟨i, by omega, Option.some.inj heq⟩)

theorem IsDiscoveryOrder.subset (h : IsDiscoveryOrder next vertices roots met) {a : α}
    (ha : a ∈ met) : a ∈ vertices := by
  obtain ⟨k, hk, rfl⟩ := List.getElem_of_mem ha
  exact (mem_offer (h.nextMet_eq hk)).1.1

/-- Nothing is left to be met in the end. -/
theorem IsDiscoveryOrder.offer_eq_none (h : IsDiscoveryOrder next vertices roots met) :
    offer next vertices roots met met.reverse = none := by
  have hend := h met.length
  rwa [List.getElem?_eq_none (Nat.le_refl _), List.take_length, eq_comm] at hend

theorem IsDiscoveryOrder.root_mem (h : IsDiscoveryOrder next vertices roots met) {r : α}
    (hr : r ∈ roots) (hv : r ∈ vertices) : r ∈ met := by
  have hnone := (Option.or_eq_none_iff.1 h.offer_eq_none).2
  by_contra hm
  exact List.find?_eq_none.1 hnone r hr (isNew_iff.2 ⟨hv, hm⟩)

theorem IsDiscoveryOrder.next_mem (h : IsDiscoveryOrder next vertices roots met) {a b : α}
    (ha : a ∈ met) (hb : b ∈ next a) (hv : b ∈ vertices) : b ∈ met := by
  have hnone := (Option.or_eq_none_iff.1 h.offer_eq_none).1
  by_contra hm
  have hfind := List.findSome?_eq_none_iff.1 hnone a (List.mem_reverse.2 ha)
  exact List.find?_eq_none.1 hfind b hb (isNew_iff.2 ⟨hv, hm⟩)

/-- Exactly those vertices are met to which a path leads from a root. -/
theorem IsDiscoveryOrder.mem_iff (h : IsDiscoveryOrder next vertices roots met) {a : α} :
    a ∈ met ↔ ∃ r ∈ roots, r ∈ vertices ∧
      Relation.ReflTransGen (fun x y => y ∈ next x ∧ y ∈ vertices) r a := by
  constructor
  · intro ha
    obtain ⟨k, hk, rfl⟩ := List.getElem_of_mem ha
    induction k using Nat.strongRecOn with
    | ind k ih =>
      obtain ⟨⟨hv, -⟩, ⟨b, hb, hnext⟩ | hroot⟩ := mem_offer (h.nextMet_eq hk)
      · obtain ⟨j, hj, rfl⟩ := List.mem_take_iff_getElem.1 (List.mem_reverse.1 hb)
        obtain ⟨r, hr, hrv, hpath⟩ := ih j (by omega) (by omega) (List.getElem_mem _)
        exact ⟨r, hr, hrv, hpath.tail ⟨hnext, hv⟩⟩
      · exact ⟨_, hroot, hv, .refl⟩
  · rintro ⟨r, hr, hrv, hpath⟩
    induction hpath with
    | refl => exact h.root_mem hr hrv
    | tail _ hstep ih => exact h.next_mem ih hstep.1 hstep.2

/-! ### The edges that are passed -/

/-- At each vertex that has been met, the edges passed and those still to be passed are all its
edges, in order; at others there are none. -/
def AccountsEdges (next : α → List α) (tasks : List (Task α)) (seen : List α)
    (past : List (Event α)) : Prop :=
  ∀ a, endsFrom a (passed past ++ pendingEdges tasks) = if a ∈ seen then next a else []

theorem accountsEdges_roots (next : α → List α) (roots : List α) :
    AccountsEdges next (roots.map .visit) [] [] := by
  have hnone : pendingEdges (roots.map .visit) = [] := by simp [pendingEdges]
  intro a
  simp [hnone]

theorem AccountsEdges.leave {a : α} {rest : List (Task α)} {seen : List α} {past : List (Event α)}
    (h : AccountsEdges next (.leave a :: rest) seen past) :
    AccountsEdges next rest seen (past ++ [.leave a]) := by
  simpa [AccountsEdges, pendingEdges] using h

theorem AccountsEdges.edge {a b : α} {rest : List (Task α)} {seen : List α}
    {past : List (Event α)} (h : AccountsEdges next (.edge a b :: rest) seen past) :
    AccountsEdges next rest seen (past ++ [.edge a b]) := by
  simpa [AccountsEdges, pendingEdges] using h

theorem AccountsEdges.skip {a : α} {rest : List (Task α)} {seen : List α} {past : List (Event α)}
    (h : AccountsEdges next (.visit a :: rest) seen past) : AccountsEdges next rest seen past := h

theorem AccountsEdges.enter {a : α} {rest : List (Task α)} {seen : List α}
    {past : List (Event α)} (ha : a ∉ seen)
    (h : AccountsEdges next (.visit a :: rest) seen past) :
    AccountsEdges next (tasksOf next a ++ rest) (a :: seen) (past ++ [.enter a]) := by
  intro x
  have hx : endsFrom x (passed past) ++ endsFrom x (pendingEdges rest) =
      if x ∈ seen then next x else [] := by rw [← endsFrom_append]; exact h x
  rw [passed_concat_enter, pendingEdges_tasksOf, endsFrom_append, endsFrom_append, endsFrom_map]
  by_cases hxa : a = x
  · subst hxa
    rw [if_neg ha, List.append_eq_nil_iff] at hx
    simp [hx.1, hx.2]
  · simp [hxa, Ne.symm hxa, hx]

/-- An edge that is still to be passed starts at a vertex that has been met. -/
theorem AccountsEdges.of_mem {tasks : List (Task α)} {seen : List α} {past : List (Event α)}
    (h : AccountsEdges next tasks seen past) {a b : α}
    (he : (a, b) ∈ passed past ++ pendingEdges tasks) : a ∈ seen ∧ b ∈ next a := by
  have hb := mem_endsFrom.2 he
  rw [h a] at hb
  by_cases ha : a ∈ seen <;> simp_all

end BitcodeReplay.Traversal
