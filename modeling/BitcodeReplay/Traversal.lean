/-!
Depth-first traversal of a finite graph, as the list of its events: entering a vertex, passing an
edge, leaving a vertex. A vertex is entered at most once, and left when all its edges have been
passed and their ends entered.
-/

namespace BitcodeReplay.Traversal

inductive Event (α : Type) where
  | enter (a : α)
  | edge (a b : α)
  | leave (a : α)
  deriving DecidableEq, Repr

inductive Task (α : Type) where
  | visit (a : α)
  | edge (a b : α)
  | leave (a : α)
  deriving DecidableEq, Repr

section

variable {α : Type} [DecidableEq α]

/-- What remains to be done at a vertex that has been entered. -/
def tasksOf (next : α → List α) (a : α) : List (Task α) :=
  (next a).flatMap (fun b => [.edge a b, .visit b]) ++ [.leave a]

/-- The vertices of a list that have not been entered. -/
def unseen (vertices seen : List α) : List α := vertices.filter (· ∉ seen)

theorem length_unseen_cons_lt {vertices seen : List α} {a : α} (ha : a ∈ vertices)
    (hs : a ∉ seen) : (unseen vertices (a :: seen)).length < (unseen vertices seen).length := by
  have h : unseen vertices (a :: seen) = (unseen vertices seen).filter (· ≠ a) := by
    simp only [unseen, List.filter_filter]
    apply List.filter_congr
    intro x _
    by_cases hx : x = a <;> simp [hx]
  rw [h]
  exact List.length_filter_lt_length_iff_exists.2 ⟨a, by simp [unseen, ha, hs], by simp⟩

/-- The events of working off a list of tasks, after some vertices have been entered. What is not
among the vertices is not visited. -/
def run (next : α → List α) (vertices : List α) : List (Task α) → List α → List (Event α)
  | [], _ => []
  | .leave a :: rest, seen => .leave a :: run next vertices rest seen
  | .edge a b :: rest, seen => .edge a b :: run next vertices rest seen
  | .visit a :: rest, seen =>
    if a ∈ vertices ∧ a ∉ seen then
      .enter a :: run next vertices (tasksOf next a ++ rest) (a :: seen)
    else run next vertices rest seen
termination_by tasks seen => ((unseen vertices seen).length, tasks.length)
decreasing_by
  all_goals simp_wf
  · exact Prod.Lex.right _ (Nat.lt_succ_self _)
  · exact Prod.Lex.right _ (Nat.lt_succ_self _)
  · rename_i h
    exact Prod.Lex.left _ _ (length_unseen_cons_lt h.1 h.2)
  · exact Prod.Lex.right _ (Nat.lt_succ_self _)

/-- The vertices that are entered, in order. -/
def entered (events : List (Event α)) : List α :=
  events.filterMap fun
    | .enter a => some a
    | _ => none

/-- The vertices that are left, in order. -/
def left (events : List (Event α)) : List α :=
  events.filterMap fun
    | .leave a => some a
    | _ => none

@[simp] theorem run_nil (next : α → List α) (vertices seen : List α) :
    run next vertices [] seen = [] := by rw [run]

end

end BitcodeReplay.Traversal
