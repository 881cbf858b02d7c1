/-!
Substring search: the text before and after the first occurrence of a pattern.
-/

namespace BitcodeReplay.Text

/-- The rest of a text that starts with `p`. -/
def dropStart? : List Char → List Char → Option (List Char)
  | [], s => some s
  | _ :: _, [] => none
  | a :: p, c :: s => if a = c then dropStart? p s else none

theorem dropStart?_eq_some_iff {p s r : List Char} : dropStart? p s = some r ↔ s = p ++ r := by
  induction p generalizing s with
  | nil => simp [dropStart?]
  | cons a p ih =>
    cases s with
    | nil => simp [dropStart?]
    | cons c s => by_cases h : a = c <;> simp [dropStart?, h, ih, eq_comm]

/-- Cuts a text at the first occurrence of `p`, which belongs to neither part. -/
def cut? (p : List Char) : List Char → Option (List Char × List Char)
  | [] => if p = [] then some ([], []) else none
  | c :: r =>
    match dropStart? p (c :: r) with
    | some rest => some ([], rest)
    | none => (cut? p r).map fun parts => (c :: parts.1, parts.2)

/-- The text before the first occurrence of `p`. -/
def before? (p s : List Char) : Option (List Char) := (cut? p s).map (·.1)

/-- The text after the first occurrence of `p`. -/
def after? (p s : List Char) : Option (List Char) := (cut? p s).map (·.2)

/-- Whether `p` occurs in the text. -/
def holds (p s : List Char) : Bool := (cut? p s).isSome

/-- The text from the first character that satisfies `p`, if there is one. -/
def fromFirst? (p : Char → Bool) (s : List Char) : Option (List Char) :=
  match s.dropWhile fun c => !p c with
  | [] => none
  | c :: r => some (c :: r)

/-- The parts before and after the last `c`, which belongs to neither. -/
def cutLast? (c : Char) : List Char → Option (List Char × List Char)
  | [] => none
  | x :: r =>
    match cutLast? c r with
    | some parts => some (x :: parts.1, parts.2)
    | none => if x = c then some ([], r) else none

theorem cut?_eq_append {p s a b : List Char} (h : cut? p s = some (a, b)) : s = a ++ p ++ b := by
  induction s generalizing a with
  | nil =>
    by_cases hp : p = [] <;> simp [cut?, hp] at h
    simp [h, hp]
  | cons c r ih =>
    rw [cut?] at h
    split at h
    · next rest hrest =>
      obtain ⟨rfl, rfl⟩ : [] = a ∧ rest = b := by simpa using h
      simpa using dropStart?_eq_some_iff.1 hrest
    · obtain ⟨⟨x, y⟩, hxy, hab⟩ := Option.map_eq_some_iff.1 h
      obtain ⟨rfl, rfl⟩ : c :: x = a ∧ y = b := by simpa using hab
      simp [ih hxy]

theorem cutLast?_eq_append {c : Char} {s a b : List Char} (h : cutLast? c s = some (a, b)) :
    s = a ++ c :: b := by
  induction s generalizing a with
  | nil => simp [cutLast?] at h
  | cons x r ih =>
    rw [cutLast?] at h
    split at h
    · next parts hp =>
      obtain ⟨rfl, rfl⟩ : x :: parts.1 = a ∧ parts.2 = b := by simpa using h
      simp [ih hp]
    · by_cases hx : x = c <;> simp [hx] at h
      obtain ⟨rfl, rfl⟩ := h
      simp [hx]

end BitcodeReplay.Text
