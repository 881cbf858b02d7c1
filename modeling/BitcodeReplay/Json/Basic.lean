/-!
JSON values. The members of an object keep the order in which they were written, and a number keeps
its spelling.
-/

namespace BitcodeReplay

inductive Json where
  | null
  | bool (b : Bool)
  | number (literal : String)
  | string (text : String)
  | array (items : List Json)
  | object (members : List (String × Json))
  deriving Repr, Inhabited

namespace Json

/-- The value of a member of an object. -/
def get? (name : String) : Json → Option Json
  | .object members => members.lookup name
  | _ => none

/-- Gives a member a value: in place if the name is there, else at the end. -/
def setMember (name : String) (value : Json) : List (String × Json) → List (String × Json)
  | [] => [(name, value)]
  | (n, v) :: rest => if n = name then (n, value) :: rest else (n, v) :: setMember name value rest

/-- A natural number. -/
def ofNat (n : Nat) : Json := .number (toString n)

/-- A list of texts. -/
def strings (texts : List String) : Json := .array (texts.map .string)

theorem lookup_setMember (name other : String) (value : Json) (members : List (String × Json)) :
    (setMember name value members).lookup other =
      if other = name then some value else members.lookup other := by
  induction members with
  | nil =>
    by_cases h : other = name
    · simp [setMember, h]
    · simp [setMember, List.lookup_cons, beq_false_of_ne h, h]
  | cons member rest ih =>
    obtain ⟨n, v⟩ := member
    by_cases ho : other = n
    · subst ho
      by_cases hn : other = name <;> simp [setMember, hn]
    · by_cases hn : n = name
      · subst hn
        simp [setMember, List.lookup_cons, beq_false_of_ne ho, ho]
      · simpa [setMember, hn, List.lookup_cons, beq_false_of_ne ho] using ih

end Json

end BitcodeReplay
