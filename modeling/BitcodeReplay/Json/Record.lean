import BitcodeReplay.Json.Draft

/-!
Decoding records. A record is written as an object, whose members are visited in the order of the
text, or as an array of its fields in the order of their declaration. The same decoder serves values
and drafts: both are nodes, of which the decoder sees one level at a time.
-/

namespace BitcodeReplay.Json

/-- Why a text or a value does not decode. The last cause holds what the format of the record itself
refuses. -/
inductive DecodeError (ρ : Type) where
  | malformed
  | invalidType
  | invalidLength
  | missingField (name : String)
  | duplicateField (name : String)
  | refused (reason : ρ)
  deriving DecidableEq, Repr

/-- The outermost level of a node. A container says what is wrong after its last part, if anything
is. -/
inductive View (α : Type) where
  | broken
  | null
  | bool (b : Bool)
  | number
  | string (text : String)
  | array (items : List α) (closed : Bool)
  | object (members : List (String × α)) (closed : Bool)

/-- A tree that is looked at level by level. -/
class Node (α : Type) where
  /-- The outermost level. -/
  view : α → View α
  /-- A node that nothing is made of still has to make sense. -/
  skippable : α → Bool
  /-- Items behind the last field of a record break the text, where there is one. -/
  surplusBreaks : Bool

instance : Node Json where
  view
    | .null => .null
    | .bool b => .bool b
    | .number _ => .number
    | .string text => .string text
    | .array items => .array items true
    | .object members => .object members true
  skippable _ := true
  surplusBreaks := false

/-- The members up to the first whose name stands for no text. -/
def namedMembers : List (Option String × Draft) → List (String × Draft) × Bool
  | [] => ([], true)
  | (none, _) :: _ => ([], false)
  | (some name, value) :: rest => ((name, value) :: (namedMembers rest).1, (namedMembers rest).2)

instance : Node Draft where
  view
    | .broken => .broken
    | .null => .null
    | .bool b => .bool b
    | .number literal => if isFinite literal then .number else .broken
    | .string (some text) => .string text
    | .string none => .broken
    | .array items closed => .array items closed
    | .object members closed =>
      .object (namedMembers members).1 ((namedMembers members).2 && closed)
  skippable := Draft.isWhole
  surplusBreaks := true

section Decoders

variable {ρ σ τ α : Type} [Node α]

/-- A node of a wrong type. -/
def mismatch (node : α) : DecodeError ρ :=
  match Node.view node with
  | .broken => .malformed
  | _ => .invalidType

/-- A text. -/
def text (node : α) : Except (DecodeError ρ) String :=
  match Node.view node with
  | .string text => .ok text
  | _ => .error (mismatch node)

/-- Nothing for `null`, else what the decoder makes of the node. -/
def nullable (decode : α → Except (DecodeError ρ) τ) (node : α) :
    Except (DecodeError ρ) (Option τ) :=
  match Node.view node with
  | .null => .ok none
  | _ => (decode node).map some

/-- The items of an array, each decoded. -/
def listOf (decode : α → Except (DecodeError ρ) τ) (node : α) : Except (DecodeError ρ) (List τ) :=
  match Node.view node with
  | .array items closed => do
    let values ← items.mapM decode
    if closed then return values else throw .malformed
  | _ => .error (mismatch node)

/-- A field of a record, and whether an array of the fields may leave it off its end. -/
structure Field where
  name : String
  optional : Bool

/-- Visits the members of an object: those of known names once, the others only for their sense. -/
def visitMembers (fields : List Field) (accept : σ → String → α → Except (DecodeError ρ) σ) :
    List String → σ → List (String × α) → Except (DecodeError ρ) σ
  | _, state, [] => .ok state
  | seen, state, (name, value) :: rest =>
    if fields.any (·.name == name) then
      if seen.contains name then .error (.duplicateField name)
      else do
        let state ← accept state name value
        visitMembers fields accept (name :: seen) state rest
    else if Node.skippable value then visitMembers fields accept seen state rest
    else .error .malformed

/-- Visits the items of an array as the fields in their order. -/
def visitItems (accept : σ → String → α → Except (DecodeError ρ) σ) (closed : Bool) :
    List Field → σ → List α → Except (DecodeError ρ) σ
  | field :: fields, state, item :: items => do
    let state ← accept state field.name item
    visitItems accept closed fields state items
  | fields, state, [] =>
    if !closed then .error .malformed
    else if fields.all (·.optional) then .ok state
    else .error .invalidLength
  | [], _, _ :: _ =>
    if Node.surplusBreaks α then .error .malformed else .error .invalidLength

/-- What `accept` gathers from a record, from the start `init`. -/
def record (fields : List Field) (accept : σ → String → α → Except (DecodeError ρ) σ) (init : σ)
    (node : α) : Except (DecodeError ρ) σ :=
  match Node.view node with
  | .object members closed => do
    let state ← visitMembers fields accept [] init members
    if closed then return state else throw .malformed
  | .array items closed => visitItems accept closed fields init items
  | _ => .error (mismatch node)

/-- The value of a field that has to be there. -/
def require (name : String) : Option τ → Except (DecodeError ρ) τ
  | some value => .ok value
  | none => .error (.missingField name)

end Decoders

/-- Decodes a text from its draft, which nothing may follow. -/
def decodeText {ρ τ : Type} (decode : Draft → Except (DecodeError ρ) τ) (text : List Char) :
    Except (DecodeError ρ) τ := do
  let value ← decode (Draft.read text).1
  if (Draft.read text).2 then return value else throw .malformed

/-- Decodes the value of a draft inside `depth` containers. -/
def settled {ρ τ : Type} (depth : Nat) (decode : Json → Except (DecodeError ρ) τ) (draft : Draft) :
    Except (DecodeError ρ) τ :=
  match draft.settle (maxDepth - depth) with
  | some value => decode value
  | none => .error .malformed

end BitcodeReplay.Json
