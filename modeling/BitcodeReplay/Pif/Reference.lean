import BitcodeReplay.Pif.Guid

/-!
The group tree of a project: groups of references, and files at the leaves.
-/

namespace BitcodeReplay.Pif

inductive GroupKind where
  | plain
  | variant
  | version
  deriving DecidableEq, Repr

/-- What all nodes of the tree have. -/
structure Node where
  guid : Guid
  path : String
  name : Option String
  sourceTree : String
  deriving DecidableEq, Repr

namespace Node

/-- The name, or the path of a node without one. -/
def displayName (n : Node) : String := n.name.getD n.path

/-- The fields found so far. -/
structure Fields where
  guid : Option Guid := none
  path : String := ""
  name : Option String := none
  sourceTree : String := ""

def fields : List Json.Field :=
  [⟨"guid", false⟩, ⟨"path", true⟩, ⟨"name", true⟩, ⟨"sourceTree", true⟩]

def Fields.accept (f : Fields) (field : String) (value : Json) : Except DecodeError Fields :=
  match field with
  | "guid" => do return { f with guid := some (← Json.text value) }
  | "path" => do return { f with path := ← Json.text value }
  | "name" => do return { f with name := ← Json.nullable Json.text value }
  | "sourceTree" => do return { f with sourceTree := ← Json.text value }
  | _ => .ok f

/-- The shared fields among the members of a node. -/
def ofMembers (members : List (String × Json)) : Except DecodeError Node := do
  let f ← Json.record fields Fields.accept {} (Json.object members)
  return ⟨← Json.require "guid" f.guid, f.path, f.name, f.sourceTree⟩

end Node

/-- A file of a project. -/
structure FileReference where
  node : Node
  fileType : String
  deriving DecidableEq, Repr

/-- A node of the group tree. -/
inductive Reference where
  | group (kind : GroupKind) (node : Node) (children : List Reference)
  | file (file : FileReference)
  deriving Repr

namespace Reference

def node : Reference → Node
  | .group _ n _ => n
  | .file f => f.node

def kindName : Reference → String
  | .group .plain _ _ => "group"
  | .group .variant _ _ => "variantGroup"
  | .group .version _ _ => "versionGroup"
  | .file _ => "file"

mutual

/-- The files below a node, in the order of the text. -/
def files : Reference → List FileReference
  | .file f => [f]
  | .group _ _ children => filesOf children

def filesOf : List Reference → List FileReference
  | [] => []
  | child :: rest => files child ++ filesOf rest

end

def groupKind? (kind : String) : Option GroupKind :=
  match kind with
  | "group" => some .plain
  | "variantGroup" => some .variant
  | "versionGroup" => some .version
  | _ => none

/-- The type of a file, none unless one is given. -/
def fileTypeOf (members : List (String × Json)) : Except DecodeError String :=
  match members.lookup "fileType" with
  | some value => Json.text value
  | none => .ok ""

mutual

/-- A node; nothing for a kind of node that has no meaning here. -/
def ofJson? (value : Json) : Except DecodeError (Option Reference) :=
  match value with
  | .object members => do
    let kind ← kindOf (.object members)
    match groupKind? kind with
    | some k =>
      let children ← childrenOf members
      return some (.group k (← Node.ofMembers members) children)
    | none =>
      if kind = "file" then
        let fileType ← fileTypeOf members
        return some (.file ⟨← Node.ofMembers members, fileType⟩)
      else return none
  | value => do
    let kind ← kindOf value
    if (groupKind? kind).isSome ∨ kind = "file" then throw .invalidType else return none

/-- The children among the members of a group. -/
def childrenOf (members : List (String × Json)) : Except DecodeError (List Reference) :=
  match members with
  | [] => .ok []
  | (name, value) :: rest =>
    if name = "children" then
      match value with
      | .array items => ofItems items
      | _ => .error .invalidType
    else childrenOf rest

/-- The nodes of a list, without those of a kind that has no meaning here. -/
def ofItems (items : List Json) : Except DecodeError (List Reference) :=
  match items with
  | [] => .ok []
  | item :: rest => do
    let child ← ofJson? item
    let children ← ofItems rest
    return child.toList ++ children

end

/-- A node that has to have a meaning. -/
def ofJson (value : Json) : Except DecodeError Reference := do
  match ← ofJson? value with
  | some known => return known
  | none => throw (.refused .unknownRoot)

def ofText (text : List Char) : Except DecodeError Reference :=
  Json.decodeText (Json.settled 0 ofJson) text

end Reference

end BitcodeReplay.Pif
