import BitcodeReplay.Pif.Reference
import BitcodeReplay.Pif.Target

/-!
Workspaces and projects, and the decoding of each kind of object from its text.
-/

namespace BitcodeReplay.Pif

/-- The root object. It lists its projects by the signatures that name their files. -/
structure Workspace where
  guid : Guid
  name : String
  path : String
  projects : List String
  deriving DecidableEq, Repr

namespace Workspace

/-- The fields found so far. -/
structure Fields where
  guid : Option Guid := none
  name : Option String := none
  path : Option String := none
  projects : Option (List String) := none

def fields : List Json.Field :=
  [⟨"guid", false⟩, ⟨"name", false⟩, ⟨"path", false⟩, ⟨"projects", false⟩]

def Fields.accept (f : Fields) (field : String) (value : Json.Draft) : Except DecodeError Fields :=
  match field with
  | "guid" => do return { f with guid := some (← Json.text value) }
  | "name" => do return { f with name := some (← Json.text value) }
  | "path" => do return { f with path := some (← Json.text value) }
  | "projects" => do return { f with projects := some (← Json.listOf Json.text value) }
  | _ => .ok f

def ofDraft (draft : Json.Draft) : Except DecodeError Workspace := do
  let f ← Json.record fields Fields.accept {} draft
  return ⟨← Json.require "guid" f.guid, ← Json.require "name" f.name, ← Json.require "path" f.path,
    ← Json.require "projects" f.projects⟩

def ofText (text : List Char) : Except DecodeError Workspace := Json.decodeText ofDraft text

end Workspace

/-- A project with its group tree. It lists its targets by the signatures that name their files. -/
structure Project where
  guid : Guid
  path : String
  projectName : Option String
  groupTree : Reference
  targets : List String
  deriving Repr

namespace Project

/-- The fields found so far. -/
structure Fields where
  guid : Option Guid := none
  path : Option String := none
  projectName : Option String := none
  groupTree : Option Reference := none
  targets : List String := []

def fields : List Json.Field :=
  [⟨"guid", false⟩, ⟨"path", false⟩, ⟨"projectName", true⟩, ⟨"groupTree", false⟩,
    ⟨"targets", true⟩]

def Fields.accept (f : Fields) (field : String) (value : Json.Draft) : Except DecodeError Fields :=
  match field with
  | "guid" => do return { f with guid := some (← Json.text value) }
  | "path" => do return { f with path := some (← Json.text value) }
  | "projectName" => do return { f with projectName := ← Json.nullable Json.text value }
  | "groupTree" => do return { f with groupTree := some (← Json.settled 1 Reference.ofJson value) }
  | "targets" => do return { f with targets := ← Json.listOf Json.text value }
  | _ => .ok f

def ofDraft (draft : Json.Draft) : Except DecodeError Project := do
  let f ← Json.record fields Fields.accept {} draft
  return ⟨← Json.require "guid" f.guid, ← Json.require "path" f.path, f.projectName,
    ← Json.require "groupTree" f.groupTree, f.targets⟩

def ofText (text : List Char) : Except DecodeError Project := Json.decodeText ofDraft text

/-- The files of the group tree, in the order of the text. -/
def files (p : Project) : List FileReference := p.groupTree.files

end Project

end BitcodeReplay.Pif
