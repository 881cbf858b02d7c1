import BitcodeReplay.Pif.Guid

/-!
Build phases and their entries.
-/

namespace BitcodeReplay.Pif

/-- A platform that an entry or a dependency is restricted to. -/
structure PlatformFilter where
  platform : String
  environment : Option String
  deriving DecidableEq, Repr

namespace PlatformFilter

def fields : List Json.Field := [⟨"platform", true⟩, ⟨"environment", true⟩]

def accept {α : Type} [Json.Node α] (f : PlatformFilter) (field : String) (value : α) :
    Except DecodeError PlatformFilter :=
  match field with
  | "platform" => do return { f with platform := ← Json.text value }
  | "environment" => do return { f with environment := ← Json.nullable Json.text value }
  | _ => .ok f

def decode {α : Type} [Json.Node α] (value : α) : Except DecodeError PlatformFilter :=
  Json.record fields accept ⟨"", none⟩ value

end PlatformFilter

/-- What an entry of a phase points at. -/
inductive BuildFile.Subject where
  | file (guid : Guid)
  | target (guid : Guid)
  deriving DecidableEq, Repr

/-- An entry of a phase. No filter means all platforms. -/
structure BuildFile where
  guid : Guid
  subject : BuildFile.Subject
  platformFilters : List PlatformFilter
  deriving DecidableEq, Repr

namespace BuildFile

/-- The fields found so far. -/
structure Fields where
  guid : Option Guid := none
  file : Option Guid := none
  target : Option Guid := none
  platformFilters : List PlatformFilter := []

def fields : List Json.Field :=
  [⟨"guid", false⟩, ⟨"fileReference", false⟩, ⟨"targetReference", false⟩,
    ⟨"platformFilters", true⟩]

def Fields.accept {α : Type} [Json.Node α] (f : Fields) (field : String) (value : α) :
    Except DecodeError Fields :=
  match field with
  | "guid" => do return { f with guid := some (← Json.text value) }
  | "fileReference" => do return { f with file := ← Json.nullable Json.text value }
  | "targetReference" => do return { f with target := ← Json.nullable Json.text value }
  | "platformFilters" => do
    return { f with platformFilters := ← Json.listOf PlatformFilter.decode value }
  | _ => .ok f

/-- An entry points at a file or at a target, not at both. -/
def decode {α : Type} [Json.Node α] (value : α) : Except DecodeError BuildFile := do
  let f ← Json.record fields Fields.accept {} value
  let guid ← Json.require "guid" f.guid
  match f.file, f.target with
  | some file, none => return ⟨guid, .file file, f.platformFilters⟩
  | none, some target => return ⟨guid, .target target, f.platformFilters⟩
  | some _, some _ => throw (.refused (.bothReferences guid))
  | none, none => throw (.refused (.noReference guid))

def ofText (text : List Char) : Except DecodeError BuildFile := Json.decodeText decode text

end BuildFile

inductive PhaseKind where
  | sources
  | frameworks
  | headers
  | resources
  | copyFiles
  | shellScript
  | rez
  | appleScript
  deriving DecidableEq, Repr

namespace PhaseKind

def all : List PhaseKind :=
  [.sources, .frameworks, .headers, .resources, .copyFiles, .shellScript, .rez, .appleScript]

/-- The last part of the kind's identifier. -/
def name : PhaseKind → String
  | .sources => "sources"
  | .frameworks => "frameworks"
  | .headers => "headers"
  | .resources => "resources"
  | .copyFiles => "copy-files"
  | .shellScript => "shell-script"
  | .rez => "rez"
  | .appleScript => "apple-script"

def identifier (k : PhaseKind) : String := "com.apple.buildphase." ++ k.name

def ofIdentifier? (identifier : String) : Option PhaseKind :=
  all.find? fun k => k.identifier == identifier

end PhaseKind

/-- A phase with its entries in order. -/
structure BuildPhase where
  kind : PhaseKind
  guid : Guid
  buildFiles : List BuildFile
  deriving DecidableEq, Repr

namespace BuildPhase

def fields : List Json.Field := [⟨"guid", false⟩, ⟨"buildFiles", true⟩]

def accept (f : Option Guid × List BuildFile) (field : String) (value : Json) :
    Except DecodeError (Option Guid × List BuildFile) :=
  match field with
  | "guid" => do return (some (← Json.text value), f.2)
  | "buildFiles" => do return (f.1, ← Json.listOf BuildFile.decode value)
  | _ => .ok f

/-- A phase; nothing for a kind of phase that has no meaning here. -/
def ofJson? (value : Json) : Except DecodeError (Option BuildPhase) := do
  match PhaseKind.ofIdentifier? (← kindOf value) with
  | none => return none
  | some kind =>
    let (guid, buildFiles) ← Json.record fields accept (none, []) value
    return some ⟨kind, ← Json.require "guid" guid, buildFiles⟩

/-- A phase that has to have a meaning. -/
def ofJson (value : Json) : Except DecodeError BuildPhase := do
  match ← ofJson? value with
  | some phase => return phase
  | none => throw (.refused .unknownPhase)

/-- The phases of a list, without those of a kind that has no meaning here. -/
def listOfJson (value : Json) : Except DecodeError (List BuildPhase) := do
  return (← Json.listOf ofJson? value).reduceOption

def ofText (text : List Char) : Except DecodeError BuildPhase :=
  Json.decodeText (Json.settled 0 ofJson) text

end BuildPhase

end BitcodeReplay.Pif
