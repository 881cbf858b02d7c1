import BitcodeReplay.Json.Record
import BitcodeReplay.Text.Search

/-!
Identifiers of project objects, and what the objects refuse when they are decoded. A dependency on a
Swift package carries a tag in front of the package's name.
-/

namespace BitcodeReplay.Pif

/-- An identifier. It stays the same from one snapshot of a project to the next. -/
abbrev Guid := String

namespace Guid

def productTag : String := "PACKAGE-PRODUCT:"

def targetTag : String := "PACKAGE-TARGET:"

/-- The text after a tag. -/
def untagged? (tag : String) (guid : Guid) : Option String :=
  (Text.dropStart? tag.toList guid.toList).map String.ofList

/-- The name of the package product that the identifier names. -/
def packageProduct? (guid : Guid) : Option String := untagged? productTag guid

/-- The name of the package target that the identifier names. -/
def packageTarget? (guid : Guid) : Option String := untagged? targetTag guid

end Guid

/-- What the project format itself refuses. -/
inductive Refusal where
  | bothReferences (buildFile : Guid)
  | noReference (buildFile : Guid)
  | unknownPhase
  | unknownRoot
  | unknownTarget (target : Guid) (kind : String)
  deriving DecidableEq, Repr

def Refusal.message : Refusal → String
  | .bothReferences guid => "build file " ++ guid ++ " references both a file and a target"
  | .noReference guid => "build file " ++ guid ++ " references neither a file nor a target"
  | .unknownPhase => "unrecognised build phase"
  | .unknownRoot => "unrecognised root reference"
  | .unknownTarget guid kind => "target " ++ guid ++ " has unrecognised type `" ++ kind ++ "`"

abbrev DecodeError := Json.DecodeError Refusal

/-- The kind of a node whose other fields depend on it. -/
def kindOf (value : Json) : Except DecodeError String := do
  let kind ← Json.record [⟨"type", false⟩] (fun _ _ node => (Json.text node).map some) none value
  Json.require "type" kind

end BitcodeReplay.Pif
