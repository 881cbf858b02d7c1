import BitcodeReplay.FileTree.Edit
import BitcodeReplay.Json.Record

/-!
Output file maps, in which a Swift compiler lists the files it writes for each source.
-/

namespace BitcodeReplay.OutputFileMap

abbrev DecodeError := Json.DecodeError Empty

/-- What is written for one source. -/
structure Outputs where
  bitcode : Option String
  object : Option String
  deriving DecidableEq, Repr

namespace Outputs

def fields : List Json.Field := [⟨"llvm-bc", false⟩, ⟨"object", false⟩]

def accept (o : Outputs) (field : String) (value : Json.Draft) : Except DecodeError Outputs :=
  match field with
  | "llvm-bc" => do return { o with bitcode := ← Json.nullable Json.text value }
  | "object" => do return { o with object := ← Json.nullable Json.text value }
  | _ => .ok o

def ofDraft (draft : Json.Draft) : Except DecodeError Outputs :=
  Json.record fields accept ⟨none, none⟩ draft

/-- Where the bitcode is written: beside the object, unless a place of its own is given. -/
def bitcodePath? (o : Outputs) : Option String :=
  o.bitcode <|> o.object.map (Path.withExtension · "bc")

end Outputs

/-- Gives a source its outputs, in place or at the end. -/
def putOutputs (source : String) (outputs : Outputs) :
    List (String × Outputs) → List (String × Outputs)
  | [] => [(source, outputs)]
  | (s, o) :: rest =>
    if s = source then (s, outputs) :: rest else (s, o) :: putOutputs source outputs rest

/-- The sources among the members of a map. A repeated source keeps its first place and takes its
last outputs. -/
def gather : List (String × Outputs) → List (String × Json.Draft) →
    Except DecodeError (List (String × Outputs))
  | known, [] => .ok known
  | known, (source, value) :: rest => do
    gather (putOutputs source (← Outputs.ofDraft value) known) rest

def ofDraft (draft : Json.Draft) : Except DecodeError (List (String × Outputs)) :=
  match Json.Node.view draft with
  | .object members closed => do
    let sources ← gather [] members
    if closed then return sources else throw .malformed
  | _ => .error (Json.mismatch draft)

def ofText (text : String) : Except DecodeError (List (String × Outputs)) :=
  Json.decodeText ofDraft text.toList

/-- Why a map cannot be read. -/
inductive Failure where
  | unreadable (path : String) (cause : FileError)
  | undecodable (path : String) (cause : DecodeError)
  deriving DecidableEq

def Failure.message : Failure → String
  | .unreadable path _ => "failed to read output file map " ++ path
  | .undecodable path _ => "failed to decode output file map " ++ path

/-- The bitcode files that the map at a path names, in its order. -/
def bitcodePaths (t : FileTree) (path : String) : Except Failure (List String) :=
  match t.readText path with
  | .error e => .error (.unreadable path e)
  | .ok text =>
    match ofText text with
    | .error e => .error (.undecodable path e)
    | .ok sources => .ok (sources.filterMap (·.2.bitcodePath?))

end BitcodeReplay.OutputFileMap
