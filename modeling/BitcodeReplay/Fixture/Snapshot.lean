import BitcodeReplay.Json.Printer
import BitcodeReplay.ProductTree.Basic

/-!
Small project snapshots for trying things out: one workspace with one project, the targets one adds,
and framework files in the group tree of the project.
-/

namespace BitcodeReplay.Fixture

/-- A snapshot in the making: the objects of its targets, and its framework files. -/
structure Snapshot where
  targets : List Json
  files : List Json

namespace Snapshot

def empty : Snapshot := ⟨[], []⟩

/-- An object that holds an identifier alone. -/
def guidObject (guid : String) : Json := .object [("guid", .string guid)]

def guidObjects (guids : List String) : Json := .array (guids.map guidObject)

/-- A target that builds a product, with one build configuration. -/
def standardTarget (guid name productType productName : String) (dependencies : List String) :
    Json :=
  .object
    [("guid", .string guid),
      ("type", .string "standard"),
      ("name", .string name),
      ("productTypeIdentifier", .string productType),
      ("productReference", .object
        [("guid", .string (guid ++ "-product")), ("name", .string productName),
          ("type", .string "file")]),
      ("buildPhases", .array []),
      ("dependencies", guidObjects dependencies),
      ("buildConfigurations", .array
        [.object
          [("guid", .string (guid ++ "-release")), ("name", .string "Release"),
            ("buildSettings", .object [("SKIP_INSTALL", .string "NO")])]])]

/-- A package product that depends on the package targets of some names. -/
def packageProduct (name : String) (packageTargets : List String) : Json :=
  .object
    [("guid", .string ("PACKAGE-PRODUCT:" ++ name)),
      ("type", .string "packageProduct"),
      ("name", .string name),
      ("dependencies", guidObjects (packageTargets.map ("PACKAGE-TARGET:" ++ ·)))]

/-- The target behind a package product. -/
def packageTarget (name : String) : Json :=
  standardTarget ("PACKAGE-TARGET:" ++ name) name "com.apple.product-type.objfile" (name ++ ".o") []

/-- The build files of a target for some file references, numbered from a number on. -/
def buildFiles (guid : String) : Nat → List String → List Json
  | _, [] => []
  | n, file :: rest =>
    .object [("guid", .string (guid ++ "-bf" ++ toString n)), ("fileReference", .string file)] ::
      buildFiles guid (n + 1) rest

/-- The phase of a target that links some files. -/
def linkPhase (guid : String) (files : List String) : Json :=
  .object
    [("guid", .string (guid ++ "-frameworks")),
      ("type", .string "com.apple.buildphase.frameworks"),
      ("buildFiles", .array (buildFiles guid 0 files))]

/-- The identifier of a target object. -/
def guidOf (target : Json) : String :=
  match target.get? "guid" with
  | some (.string guid) => guid
  | _ => "target"

/-- Links a target with some files. A target without build phases gets none, but a null in their
place. -/
def withLinkedFiles (target : Json) (files : List String) : Json :=
  match target with
  | .object members =>
    let phases :=
      match members.lookup "buildPhases" with
      | some (.array phases) => .array (phases ++ [linkPhase (guidOf target) files])
      | some other => other
      | none => .null
    .object (Json.setMember "buildPhases" phases members)
  | other => other

def addTarget (s : Snapshot) (target : Json) : Snapshot :=
  { s with targets := s.targets ++ [target] }

/-- Adds a framework to the group tree of the project. -/
def addFrameworkFile (s : Snapshot) (guid path : String) : Snapshot :=
  { s with
    files := s.files ++
      [.object
        [("guid", .string guid),
          ("type", .string "file"),
          ("path", .string path),
          ("fileType", .string "wrapper.framework"),
          ("sourceTree", .string "BUILT_PRODUCTS_DIR")]] }

/-- A number in hexadecimal digits, with zeros before them where there are fewer than a width. -/
def hexadecimal (width n : Nat) : List Char :=
  let digits := Nat.toDigits 16 n
  List.replicate (width - digits.length) '0' ++ digits

/-- The signature of the target at a place in the list. -/
def targetSignature (n : Nat) : String := "TARGET@v11_hash=" ++ String.ofList (hexadecimal 32 n)

def projectSignature : String := "PROJECT@v11_hash=0000"

def signatures (s : Snapshot) : List String := (List.range s.targets.length).map targetSignature

def workspace : Json :=
  .object
    [("guid", .string "WORKSPACE"),
      ("name", .string "Fixture"),
      ("path", .string "/src/Fixture.xcworkspace"),
      ("projects", .strings [projectSignature])]

def project (s : Snapshot) : Json :=
  .object
    [("guid", .string "PROJECT"),
      ("path", .string "/src/Fixture.xcodeproj"),
      ("projectName", .string "Fixture"),
      ("groupTree", .object
        [("guid", .string "ROOT-GROUP"),
          ("type", .string "group"),
          ("path", .string ""),
          ("children", .array s.files)]),
      ("targets", .strings s.signatures)]

/-- The objects of a snapshot, each with its kind and its signature. -/
def objects (s : Snapshot) : List (String × String × Json) :=
  ("workspace", "WORKSPACE@v11_hash=0000", workspace) ::
    ("project", projectSignature, s.project) ::
    (s.signatures.zip s.targets).map fun (signature, target) => ("target", signature, target)

/-- Writes an object below a directory. -/
def writeObject (t : FileTree) (root kind signature : String) (object : Json) :
    Except WriteFailure FileTree :=
  let directory := Path.join root kind
  match t.createDirAll directory with
  | (_, .error e) => .error ⟨directory, e⟩
  | (made, .ok ()) =>
    let path := Path.join directory (signature ++ "-json")
    (made.writeFile path object.pretty.toUTF8).mapError (⟨path, ·⟩)

def writeObjects (root : String) : FileTree → List (String × String × Json) →
    Except WriteFailure FileTree
  | t, [] => .ok t
  | t, (kind, signature, object) :: rest =>
    match writeObject t root kind signature object with
    | .error e => .error e
    | .ok written => writeObjects root written rest

/-- Writes a snapshot below a directory. -/
def writeTo (s : Snapshot) (t : FileTree) (root : String) : Except WriteFailure FileTree :=
  writeObjects root t s.objects

end Snapshot

end BitcodeReplay.Fixture
