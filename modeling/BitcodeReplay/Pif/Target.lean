import BitcodeReplay.Pif.BuildPhase

/-!
Targets: what they depend on, how they are built and what they produce.
-/

namespace BitcodeReplay.Pif

/-- What a target builds. -/
inductive ProductType where
  | application
  | appExtension
  | framework
  | staticFramework
  | bundle
  | unitTestBundle
  | uiTestBundle
  | tool
  | staticLibrary
  | dynamicLibrary
  | packageProduct
  | xpcService
  | watch
  | none
  | other (identifier : String)
  deriving DecidableEq, Repr

namespace ProductType

/-- A framework, linked dynamically or statically. -/
def isFramework : ProductType → Bool
  | .framework | .staticFramework => true
  | _ => false

def ofIdentifier (identifier : String) : ProductType :=
  match identifier with
  | "com.apple.product-type.application" => .application
  | "com.apple.product-type.application.on-demand-install-capable" => .application
  | "com.apple.product-type.application.messages" => .application
  | "com.apple.product-type.app-extension" => .appExtension
  | "com.apple.product-type.extensionkit-extension" => .appExtension
  | "com.apple.product-type.app-extension.messages" => .appExtension
  | "com.apple.product-type.framework" => .framework
  | "com.apple.product-type.framework.static" => .staticFramework
  | "com.apple.product-type.bundle" => .bundle
  | "com.apple.product-type.bundle.unit-test" => .unitTestBundle
  | "com.apple.product-type.bundle.ui-testing" => .uiTestBundle
  | "com.apple.product-type.tool" => .tool
  | "com.apple.product-type.library.static" => .staticLibrary
  | "com.apple.product-type.library.dynamic" => .dynamicLibrary
  | "packageProduct" => .packageProduct
  | "com.apple.product-type.xpc-service" => .xpcService
  | "com.apple.product-type.application.watchapp2" => .watch
  | "com.apple.product-type.application.watchapp2-container" => .watch
  | "com.apple.product-type.watchkit2-extension" => .watch
  | "" => .none
  | identifier => .other identifier

end ProductType

/-- A dependency that a target declares. No filter means all platforms. -/
structure TargetDependency where
  guid : Guid
  platformFilters : List PlatformFilter
  deriving DecidableEq, Repr

namespace TargetDependency

def fields : List Json.Field := [⟨"guid", false⟩, ⟨"platformFilters", true⟩]

def accept (f : Option Guid × List PlatformFilter) (field : String) (value : Json) :
    Except DecodeError (Option Guid × List PlatformFilter) :=
  match field with
  | "guid" => do return (some (← Json.text value), f.2)
  | "platformFilters" => do return (f.1, ← Json.listOf PlatformFilter.decode value)
  | _ => .ok f

def ofJson (value : Json) : Except DecodeError TargetDependency := do
  let (guid, filters) ← Json.record fields accept (none, []) value
  return ⟨← Json.require "guid" guid, filters⟩

end TargetDependency

/-- A named set of build settings, whose values are kept as they are. -/
structure BuildConfiguration where
  guid : Option Guid
  name : String
  buildSettings : List (String × Json)
  deriving Repr

namespace BuildConfiguration

/-- The fields found so far. -/
structure Fields where
  guid : Option Guid := none
  name : Option String := none
  buildSettings : List (String × Json) := []

def fields : List Json.Field := [⟨"guid", true⟩, ⟨"name", false⟩, ⟨"buildSettings", true⟩]

def Fields.accept (f : Fields) (field : String) (value : Json) : Except DecodeError Fields :=
  match field, value with
  | "guid", value => do return { f with guid := ← Json.nullable Json.text value }
  | "name", value => do return { f with name := some (← Json.text value) }
  | "buildSettings", .object members => .ok { f with buildSettings := members }
  | "buildSettings", _ => .error .invalidType
  | _, _ => .ok f

def ofJson (value : Json) : Except DecodeError BuildConfiguration := do
  let f ← Json.record fields Fields.accept {} value
  return ⟨f.guid, ← Json.require "name" f.name, f.buildSettings⟩

end BuildConfiguration

/-- The file a target produces. -/
structure ProductReference where
  guid : Guid
  name : String
  deriving DecidableEq, Repr

namespace ProductReference

def fields : List Json.Field := [⟨"guid", false⟩, ⟨"name", true⟩]

def accept (f : Option Guid × String) (field : String) (value : Json) :
    Except DecodeError (Option Guid × String) :=
  match field with
  | "guid" => do return (some (← Json.text value), f.2)
  | "name" => do return (f.1, ← Json.text value)
  | _ => .ok f

def ofJson (value : Json) : Except DecodeError ProductReference := do
  let (guid, name) ← Json.record fields accept (none, "") value
  return ⟨← Json.require "guid" guid, name⟩

end ProductReference

inductive TargetKind where
  | standard
  | aggregate
  | packageProduct
  deriving DecidableEq, Repr

namespace TargetKind

def name : TargetKind → String
  | .standard => "standard"
  | .aggregate => "aggregate"
  | .packageProduct => "packageProduct"

def ofName? (name : String) : Option TargetKind :=
  match name with
  | "standard" => some .standard
  | "aggregate" => some .aggregate
  | "packageProduct" => some .packageProduct
  | _ => none

end TargetKind

/-- A target. The product name is empty where the target has no product. -/
structure Target where
  kind : TargetKind
  guid : Guid
  name : String
  dependencies : List TargetDependency
  buildPhases : List BuildPhase
  buildConfigurations : List BuildConfiguration
  productType : ProductType
  productName : String
  deriving Repr

namespace Target

/-- The entries of all phases in order. -/
def buildFiles (t : Target) : List BuildFile := t.buildPhases.flatMap (·.buildFiles)

/-- The product name up to its last dot, if it has one. -/
def productStem? (t : Target) : Option String :=
  (Text.cutLast? '.' t.productName.toList).map fun parts => String.ofList parts.1

/-- Whether a name is that of the target, or of its product with or without the extension. -/
def answersTo (t : Target) (name : String) : Bool :=
  t.name == name ||
    (t.productName != "" && (t.productName == name || t.productStem? == some name))

/-- The fields found so far. -/
structure Fields where
  guid : Option Guid := none
  name : Option String := none
  dependencies : List TargetDependency := []
  buildPhases : List BuildPhase := []
  frameworksPhase : Option Json := none
  buildConfigurations : List BuildConfiguration := []
  productType : Option String := none
  product : Option ProductReference := none

def fields : List Json.Field :=
  [⟨"guid", false⟩, ⟨"name", false⟩, ⟨"dependencies", true⟩, ⟨"buildPhases", true⟩,
    ⟨"frameworksBuildPhase", true⟩, ⟨"buildConfigurations", true⟩,
    ⟨"productTypeIdentifier", true⟩, ⟨"productReference", true⟩]

def Fields.accept (f : Fields) (field : String) (value : Json) : Except DecodeError Fields :=
  match field with
  | "guid" => do return { f with guid := some (← Json.text value) }
  | "name" => do return { f with name := some (← Json.text value) }
  | "dependencies" => do
    return { f with dependencies := ← Json.listOf TargetDependency.ofJson value }
  | "buildPhases" => do return { f with buildPhases := ← BuildPhase.listOfJson value }
  | "frameworksBuildPhase" => do
    return { f with frameworksPhase := ← Json.nullable Except.ok value }
  | "buildConfigurations" => do
    return { f with buildConfigurations := ← Json.listOf BuildConfiguration.ofJson value }
  | "productTypeIdentifier" => do
    return { f with productType := ← Json.nullable Json.text value }
  | "productReference" => do
    return { f with product := ← Json.nullable ProductReference.ofJson value }
  | _ => .ok f

/-- The phase that a package product has beside the others. -/
def Fields.extraPhase (f : Fields) : Except DecodeError (List BuildPhase) :=
  match f.frameworksPhase with
  | some value => (BuildPhase.ofJson? value).map Option.toList
  | none => .ok []

/-- The product type that the kind and the identifier stand for. -/
def Fields.type (f : Fields) (kind : String) : ProductType :=
  if kind = "packageProduct" then .packageProduct
  else
    match f.productType with
    | some identifier => .ofIdentifier identifier
    | none => .none

def ofJson (value : Json) : Except DecodeError Target := do
  let kind ← kindOf value
  let f ← Json.record fields Fields.accept {} value
  let guid ← Json.require "guid" f.guid
  let name ← Json.require "name" f.name
  let extra ← f.extraPhase
  match TargetKind.ofName? kind with
  | some known =>
    return {
      kind := known
      guid := guid
      name := name
      dependencies := f.dependencies
      buildPhases := f.buildPhases ++ extra
      buildConfigurations := f.buildConfigurations
      productType := f.type kind
      productName := (f.product.map (·.name)).getD "" }
  | none => throw (.refused (.unknownTarget guid kind))

def ofText (text : List Char) : Except DecodeError Target :=
  Json.decodeText (Json.settled 0 ofJson) text

end Target

end BitcodeReplay.Pif
