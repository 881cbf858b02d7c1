import BitcodeReplay.Pif.Project

/-!
A snapshot of a project: the workspace, its projects and their targets, with the index of the
frameworks that build phases refer to by file; and the direct dependencies of targets, those a
target declares and the frameworks that its build phases link.
-/

namespace BitcodeReplay.Pif

/-- Targets stand in the order of the workspace, each identifier once. -/
structure Cache where
  workspace : Workspace
  projects : List Project
  targets : List Target
  deriving Repr

namespace Cache

/-- Puts a target in the place of the one with its identifier, or at the end. -/
def recordTarget (t : Target) : List Target → List Target
  | [] => [t]
  | u :: rest => if u.guid = t.guid then t :: rest else u :: recordTarget t rest

/-- The snapshot made of decoded objects. A repeated identifier keeps its first place and takes its
last target. -/
def assemble (workspace : Workspace) (projects : List Project) (targets : List Target) : Cache :=
  ⟨workspace, projects, targets.foldl (fun known t => recordTarget t known) []⟩

def guids (c : Cache) : List Guid := c.targets.map (·.guid)

def target? (c : Cache) (guid : Guid) : Option Target := c.targets.find? (·.guid == guid)

/-- The target of a name. Names of targets come before names of products. -/
def targetNamed? (c : Cache) (name : String) : Option Target :=
  c.targets.find? (·.name == name) <|> c.targets.find? (·.answersTo name)

/-- The files that stand for frameworks, in the order of the projects. -/
def frameworkFiles (c : Cache) : List FileReference :=
  c.projects.flatMap fun p => p.files.filter (·.fileType == "wrapper.framework")

/-- What a framework target is found by: its product's name if it has one. -/
def frameworkKey (t : Target) : String := if t.productName = "" then t.guid else t.productName

/-- The last framework target with a key. -/
def frameworkTarget? (c : Cache) (key : String) : Option Target :=
  c.targets.reverse.find? fun t => t.productType.isFramework && frameworkKey t == key

/-- The target that builds the framework of a file. The path counts before the name. -/
def builder? (c : Cache) (file : FileReference) : Option Target :=
  c.frameworkTarget? file.node.path <|> c.frameworkTarget? file.node.displayName

/-- Gives an identifier its value, in place or at the end. -/
def putPair (key value : Guid) : List (Guid × Guid) → List (Guid × Guid)
  | [] => [(key, value)]
  | (k, v) :: rest => if k = key then (k, value) :: rest else (k, v) :: putPair key value rest

/-- The framework files that a target builds, each with the target. The last file of an identifier
counts. -/
def frameworks (c : Cache) : List (Guid × Guid) :=
  c.frameworkFiles.foldl (fun index file =>
    match c.builder? file with
    | some t => putPair file.node.guid t.guid index
    | none => index) []

/-- The target that builds the framework of a file. -/
def frameworkForFile? (c : Cache) (file : Guid) : Option Target :=
  (c.frameworks.lookup file).bind c.target?

end Cache

end BitcodeReplay.Pif

namespace BitcodeReplay.Pif.Cache

/-- The package target behind a package product: the first dependency of the product's own name. A
product without one is built elsewhere. -/
def packageTarget? (c : Cache) (product : Target) : Option Target :=
  let name := (Guid.packageProduct? product.guid).getD product.name
  ((product.dependencies.map (·.guid)).find? fun g => Guid.packageTarget? g == some name).bind
    c.target?

/-- The target compiled for a declared dependency. -/
def declared? (c : Cache) (guid : Guid) : Option Target :=
  (c.target? guid).bind fun t =>
    match t.kind with
    | .packageProduct => c.packageTarget? t
    | .standard | .aggregate => some t

/-- The target whose framework an entry of a build phase links. -/
def linked? (c : Cache) (file : BuildFile) : Option Target :=
  match file.subject with
  | .file guid => c.frameworkForFile? guid
  | .target _ => none

/-- The first target of each identifier that has not been seen. -/
def firstOfEach (seen : List Guid) : List Target → List Target
  | [] => []
  | t :: rest =>
    if t.guid ∈ seen then firstOfEach seen rest else t :: firstOfEach (t.guid :: seen) rest

/-- The direct dependencies of a target, declared ones first, each once and never the target
itself. -/
def dependencies (c : Cache) (t : Target) : List Target :=
  firstOfEach [t.guid]
    (t.dependencies.filterMap (c.declared? ·.guid) ++ t.buildFiles.filterMap c.linked?)

/-- The identifiers of the direct dependencies of a target of the snapshot. -/
def dependencyGuids (c : Cache) (guid : Guid) : List Guid :=
  match c.target? guid with
  | some t => (c.dependencies t).map (·.guid)
  | none => []

end BitcodeReplay.Pif.Cache
