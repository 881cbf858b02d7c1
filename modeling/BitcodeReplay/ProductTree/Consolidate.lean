import BitcodeReplay.Graph.Basic
import BitcodeReplay.ProductTree.Basic

/-!
Consolidating the product directories after all compilers have run: static dependencies are merged,
then every directory loses the extension of its name where the shorter name is free.

A dependency that is linked statically ships inside whatever links it, so its bitcode is copied into
the directory of each product that depends on it directly. Products come after their dependencies,
so that a directory is copied when it holds all that was copied into it. A framework that is
embedded ships on its own and is not copied.
-/

namespace BitcodeReplay.ProductTree

/-- A name without its extension. -/
def stemOf (name : String) : String := (Path.stem? name).getD name

/-- The target recorded for a product. -/
def guid? (p : ProductTree) (product : String) : Option Pif.Guid :=
  (p.products.lookup product).getD none

/-- The node of a product: that of its target, or else the first of its name. -/
def node? (p : ProductTree) (g : Graph) (product : String) : Option Nat :=
  (p.guid? product).bind g.findGuid? <|> g.find? product

/-- The directory of a target: the one recorded for it, or else the first whose name, with or
without its extension, the target answers to. -/
def directory? (p : ProductTree) (t : Pif.Target) : Option String :=
  (p.products.find? (fun entry => entry.2 == some t.guid) <|>
    p.products.find? fun entry => t.answersTo entry.1 || t.answersTo (stemOf entry.1)).map (·.1)

/-- Whether a target is among the frameworks that are embedded. -/
def isEmbedded (embedded : List String) (t : Pif.Target) : Bool :=
  embedded.contains t.name || embedded.contains (stemOf t.productName)

/-- The nodes that a node depends on. -/
def dependencyNodes (g : Graph) (n : Nat) : List Nat :=
  (g.dependencies n).filterMap fun t => g.findGuid? t.guid

/-- Puts a name at the end unless it is there. -/
def addName (order : List String) (name : String) : List String :=
  if name ∈ order then order else order ++ [name]

/-- Adds the directories of the nodes that a traversal leaves. -/
def addDirectories (p : ProductTree) (g : Graph) (order : List String) (nodes : List Nat) :
    List String :=
  (nodes.filterMap fun n => (g.target? n).bind p.directory?).foldl addName order

/-- The order from the products that are left, after some nodes have been entered. -/
def orderFrom (p : ProductTree) (g : Graph) : List String → List Nat → List String → List String
  | [], _, order => order
  | product :: rest, seen, order =>
    match p.node? g product with
    | none => orderFrom p g rest seen (addName order product)
    | some n =>
      let events := Traversal.run (dependencyNodes g) (List.range g.size) [.visit n] seen
      orderFrom p g rest (Traversal.entered events ++ seen)
        (p.addDirectories g order (Traversal.left events))

/-- The directories, each after those of its dependencies. -/
def mergeOrder (p : ProductTree) (g : Graph) : List String := p.orderFrom g p.names [] []

/-- What a dependency of a product asks for. -/
inductive Step where
  | copy (source target : String)
  | missing (product dependency : String)
  deriving DecidableEq, Repr

/-- What one dependency of a product asks for; nothing if it is embedded or lives in the same
directory. -/
def step? (p : ProductTree) (embedded : List String) (product : String) (t : Pif.Target) :
    Option Step :=
  if isEmbedded embedded t then none
  else
    match p.directory? t with
    | none => some (.missing product t.name)
    | some source => if source = product then none else some (.copy source product)

/-- What the direct dependencies of a product ask for. -/
def stepsOf (p : ProductTree) (g : Graph) (embedded : List String) (product : String) :
    List Step :=
  match p.node? g product with
  | none => []
  | some n => (g.dependencies n).filterMap (p.step? embedded product)

/-- What all products ask for, in order. -/
def steps (p : ProductTree) (g : Graph) (embedded : List String) : List Step :=
  (p.mergeOrder g).flatMap (p.stepsOf g embedded)

/-- Copies entries from below one directory to below another. -/
def copyEntries (source target : String) : FileTree → List (Location × Entry) →
    FileTree × Except WriteFailure Unit
  | t, [] => (t, .ok ())
  | t, (names, entry) :: rest =>
    let relative := String.intercalate "/" names
    let destination := Path.join target relative
    match entry with
    | .dir =>
      match t.createDirAll destination with
      | (made, .ok ()) => copyEntries source target made rest
      | (made, .error e) => (made, .error ⟨destination, e⟩)
    | _ =>
      match t.copyFile (Path.join source relative) destination with
      | .ok made => copyEntries source target made rest
      | .error e => (t, .error ⟨destination, e⟩)

/-- Copies what is listed below one directory to below another, in the place of files of the same
name. What a directory holds that cannot be opened is left out. -/
def copyTree (t : FileTree) (source target : String) : FileTree × Except WriteFailure Unit :=
  copyEntries source target t (t.listedBelow source)

/-- Does what the steps ask for. -/
def runSteps (p : ProductTree) : FileTree → List Step → FileTree × Except WriteFailure Unit
  | t, [] => (t, .ok ())
  | t, .missing _ _ :: rest => p.runSteps t rest
  | t, .copy source target :: rest =>
    match copyTree t (p.path source) (p.path target) with
    | (made, .ok ()) => p.runSteps made rest
    | (made, .error e) => (made, .error e)

def isCopy : Step → Bool
  | .copy _ _ => true
  | .missing _ _ => false

/-- The names that can be shortened, with what is left of them. -/
def shortenings (p : ProductTree) : List (String × String) :=
  (p.names.map fun name => (name, stemOf name)).filter fun pair =>
    pair.2 != pair.1 && pair.2 != ""

/-- Shortens names whose short form is free, and counts them. -/
def shorten (count : Nat) : FileTree → ProductTree → List (String × String) →
    (FileTree × ProductTree) × Except WriteFailure Nat
  | t, p, [] => ((t, p), .ok count)
  | t, p, (name, short) :: rest =>
    if t.isPresent (p.path short) || p.names.contains short then shorten count t p rest
    else
      match t.rename (p.path name) (p.path short) with
      | .ok moved => shorten (count + 1) moved (p.renameProduct name short) rest
      | .error e => ((t, p), .error ⟨p.path short, e⟩)

/-- What consolidating has done: directories copied, dependencies without a directory, and names
shortened. -/
structure Consolidation where
  merged : Nat
  missing : Nat
  renamed : Nat
  deriving DecidableEq, Repr

/-- Merges static dependencies and shortens names. -/
def consolidate (t : FileTree) (p : ProductTree) (g : Graph) (embedded : List String) :
    (FileTree × ProductTree) × Except WriteFailure Consolidation :=
  let steps := p.steps g embedded
  match p.runSteps t steps with
  | (merged, .error e) => ((merged, p), .error e)
  | (merged, .ok ()) =>
    match shorten 0 merged p p.shortenings with
    | (after, .error e) => (after, .error e)
    | (after, .ok renamed) =>
      (after, .ok ⟨steps.countP isCopy, steps.countP (!isCopy ·), renamed⟩)

end BitcodeReplay.ProductTree
