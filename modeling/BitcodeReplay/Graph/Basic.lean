import BitcodeReplay.Pif.Target
import BitcodeReplay.Traversal

/-!
Dependency graphs. Every relation between two targets is kept at both of them, and a node has at
most one edge to neighbours of one name.
-/

namespace BitcodeReplay

/-- How a neighbour relates to the node that has the edge. -/
inductive EdgeKind where
  | dependency
  | depender
  deriving DecidableEq, Repr

/-- The kind of the same relation seen from its other end. -/
def EdgeKind.opposite : EdgeKind → EdgeKind
  | .dependency => .depender
  | .depender => .dependency

@[simp] theorem EdgeKind.opposite_opposite (k : EdgeKind) : k.opposite.opposite = k := by
  cases k <;> rfl

/-- An edge to the node of a number. -/
structure Edge where
  neighbour : Nat
  kind : EdgeKind
  deriving DecidableEq, Repr

structure GraphNode where
  target : Pif.Target
  edges : List Edge
  deriving Repr

/-- Nodes are numbered in the order in which they were added. -/
structure Graph where
  nodes : List GraphNode
  deriving Repr

namespace Graph

def empty : Graph := ⟨[]⟩

def size (g : Graph) : Nat := g.nodes.length

def node? (g : Graph) (n : Nat) : Option GraphNode := g.nodes[n]?

def target? (g : Graph) (n : Nat) : Option Pif.Target := (g.node? n).map (·.target)

def name? (g : Graph) (n : Nat) : Option String := (g.target? n).map (·.name)

def edges (g : Graph) (n : Nat) : List Edge := ((g.node? n).map (·.edges)).getD []

/-- The node of a target. -/
def findGuid? (g : Graph) (guid : Pif.Guid) : Option Nat :=
  g.nodes.findIdx? (·.target.guid == guid)

/-- The node of a name. Names of targets come before names of products. -/
def find? (g : Graph) (name : String) : Option Nat :=
  g.nodes.findIdx? (·.target.name == name) <|> g.nodes.findIdx? (·.target.answersTo name)

/-- Adds a node for a target that has none. -/
def add (g : Graph) (t : Pif.Target) : Graph :=
  match g.findGuid? t.guid with
  | some _ => g
  | none => ⟨g.nodes ++ [⟨t, []⟩]⟩

/-- The number of the node that `add` finds or makes. -/
def number (g : Graph) (t : Pif.Target) : Nat := (g.findGuid? t.guid).getD g.size

/-- The names of a node's neighbours. -/
def neighbourNames (g : Graph) (n : Nat) : List String :=
  (g.edges n).filterMap fun e => g.name? e.neighbour

/-- Adds an edge at one end, unless the owner has an edge to a neighbour of that name. -/
def pushEdge (g : Graph) (owner : Nat) (edge : Edge) : Graph :=
  match g.name? edge.neighbour with
  | none => g
  | some name =>
    if name ∈ g.neighbourNames owner then g
    else ⟨g.nodes.modify owner fun node => { node with edges := node.edges ++ [edge] }⟩

/-- Adds a relation at both its ends. -/
def addEdge (g : Graph) (a b : Nat) (kind : EdgeKind) : Graph :=
  (g.pushEdge a ⟨b, kind⟩).pushEdge b ⟨a, kind.opposite⟩

/-- The nodes to which a node has edges of one kind. -/
def neighbours (g : Graph) (kind : EdgeKind) (n : Nat) : List Nat :=
  ((g.edges n).filter (·.kind == kind)).map (·.neighbour)

/-- The targets that a node's target depends on. -/
def dependencies (g : Graph) (n : Nat) : List Pif.Target :=
  (g.neighbours .dependency n).filterMap g.target?

/-- The targets that depend on a node's target. -/
def dependers (g : Graph) (n : Nat) : List Pif.Target :=
  (g.neighbours .depender n).filterMap g.target?

/-- The nodes that can be reached over edges of either kind, in the order in which a depth-first
traversal leaves them. -/
def chainNodes (g : Graph) (n : Nat) : List Nat :=
  Traversal.left
    (Traversal.run (fun m => (g.edges m).map (·.neighbour)) (List.range g.size) [.visit n] [])

/-- The targets of the nodes that can be reached, the node's own last. -/
def chain (g : Graph) (n : Nat) : List Pif.Target := (g.chainNodes n).filterMap g.target?

end Graph

end BitcodeReplay
