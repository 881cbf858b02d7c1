import BitcodeReplay.Graph.Basic
import BitcodeReplay.Pif.Cache

/-!
The dependency graph of a snapshot: the targets that can be reached from some roots, added as a
depth-first traversal meets them.
-/

namespace BitcodeReplay.Graph

/-- What an event of the traversal adds. -/
def apply (c : Pif.Cache) (g : Graph) : Traversal.Event Pif.Guid → Graph
  | .enter a =>
    match c.target? a with
    | some t => g.add t
    | none => g
  | .edge a b =>
    match c.target? a, c.target? b with
    | some t, some u =>
      let g := g.add u
      g.addEdge (g.number t) (g.number u) .dependency
    | _, _ => g
  | .leave _ => g

/-- The traversal from the roots over direct dependencies. -/
def trace (c : Pif.Cache) (roots : List Pif.Guid) : List (Traversal.Event Pif.Guid) :=
  Traversal.run c.dependencyGuids c.guids (roots.map .visit) []

/-- The graph of the targets that can be reached from the roots. -/
def build (c : Pif.Cache) (roots : List Pif.Guid) : Graph :=
  (trace c roots).foldl (apply c) .empty

end BitcodeReplay.Graph
