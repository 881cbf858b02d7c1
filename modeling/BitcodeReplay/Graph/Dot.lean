import BitcodeReplay.Graph.Basic

/-!
The text of a graph in the DOT language. Nodes and dependencies are sorted, so that equal graphs
have equal texts whatever the order in which they were built.
-/

namespace BitcodeReplay.Graph

/-- A name in quotes. A backslash takes the next character as it is. -/
def quoted (name : String) : String :=
  "\"" ++ String.ofList (name.toList.flatMap fun c =>
    if c = '"' ∨ c = '\\' then ['\\', c] else [c]) ++ "\""

/-- The names of all nodes in order, each as often as it occurs. -/
def sortedNames (g : Graph) : List String :=
  (g.nodes.map (·.target.name)).mergeSort fun a b => decide (a ≤ b)

/-- Pairs by their first part, then by their second. -/
def pairLe (p q : String × String) : Bool := p.1 < q.1 || (p.1 == q.1 && decide (p.2 ≤ q.2))

/-- Keeps one of equal neighbours in a list. -/
def dropRepeats : List (String × String) → List (String × String)
  | a :: b :: rest => if a = b then dropRepeats (b :: rest) else a :: dropRepeats (b :: rest)
  | pairs => pairs

/-- The names at the ends of every dependency edge. -/
def namePairs (g : Graph) : List (String × String) :=
  g.nodes.flatMap fun node =>
    (node.edges.filter (·.kind == .dependency)).filterMap fun e =>
      (g.name? e.neighbour).map fun name => (node.target.name, name)

/-- The dependencies by name, in order and each once. -/
def sortedPairs (g : Graph) : List (String × String) := dropRepeats (g.namePairs.mergeSort pairLe)

def nodeLine (name : String) : String := "  " ++ quoted name ++ ";\n"

def edgeLine (pair : String × String) : String :=
  "  " ++ quoted pair.1 ++ " -> " ++ quoted pair.2 ++ ";\n"

/-- The text of a graph. -/
def dot (g : Graph) : String :=
  "digraph DependencyGraph \x7b\n" ++ String.join (g.sortedNames.map nodeLine) ++
    String.join (g.sortedPairs.map edgeLine) ++ "\x7d\n"

end BitcodeReplay.Graph
