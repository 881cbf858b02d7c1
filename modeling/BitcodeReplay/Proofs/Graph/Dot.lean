import BitcodeReplay.Proofs.Graph.Operations
import BitcodeReplay.Proofs.Graph.RootOrder
import BitcodeReplay.Proofs.Text.Reading

/-!
Reading the text of a graph. A backslash in a quoted name takes the next character as it is, so a name
ends at the quote that has been written behind it and nowhere before, whatever it holds. The lines
therefore say which names there are and which pairs of names, and graphs that agree on these have one
text.
-/

namespace BitcodeReplay.Graph

open Text

/-- What a line of a text says: a node of a name, or a dependency of one name on another. -/
inductive Statement where
  | node (name : String)
  | dependency (owner neighbour : String)
  deriving DecidableEq, Repr

namespace Statement

def node? : Statement → Option String
  | .node name => some name
  | .dependency _ _ => none

def dependency? : Statement → Option (String × String)
  | .node _ => none
  | .dependency owner neighbour => some (owner, neighbour)

def line : Statement → String
  | .node name => nodeLine name
  | .dependency owner neighbour => edgeLine (owner, neighbour)

end Statement

/-- What the lines of a graph's text say, in their order. -/
def statements (g : Graph) : List Statement :=
  g.sortedNames.map .node ++ g.sortedPairs.map fun pair => .dependency pair.1 pair.2

/-- The rest of a name whose first quote has been read, and the text behind its last. The flag says that
a backslash has just been read. -/
def readName (escaping : Bool) : List Char → Option (List Char × List Char)
  | [] => none
  | c :: text =>
    if escaping then (readName false text).map fun (name, rest) => (c :: name, rest)
    else if c = '"' then some ([], text)
    else if c = '\\' then readName true text
    else (readName false text).map fun (name, rest) => (c :: name, rest)

/-- The statement in the first line of a text, and the lines behind it. -/
def readStatement (text : List Char) : Option (Statement × List Char) := do
  let text ← dropStart? "  \"".toList text
  let (first, text) ← readName false text
  match dropStart? ";\n".toList text with
  | some rest => some (.node (String.ofList first), rest)
  | none =>
    let text ← dropStart? " -> \"".toList text
    let (second, text) ← readName false text
    let rest ← dropStart? ";\n".toList text
    some (.dependency (String.ofList first) (String.ofList second), rest)

/-- The statements up to the brace at the end. The first argument bounds their number. -/
def readStatements : Nat → List Char → Option (List Statement)
  | 0, _ => none
  | bound + 1, text =>
    if text = "\x7d\n".toList then some []
    else (readStatement text).bind fun (statement, rest) =>
      (readStatements bound rest).map (statement :: ·)

/-- The names of the nodes and the pairs of names that a text lists, in its order. -/
def readDot (text : String) : Option (List String × List (String × String)) :=
  (dropStart? "digraph DependencyGraph \x7b\n".toList text.toList).bind fun body =>
    (readStatements body.length body).map fun statements =>
      (statements.filterMap Statement.node?, statements.filterMap Statement.dependency?)

/-- An edge leads from a target of the one name to a dependency of the other. -/
def DependsByName (g : Graph) (owner neighbour : String) : Prop :=
  ∃ n, g.name? n = some owner ∧
    ∃ e ∈ g.edges n, e.kind = .dependency ∧ g.name? e.neighbour = some neighbour

variable {g g' : Graph} {owner neighbour : String} {pairs : List (String × String)}

/-! ### Names -/

/-- The characters between the quotes around a name. -/
def escaped (name : List Char) : List Char :=
  name.flatMap fun c => if c = '"' ∨ c = '\\' then ['\\', c] else [c]

theorem toList_quoted (name : String) :
    (quoted name).toList = '"' :: (escaped name.toList ++ ['"']) := by
  simp [quoted, escaped, String.toList_append]

theorem readName_escaped (name rest : List Char) :
    readName false (escaped name ++ '"' :: rest) = some (name, rest) := by
  induction name with
  | nil => simp [escaped, readName]
  | cons c name ih =>
    have hcons : escaped (c :: name) =
        (if c = '"' ∨ c = '\\' then ['\\', c] else [c]) ++ escaped name := rfl
    rw [hcons]
    by_cases hc : c = '"' ∨ c = '\\'
    · simp [hc, readName, ih]
    · rw [if_neg hc]
      rw [not_or] at hc
      simp [readName, hc, ih]

/-! ### Lines -/

theorem toList_nodeLine (name : String) : (nodeLine name).toList =
    "  \"".toList ++ (escaped name.toList ++ '"' :: ";\n".toList) := by
  simp [nodeLine, String.toList_append, toList_quoted]

theorem toList_edgeLine (owner neighbour : String) : (edgeLine (owner, neighbour)).toList =
    "  \"".toList ++ (escaped owner.toList ++ '"' :: (" -> \"".toList ++
      (escaped neighbour.toList ++ '"' :: ";\n".toList))) := by
  simp [edgeLine, String.toList_append, toList_quoted]

/-- A line is read as what it was written for, whatever comes behind it. -/
theorem readStatement_line (statement : Statement) (rest : List Char) :
    readStatement (statement.line.toList ++ rest) = some (statement, rest) := by
  cases statement with
  | node name =>
    have hread : readStatement ((nodeLine name).toList ++ rest) =
        some (.node (String.ofList name.toList), rest) := by
      rw [toList_nodeLine]
      simp only [List.append_assoc, List.cons_append, readStatement, dropStart?_append,
        readName_escaped, Option.bind_eq_bind, Option.bind_some]
    rwa [String.ofList_toList] at hread
  | dependency owner neighbour =>
    have harrow : dropStart? ";\n".toList (" -> \"".toList ++
        (escaped neighbour.toList ++ '"' :: (";\n".toList ++ rest))) = none := rfl
    have hread : readStatement ((edgeLine (owner, neighbour)).toList ++ rest) =
        some (.dependency (String.ofList owner.toList) (String.ofList neighbour.toList), rest) := by
      rw [toList_edgeLine]
      simp only [List.append_assoc, List.cons_append, readStatement, dropStart?_append,
        readName_escaped, Option.bind_eq_bind, Option.bind_some, harrow]
    rwa [String.ofList_toList, String.ofList_toList] at hread

theorem toList_line (statement : Statement) : ∃ text, statement.line.toList = ' ' :: text := by
  cases statement with
  | node name => exact ⟨_, toList_nodeLine name⟩
  | dependency owner neighbour => exact ⟨_, toList_edgeLine owner neighbour⟩

/-- No line is the brace that ends the text. -/
theorem readStatements_lines (statements : List Statement) (bound : Nat)
    (h : statements.length < bound) :
    readStatements bound (statements.flatMap (·.line.toList) ++ "\x7d\n".toList) =
      some statements := by
  induction statements generalizing bound with
  | nil =>
    obtain ⟨bound, rfl⟩ := Nat.exists_eq_add_one_of_ne_zero (Nat.ne_of_gt h)
    simp [readStatements]
  | cons statement statements ih =>
    obtain ⟨bound, rfl⟩ := Nat.exists_eq_add_one_of_ne_zero (Nat.ne_zero_of_lt h)
    obtain ⟨text, htext⟩ := toList_line statement
    have hmore : (statement :: statements).flatMap (·.line.toList) ++ "\x7d\n".toList ≠
        "\x7d\n".toList := by simp [htext]
    rw [readStatements, if_neg hmore, List.flatMap_cons, List.append_assoc, readStatement_line]
    simp only [Option.bind_some, ih bound (Nat.lt_of_succ_lt_succ h), Option.map_some]

theorem length_le_flatMap_line (statements : List Statement) :
    statements.length ≤ (statements.flatMap (·.line.toList)).length := by
  induction statements with
  | nil => exact Nat.le_refl 0
  | cons statement statements ih =>
    obtain ⟨text, htext⟩ := toList_line statement
    simp only [List.flatMap_cons, htext, List.length_append, List.length_cons]
    omega

/-! ### Whole texts -/

theorem toList_dot (g : Graph) : g.dot.toList =
    "digraph DependencyGraph \x7b\n".toList ++
      (g.statements.flatMap (·.line.toList) ++ "\x7d\n".toList) := by
  have hnames : (String.join (g.sortedNames.map nodeLine)).toList =
      (g.sortedNames.map Statement.node).flatMap (·.line.toList) := by
    rw [String.toList_join, List.flatMap_map, List.flatMap_map]
    rfl
  have hpairs : (String.join (g.sortedPairs.map edgeLine)).toList =
      (g.sortedPairs.map fun pair => Statement.dependency pair.1 pair.2).flatMap
        (·.line.toList) := by
    rw [String.toList_join, List.flatMap_map, List.flatMap_map]
    rfl
  unfold dot statements
  simp only [String.toList_append, hnames, hpairs, List.flatMap_append, List.append_assoc]

/-- Everything that a text has been written for can be read from it, whatever the names hold. -/
theorem readDot_dot (g : Graph) : readDot g.dot = some (g.sortedNames, g.sortedPairs) := by
  have hbound : g.statements.length <
      (g.statements.flatMap (·.line.toList) ++ "\x7d\n".toList).length := by
    have hlines := length_le_flatMap_line g.statements
    simp only [List.length_append]
    exact Nat.lt_of_le_of_lt hlines (Nat.lt_add_of_pos_right (by decide))
  rw [readDot, toList_dot, dropStart?_append, Option.bind_some,
    readStatements_lines _ _ hbound, Option.map_some]
  simp [statements, List.filterMap_append, List.filterMap_map, Function.comp_def, Statement.node?,
    Statement.dependency?]

/-! ### Names and dependencies in order -/

theorem sortedNames_perm (g : Graph) : g.sortedNames.Perm (g.nodes.map (·.target.name)) :=
  List.mergeSort_perm _ _

theorem pairwise_sortedNames (g : Graph) : g.sortedNames.Pairwise (· ≤ ·) :=
  pairwise_mergeSort_key nameLe_iff _

theorem mem_dropRepeats {pair : String × String} : pair ∈ dropRepeats pairs ↔ pair ∈ pairs := by
  fun_induction dropRepeats pairs with
  | case1 b rest ih => simp [ih]
  | case2 a b rest hab ih => rw [List.mem_cons, List.mem_cons (b := a), ih]
  | case3 pairs _ => rfl

/-- Equal pairs are neighbours in a list that is in order. -/
theorem pairwise_dropRepeats (h : pairs.Pairwise fun p q => toLex p ≤ toLex q) :
    (dropRepeats pairs).Pairwise fun p q => toLex p < toLex q := by
  fun_induction dropRepeats pairs with
  | case1 b rest ih => exact ih h.of_cons
  | case2 a b rest hab ih =>
    obtain ⟨ha, hb⟩ := List.pairwise_cons.1 h
    have hlt : toLex a < toLex b := lt_of_le_of_ne (ha b List.mem_cons_self) (toLex.injective.ne hab)
    refine List.pairwise_cons.2 ⟨fun q hq => ?_, ih hb⟩
    rcases List.mem_cons.1 (mem_dropRepeats.1 hq) with rfl | hq
    · exact hlt
    · exact hlt.trans_le (List.rel_of_pairwise_cons hb hq)
  | case3 pairs hshort =>
    match pairs, hshort with
    | [], _ => exact List.Pairwise.nil
    | [a], _ => exact List.pairwise_singleton _ _
    | a :: b :: rest, hshort => exact absurd rfl (hshort a b rest)

theorem pairwise_sortedPairs (g : Graph) :
    g.sortedPairs.Pairwise fun p q => toLex p < toLex q :=
  pairwise_dropRepeats (pairwise_mergeSort_key pairLe_iff _)

theorem mem_sortedPairs : (owner, neighbour) ∈ g.sortedPairs ↔ g.DependsByName owner neighbour := by
  rw [sortedPairs, mem_dropRepeats, List.mem_mergeSort, namePairs, DependsByName]
  constructor
  · intro h
    obtain ⟨node, hnode, hedge⟩ := List.mem_flatMap.1 h
    obtain ⟨e, he, hpair⟩ := List.mem_filterMap.1 hedge
    obtain ⟨hmem, hkind⟩ := List.mem_filter.1 he
    obtain ⟨name, hname, hends⟩ := Option.map_eq_some_iff.1 hpair
    obtain ⟨rfl, rfl⟩ := Prod.mk.inj hends
    obtain ⟨n, hn⟩ := List.mem_iff_getElem?.1 hnode
    refine ⟨n, by simp [name?, target?, node?, hn], e, ?_, eq_of_beq hkind, hname⟩
    exact mem_edges_iff.2 ⟨node, hn, hmem⟩
  · rintro ⟨n, hname, e, he, hkind, hend⟩
    obtain ⟨node, hn, hmem⟩ := mem_edges_iff.1 he
    obtain rfl : node.target.name = owner := by simpa [name?, target?, hn] using hname
    refine List.mem_flatMap.2 ⟨node, List.mem_of_getElem? hn, List.mem_filterMap.2 ⟨e, ?_, ?_⟩⟩
    · exact List.mem_filter.2 ⟨hmem, by simp [hkind]⟩
    · rw [hend]
      rfl

/-- Two texts are the same as soon as the graphs agree on what can be read from them. -/
theorem dot_eq_iff : g.dot = g'.dot ↔
    (g.nodes.map (·.target.name)).Perm (g'.nodes.map (·.target.name)) ∧
    ∀ owner neighbour, g.DependsByName owner neighbour ↔ g'.DependsByName owner neighbour := by
  constructor
  · intro h
    obtain ⟨hnames, hpairs⟩ : g.sortedNames = g'.sortedNames ∧ g.sortedPairs = g'.sortedPairs := by
      rw [← Prod.mk.injEq, ← Option.some.injEq, ← readDot_dot, ← readDot_dot, h]
    refine ⟨?_, fun owner neighbour => ?_⟩
    · exact (sortedNames_perm g).symm.trans (hnames ▸ sortedNames_perm g')
    · rw [← mem_sortedPairs, ← mem_sortedPairs, hpairs]
  · rintro ⟨hnames, hpairs⟩
    have hsorted : g.sortedPairs = g'.sortedPairs := by
      have hnodup : ∀ g : Graph, g.sortedPairs.Nodup :=
        fun g => (pairwise_sortedPairs g).imp fun h => by simpa using ne_of_lt h
      have hperm : g.sortedPairs.Perm g'.sortedPairs :=
        (List.perm_ext_iff_of_nodup (hnodup g) (hnodup g')).2 fun (owner, neighbour) => by
          rw [mem_sortedPairs, mem_sortedPairs, hpairs]
      exact hperm.eq_of_pairwise (fun p q _ _ hpq hqp => absurd hpq (not_lt_of_gt hqp))
        (pairwise_sortedPairs g) (pairwise_sortedPairs g')
    unfold dot
    rw [sortedNames_eq_of_perm hnames, hsorted]

/-- The names of all nodes and the pairs of names that depend on each other can be read from the text of
a graph: the names in order, as often as they occur, and the pairs in order and each once. Every
dependency between nodes is among them, and texts are the same where these are. -/
theorem dot_unambiguous (g : Graph) :
    ∃ names pairs, readDot g.dot = some (names, pairs) ∧
      names.Perm (g.nodes.map (·.target.name)) ∧ names.Pairwise (· ≤ ·) ∧
      (∀ owner neighbour, (owner, neighbour) ∈ pairs ↔ g.DependsByName owner neighbour) ∧
      pairs.Pairwise (fun p q => toLex p < toLex q) ∧
      (g.WellFormed → ∀ n, ∀ e ∈ g.edges n, e.kind = .dependency →
        ∃ owner neighbour, g.name? n = some owner ∧ g.name? e.neighbour = some neighbour ∧
          (owner, neighbour) ∈ pairs) ∧
      ∀ g' : Graph, g.dot = g'.dot ↔
        (g.nodes.map (·.target.name)).Perm (g'.nodes.map (·.target.name)) ∧
        ∀ owner neighbour, g.DependsByName owner neighbour ↔ g'.DependsByName owner neighbour := by
  refine ⟨g.sortedNames, g.sortedPairs, readDot_dot g, sortedNames_perm g, pairwise_sortedNames g,
    fun _ _ => mem_sortedPairs, pairwise_sortedPairs g, fun hwf n e he hkind => ?_,
    fun g' => dot_eq_iff⟩
  obtain ⟨node, hnode, -⟩ := mem_edges_iff.1 he
  obtain ⟨t, ht⟩ := target?_of_lt (hwf.inRange n e he)
  have howner : g.name? n = some node.target.name := by simp [name?, target?, hnode]
  have hneighbour : g.name? e.neighbour = some t.name := by simp [name?, ht]
  exact ⟨_, _, howner, hneighbour, mem_sortedPairs.2 ⟨n, howner, e, he, hkind, hneighbour⟩⟩

/-- An app over a library whose name looks like what stands between two names. -/
def arrowOperations : List Operation :=
  [.target ⟨.standard, "A", "App", [⟨"B", []⟩], [], [], .application, "App.app"⟩,
    .target ⟨.standard, "B", "\" -> \"", [], [], [], .staticLibrary, "B.a"⟩]

theorem dot_unambiguous_arrow :
    (ofOperations arrowOperations).dot ≠
      (ofOperations (arrowOperations ++ [.relation 0 1 .dependency])).dot ∧
    ∃ names pairs,
      readDot (ofOperations (arrowOperations ++ [.relation 0 1 .dependency])).dot =
        some (names, pairs) ∧
      ("App", "\" -> \"") ∈ pairs := by
  obtain ⟨names, pairs, hread, -, -, hpairs, -, hlisted, hsame⟩ :=
    dot_unambiguous (ofOperations (arrowOperations ++ [.relation 0 1 .dependency]))
  obtain ⟨owner, neighbour, howner, hneighbour, hmem⟩ :=
    hlisted (wellFormed_ofOperations _) 0 ⟨1, .dependency⟩ (by decide) rfl
  obtain rfl : "App" = owner := Option.some.inj howner
  obtain rfl : "\" -> \"" = neighbour := Option.some.inj hneighbour
  refine ⟨fun heq => ?_, names, pairs, hread, hmem⟩
  obtain ⟨n, -, e, he, -⟩ := (((hsame _).1 heq.symm).2 _ _).1 ((hpairs _ _).1 hmem)
  match n with
  | 0 => exact absurd he List.not_mem_nil
  | 1 => exact absurd he List.not_mem_nil
  | n + 2 => exact absurd he List.not_mem_nil

end BitcodeReplay.Graph
