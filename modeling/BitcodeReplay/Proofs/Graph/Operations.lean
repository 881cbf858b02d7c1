import BitcodeReplay.Proofs.Graph.WellFormed
import Mathlib.Data.List.Induction
import Mathlib.Data.Option.Basic

/-!
Graphs made by adding targets and relations in any order. Nodes stay where they are and lists of edges
grow at their ends; a node has neighbours of different names; and where targets have names of their
own, every edge is seen once from its other end, with the opposite kind.
-/

namespace BitcodeReplay.Graph

/-- What a graph is made by. A relation may be asked for between nodes that do not exist. -/
inductive Operation where
  | target (t : Pif.Target)
  | relation (a b : Nat) (kind : EdgeKind)

def operate (g : Graph) : Operation → Graph
  | .target t => g.add t
  | .relation a b kind => g.addEdge a b kind

/-- The graph that some operations make. -/
def ofOperations (operations : List Operation) : Graph := operations.foldl operate .empty

/-- A graph that has come of another: nodes have kept their numbers and their targets, and edges have
come behind those that there were. -/
def Extends (g g' : Graph) : Prop :=
  ∀ n node, g.node? n = some node →
    ∃ more, g'.node? n = some { node with edges := node.edges ++ more }

/-- An edge is added to a node that exists, if it leads to a node of a name that no neighbour has. -/
def IsNew (g : Graph) (owner : Nat) (e : Edge) : Prop :=
  owner < g.size ∧ ∃ name, g.name? e.neighbour = some name ∧ name ∉ g.neighbourNames owner

/-- Nodes have different names. -/
def NamesApart (g : Graph) : Prop :=
  ∀ m n name, g.name? m = some name → g.name? n = some name → m = n

/-- Every edge is there from its other end too. -/
def Mirrored (g : Graph) : Prop :=
  ∀ u, ∀ e ∈ g.edges u, ⟨u, e.kind.opposite⟩ ∈ g.edges e.neighbour

variable {g g' g'' : Graph} {n m owner : Nat} {t : Pif.Target} {e f : Edge} {a b : Nat}
  {kind : EdgeKind} {name : String} {operations more : List Operation}

/-! ### What an operation changes -/

theorem mem_edges_iff : e ∈ g.edges n ↔ ∃ node, g.node? n = some node ∧ e ∈ node.edges := by
  rw [edges]
  cases g.node? n <;> simp

theorem name?_eq_some_iff : g.name? n = some name ↔ ∃ t, g.target? n = some t ∧ t.name = name := by
  simp [name?]

theorem Extends.refl (g : Graph) : Extends g g := fun _ node h => ⟨[], by simpa using h⟩

theorem Extends.trans (h : Extends g g') (h' : Extends g' g'') : Extends g g'' := by
  intro n node hnode
  obtain ⟨more, hmore⟩ := h n node hnode
  obtain ⟨last, hlast⟩ := h' n _ hmore
  exact ⟨more ++ last, by simpa using hlast⟩

theorem Extends.target? (h : Extends g g') (ht : g.target? n = some t) : g'.target? n = some t := by
  obtain ⟨node, hnode, rfl⟩ := target?_eq_some_iff.1 ht
  obtain ⟨more, hmore⟩ := h n node hnode
  exact target?_eq_some_iff.2 ⟨_, hmore, rfl⟩

theorem Extends.name? (h : Extends g g') (hn : g.name? n = some name) : g'.name? n = some name := by
  obtain ⟨t, ht, rfl⟩ := name?_eq_some_iff.1 hn
  exact name?_eq_some_iff.2 ⟨t, h.target? ht, rfl⟩

theorem Extends.mem_edges (h : Extends g g') (he : e ∈ g.edges n) : e ∈ g'.edges n := by
  obtain ⟨node, hnode, hmem⟩ := mem_edges_iff.1 he
  obtain ⟨more, hmore⟩ := h n node hnode
  exact mem_edges_iff.2 ⟨_, hmore, List.mem_append_left _ hmem⟩

theorem extends_add (g : Graph) (t : Pif.Target) : Extends g (g.add t) := by
  intro n node hnode
  refine ⟨[], ?_⟩
  rw [add]
  split
  · simpa using hnode
  · obtain ⟨hlt, -⟩ := List.getElem?_eq_some_iff.1 hnode
    rw [node?, List.getElem?_append_left hlt]
    simpa [node?] using hnode

/-- A target that is new stands behind the others. -/
theorem node?_add {node : GraphNode} (h : (g.add t).node? n = some node) :
    g.node? n = some node ∨ node = ⟨t, []⟩ := by
  rw [add] at h
  split at h
  · exact .inl h
  · rw [node?, List.getElem?_append] at h
    split at h
    · exact .inl h
    · rw [List.getElem?_singleton] at h
      split at h <;> simp at h
      exact .inr h.symm

theorem edges_add : (g.add t).edges n = g.edges n := by
  rw [edges, edges]
  cases hnode : g.node? n with
  | some node =>
    obtain ⟨more, hmore⟩ := extends_add g t n node hnode
    rcases node?_add hmore with hsame | hnew
    · rw [hmore, ← hsame, hnode]
    · simp only [GraphNode.mk.injEq] at hnew
      obtain ⟨hedges, hmore'⟩ := List.append_eq_nil_iff.1 hnew.2
      simp [hmore, hedges, hmore']
  | none =>
    cases hadded : (g.add t).node? n with
    | none => rfl
    | some node =>
      rcases node?_add hadded with hsame | rfl
      · rw [hnode] at hsame
        cases hsame
      · rfl

/-- A target is found under the number that it has been given. -/
theorem WellFormed.findGuid?_add (h : g.WellFormed) :
    (g.add t).findGuid? t.guid = some (g.number t) := by
  rw [number, Graph.add]
  cases hfind : g.findGuid? t.guid with
  | some n => exact hfind
  | none =>
    have hadded := h.add t
    rw [Graph.add, hfind] at hadded
    refine hadded.findGuid?_eq_some_iff.2 ⟨t, ?_, rfl⟩
    simp [target?, node?, size]

theorem node?_pushEdge (g : Graph) (owner : Nat) (e : Edge) (n : Nat)
    [Decidable (IsNew g owner e)] : (g.pushEdge owner e).node? n =
      if n = owner ∧ IsNew g owner e then
        (g.node? n).map fun node => { node with edges := node.edges ++ [e] }
      else g.node? n := by
  rw [pushEdge]
  split
  · next hnone => rw [if_neg (by simp [IsNew, hnone])]
  · next name hname =>
    split
    · next hmem => rw [if_neg (by simp [IsNew, hname, hmem])]
    · next hmem =>
      rw [node?, List.getElem?_modify]
      by_cases hn : owner = n
      · subst hn
        by_cases hlt : owner < g.size
        · rw [if_pos ⟨rfl, hlt, name, hname, hmem⟩]
          simp [node?]
        · have hge : g.nodes[owner]? = none := List.getElem?_eq_none (Nat.le_of_not_lt hlt)
          simp [node?, hge]
      · rw [if_neg (fun h => hn h.1.symm)]
        simp [node?, hn]

open Classical in
theorem extends_pushEdge (g : Graph) (owner : Nat) (e : Edge) : Extends g (g.pushEdge owner e) := by
  intro n node hnode
  rw [node?_pushEdge]
  split
  · exact ⟨[e], by rw [hnode]; rfl⟩
  · exact ⟨[], by simpa using hnode⟩

open Classical in
@[simp] theorem target?_pushEdge : (g.pushEdge owner e).target? n = g.target? n := by
  rw [target?, target?, node?_pushEdge]
  split
  · simp [Function.comp_def]
  · rfl

@[simp] theorem name?_pushEdge : (g.pushEdge owner e).name? n = g.name? n := by
  rw [name?, name?, target?_pushEdge]

open Classical in
theorem edges_pushEdge (g : Graph) (owner : Nat) (e : Edge) (n : Nat) :
    (g.pushEdge owner e).edges n =
      g.edges n ++ if n = owner ∧ IsNew g owner e then [e] else [] := by
  rw [edges, edges, node?_pushEdge]
  split
  · next h =>
    obtain ⟨rfl, hlt, -⟩ := h
    have hnode : g.node? n = some g.nodes[n] := List.getElem?_eq_getElem hlt
    simp [hnode]
  · simp

theorem extends_addEdge (g : Graph) (a b : Nat) (kind : EdgeKind) :
    Extends g (g.addEdge a b kind) := (extends_pushEdge _ _ _).trans (extends_pushEdge _ _ _)

theorem pushEdge_of_not_isNew (h : ¬ IsNew g owner e) : g.pushEdge owner e = g := by
  rw [pushEdge]
  split
  · rfl
  · next name hname =>
    split
    · rfl
    · next hmem =>
      have hge : g.nodes.length ≤ owner := by
        by_contra hlt
        exact h ⟨Nat.lt_of_not_le hlt, name, hname, hmem⟩
      rw [List.modify_eq_self hge]

theorem lt_size_of_isNew (h : IsNew g owner e) : owner < g.size ∧ e.neighbour < g.size := by
  obtain ⟨hlt, name, hname, -⟩ := h
  obtain ⟨t, ht, -⟩ := name?_eq_some_iff.1 hname
  exact ⟨hlt, lt_of_target? ht⟩

/-- No relation is made with a node that does not exist. -/
theorem addEdge_of_not_lt (h : ¬ (a < g.size ∧ b < g.size)) : g.addEdge a b kind = g := by
  have hfirst : g.pushEdge a ⟨b, kind⟩ = g :=
    pushEdge_of_not_isNew fun hnew => h (lt_size_of_isNew hnew)
  rw [addEdge, hfirst]
  exact pushEdge_of_not_isNew fun hnew => h (lt_size_of_isNew hnew).symm

theorem addEdge_of_missing (h : g.target? a = none ∨ g.target? b = none) :
    g.addEdge a b kind = g := by
  refine addEdge_of_not_lt ?_
  rintro ⟨ha, hb⟩
  obtain ⟨s, hs⟩ := target?_of_lt ha
  obtain ⟨t, ht⟩ := target?_of_lt hb
  simp [hs, ht] at h

theorem extends_operate (g : Graph) (operation : Operation) : Extends g (g.operate operation) := by
  cases operation with
  | target t => exact extends_add g t
  | relation a b kind => exact extends_addEdge g a b kind

theorem ofOperations_concat (operations : List Operation) (operation : Operation) :
    ofOperations (operations ++ [operation]) = (ofOperations operations).operate operation :=
  List.foldl_concat ..

theorem extends_ofOperations (operations more : List Operation) :
    Extends (ofOperations operations) (ofOperations (operations ++ more)) := by
  induction more using List.reverseRecOn with
  | nil => simpa using Extends.refl _
  | append_singleton more operation ih =>
    rw [← List.append_assoc, ofOperations_concat]
    exact ih.trans (extends_operate _ _)

/-! ### Names of neighbours -/

theorem wellFormed_ofOperations (operations : List Operation) :
    (ofOperations operations).WellFormed := by
  induction operations using List.reverseRecOn with
  | nil => exact wellFormed_empty
  | append_singleton operations operation ih =>
    rw [ofOperations_concat]
    cases operation with
    | target t => exact ih.add t
    | relation a b kind => exact ih.addEdge a b kind

/-- Every neighbour has a name. -/
theorem WellFormed.map_name? (h : g.WellFormed) (n : Nat) :
    (g.edges n).map (fun e => g.name? e.neighbour) = (g.neighbourNames n).map some := by
  rw [neighbourNames, List.map_filterMap]
  have hsome : ∀ e ∈ g.edges n, (g.name? e.neighbour).map some = some (g.name? e.neighbour) := by
    intro e he
    obtain ⟨t, ht⟩ := target?_of_lt (h.inRange n e he)
    simp [name?, ht]
  rw [List.filterMap_congr hsome, ← List.filterMap_eq_map]
  rfl

theorem WellFormed.neighbourNames_add (h : g.WellFormed) :
    (g.add t).neighbourNames n = g.neighbourNames n := by
  rw [neighbourNames, neighbourNames, edges_add]
  refine List.filterMap_congr fun e he => ?_
  obtain ⟨u, hu⟩ := target?_of_lt (h.inRange n e he)
  rw [name?, name?, (extends_add g t).target? hu, hu]

theorem nodup_neighbourNames_pushEdge (h : ∀ n, (g.neighbourNames n).Nodup) (n : Nat) :
    ((g.pushEdge owner e).neighbourNames n).Nodup := by
  classical
  have hnames : (g.pushEdge owner e).neighbourNames n =
      g.neighbourNames n ++ (if n = owner ∧ IsNew g owner e then [e] else []).filterMap
        fun e => g.name? e.neighbour := by
    simp only [neighbourNames, edges_pushEdge, List.filterMap_append, name?_pushEdge]
  rw [hnames]
  split
  · next hnew =>
    obtain ⟨rfl, -, name, hname, hmem⟩ := hnew
    simp only [List.filterMap_cons, hname, List.filterMap_nil]
    exact List.nodup_append.2 ⟨h n, by simp, fun x hx y hy hxy => hmem (by
      rwa [← List.mem_singleton.1 hy, ← hxy])⟩
  · simpa using h n

/-- No two neighbours of a node have one name. -/
theorem nodup_neighbourNames (operations : List Operation) (n : Nat) :
    ((ofOperations operations).neighbourNames n).Nodup := by
  induction operations using List.reverseRecOn generalizing n with
  | nil => simp [ofOperations, neighbourNames, edges, node?, empty]
  | append_singleton operations operation ih =>
    rw [ofOperations_concat]
    cases operation with
    | target t =>
      rw [operate, (wellFormed_ofOperations operations).neighbourNames_add]
      exact ih n
    | relation a b kind =>
      exact nodup_neighbourNames_pushEdge (nodup_neighbourNames_pushEdge ih) n

/-! ### Both ends of a relation -/

theorem target_mem_of_target? (h : (ofOperations operations).target? n = some t) :
    .target t ∈ operations := by
  induction operations using List.reverseRecOn generalizing n with
  | nil => simp [ofOperations, target?, node?, empty] at h
  | append_singleton operations operation ih =>
    rw [ofOperations_concat] at h
    cases operation with
    | target u =>
      obtain ⟨node, hnode, rfl⟩ := target?_eq_some_iff.1 h
      rcases node?_add hnode with hold | rfl
      · exact List.mem_append_left _ (ih (target?_eq_some_iff.2 ⟨node, hold, rfl⟩))
      · simp
    | relation a b kind =>
      rw [operate, addEdge, target?_pushEdge, target?_pushEdge] at h
      exact List.mem_append_left _ (ih h)

/-- With names of their own, nodes are neighbours when the names say so. -/
theorem NamesApart.mem_neighbourNames_iff (h : NamesApart g) (hb : g.name? b = some name) :
    name ∈ g.neighbourNames a ↔ ∃ kind, ⟨b, kind⟩ ∈ g.edges a := by
  rw [neighbourNames, List.mem_filterMap]
  constructor
  · rintro ⟨⟨c, kind⟩, he, hname⟩
    exact ⟨kind, h c b name hname hb ▸ he⟩
  · rintro ⟨kind, he⟩
    exact ⟨_, he, hb⟩

theorem NamesApart.isNew_iff (h : NamesApart g) (ha : a < g.size) (hb : b < g.size) :
    IsNew g a ⟨b, kind⟩ ↔ ∀ kind, ⟨b, kind⟩ ∉ g.edges a := by
  obtain ⟨t, ht⟩ := target?_of_lt hb
  have hname : g.name? b = some t.name := name?_eq_some_iff.2 ⟨t, ht, rfl⟩
  have hmem := h.mem_neighbourNames_iff (a := a) hname
  simp [IsNew, ha, hname, hmem]

/-- A relation comes from both ends or from neither: if one node has the other for a neighbour, so has
the other. -/
theorem Mirrored.addEdge (h : Mirrored g) (hnames : NamesApart g) (hab : a ≠ b) (kind : EdgeKind) :
    Mirrored (g.addEdge a b kind) := by
  classical
  by_cases hexist : a < g.size ∧ b < g.size
  · obtain ⟨ha, hb⟩ := hexist
    have hpush : NamesApart (g.pushEdge a ⟨b, kind⟩) := by simpa [NamesApart] using hnames
    have hsize : ∀ n, n < g.size → n < (g.pushEdge a ⟨b, kind⟩).size := by
      intro n hn
      obtain ⟨t, ht⟩ := target?_of_lt hn
      exact lt_of_target? (target?_pushEdge.trans ht)
    have hedgesB : (g.pushEdge a ⟨b, kind⟩).edges b = g.edges b := by
      simp [edges_pushEdge, hab.symm]
    have hboth : IsNew (g.pushEdge a ⟨b, kind⟩) b ⟨a, kind.opposite⟩ ↔ IsNew g a ⟨b, kind⟩ := by
      rw [hpush.isNew_iff (hsize b hb) (hsize a ha), hnames.isNew_iff ha hb, hedgesB]
      constructor
      · exact fun hnone k hmem => hnone _ (h a _ hmem)
      · exact fun hnone k hmem => hnone _ (h b _ hmem)
    have hedges : ∀ n, (g.addEdge a b kind).edges n = g.edges n ++
        (if n = a ∧ IsNew g a ⟨b, kind⟩ then [⟨b, kind⟩] else []) ++
        if n = b ∧ IsNew g a ⟨b, kind⟩ then [⟨a, kind.opposite⟩] else [] := by
      intro n
      rw [Graph.addEdge, edges_pushEdge, edges_pushEdge]
      simp only [hboth]
    intro u e he
    rw [hedges] at he ⊢
    simp only [List.mem_append] at he ⊢
    rcases he with (he | he) | he
    · exact .inl (.inl (h u e he))
    · split at he
      · next hnew =>
        obtain ⟨rfl, hnew⟩ := hnew
        obtain rfl := List.mem_singleton.1 he
        exact .inr (by simp [hnew])
      · simp at he
    · split at he
      · next hnew =>
        obtain ⟨rfl, hnew⟩ := hnew
        obtain rfl := List.mem_singleton.1 he
        exact .inl (.inr (by simp [hnew]))
      · simp at he
  · rwa [addEdge_of_not_lt hexist]

/-- A node that is related to itself becomes its own neighbour. -/
theorem NamesApart.addEdge_self (h : NamesApart g)
    (hself : ∀ e ∈ (g.addEdge a a kind).edges a, e.neighbour ≠ a) : g.addEdge a a kind = g := by
  classical
  refine addEdge_of_missing (.inl (Option.eq_none_iff_forall_ne_some.2 fun t ht => ?_))
  have hlt := lt_of_target? ht
  have hold : ∀ k, ⟨a, k⟩ ∉ g.edges a :=
    fun k hmem => hself _ ((extends_addEdge g a a kind).mem_edges hmem) rfl
  refine hself ⟨a, kind⟩ ((extends_pushEdge _ _ _).mem_edges ?_) rfl
  rw [edges_pushEdge, if_pos ⟨rfl, (h.isNew_iff hlt hlt).2 hold⟩]
  simp

theorem mirrored_ofOperations (hnames : NamesApart (ofOperations operations))
    (hself : ∀ n, ∀ e ∈ (ofOperations operations).edges n, e.neighbour ≠ n) :
    Mirrored (ofOperations operations) := by
  induction operations using List.reverseRecOn with
  | nil =>
    intro u e he
    simp [ofOperations, edges, node?, empty] at he
  | append_singleton operations operation ih =>
    -- what holds of the whole graph has held before
    have hext := extends_ofOperations operations [operation]
    have hnamesBefore : NamesApart (ofOperations operations) :=
      fun m n name hm hn => hnames m n name (hext.name? hm) (hext.name? hn)
    have hbefore := ih hnamesBefore fun n e he => hself n e (hext.mem_edges he)
    rw [ofOperations_concat] at hself ⊢
    cases operation with
    | target t =>
      intro u e he
      rw [operate, edges_add] at he ⊢
      exact hbefore u e he
    | relation a b kind =>
      by_cases hab : a = b
      · subst hab
        rw [operate, hnamesBefore.addEdge_self (hself a)]
        exact hbefore
      · exact hbefore.addEdge hnamesBefore hab kind

/-- Of edges of one node no two lead to the same neighbour. -/
theorem filter_neighbour_eq (h : ((g.edges n).map fun e => g.name? e.neighbour).Nodup)
    (he : e ∈ g.edges n) : (g.edges n).filter (·.neighbour = e.neighbour) = [e] := by
  obtain ⟨front, back, hsplit⟩ := List.append_of_mem he
  rw [hsplit, List.map_append, List.map_cons, List.nodup_append] at h
  obtain ⟨-, hback, hfront⟩ := h
  have hnone : ∀ f ∈ front ++ back, f.neighbour ≠ e.neighbour := by
    intro f hf hfe
    rcases List.mem_append.1 hf with hf | hf
    · exact hfront _ (List.mem_map_of_mem hf) _ List.mem_cons_self (by rw [hfe])
    · exact (List.nodup_cons.1 hback).1 (List.mem_map.2 ⟨f, hf, by rw [hfe]⟩)
  have hempty : ∀ l ⊆ front ++ back, l.filter (·.neighbour = e.neighbour) = [] := by
    intro l hl
    exact List.filter_eq_nil_iff.2 fun f hf => by simpa using hnone f (hl hf)
  rw [hsplit, List.filter_append, List.filter_cons_of_pos (by simp),
    hempty front (List.subset_append_left _ _), hempty back (List.subset_append_right _ _),
    List.nil_append]

/-- Whatever targets are added, whatever nodes are related and in whatever order: a target has one
node, which is found by its identifier and stays as it is but for more edges at the end; edges lead to
nodes, those of one node to nodes of different names; and nothing comes of a relation with a node that
does not exist. If targets have names of their own and no node is its own neighbour, every edge is
matched by exactly one at its other end, which is of the opposite kind. -/
theorem ofOperations_invariants (operations : List Operation) :
    ((ofOperations operations).nodes.map (·.target.guid)).Nodup ∧
    (∀ guid n, (ofOperations operations).findGuid? guid = some n ↔
      ∃ t, (ofOperations operations).target? n = some t ∧ t.guid = guid) ∧
    (∀ t, (ofOperations (operations ++ [.target t])).findGuid? t.guid =
      some ((ofOperations operations).number t)) ∧
    (∀ more n node, (ofOperations operations).node? n = some node →
      ∃ new, (ofOperations (operations ++ more)).node? n = some ⟨node.target, node.edges ++ new⟩) ∧
    (∀ n, ∀ e ∈ (ofOperations operations).edges n,
      ∃ t, (ofOperations operations).target? e.neighbour = some t) ∧
    (∀ n, ((ofOperations operations).edges n).Pairwise fun e f =>
      (ofOperations operations).name? e.neighbour ≠ (ofOperations operations).name? f.neighbour) ∧
    (∀ a b kind,
      (ofOperations operations).target? a = none ∨ (ofOperations operations).target? b = none →
      ofOperations (operations ++ [.relation a b kind]) = ofOperations operations) ∧
    ((∀ s t, .target s ∈ operations → .target t ∈ operations → s.guid ≠ t.guid → s.name ≠ t.name) →
      (∀ n, ∀ e ∈ (ofOperations operations).edges n, e.neighbour ≠ n) →
      ∀ u, ∀ e ∈ (ofOperations operations).edges u,
        ((ofOperations operations).edges e.neighbour).filter (·.neighbour = u) =
          [⟨u, e.kind.opposite⟩]) := by
  have hwf := wellFormed_ofOperations operations
  have hapart : ∀ n, (((ofOperations operations).edges n).map
      fun e => (ofOperations operations).name? e.neighbour).Nodup := by
    intro n
    rw [hwf.map_name?]
    exact (nodup_neighbourNames operations n).map (Option.some_injective _)
  refine ⟨hwf.guids, fun _ _ => hwf.findGuid?_eq_some_iff, fun t => ?_,
    fun more n node hnode => extends_ofOperations operations more n node hnode,
    fun n e he => target?_of_lt (hwf.inRange n e he), fun n => List.pairwise_map.1 (hapart n),
    fun a b kind hmissing => ?_, fun hdistinct hself u e he => ?_⟩
  · rw [ofOperations_concat]
    exact hwf.findGuid?_add
  · rw [ofOperations_concat]
    exact addEdge_of_missing hmissing
  · have hnames : NamesApart (ofOperations operations) := by
      intro m n name hm hn
      obtain ⟨s, hs, hsname⟩ := name?_eq_some_iff.1 hm
      obtain ⟨t, ht, htname⟩ := name?_eq_some_iff.1 hn
      have hguid : s.guid = t.guid := by
        by_contra hne
        exact hdistinct s t (target_mem_of_target? hs) (target_mem_of_target? ht) hne
          (hsname.trans htname.symm)
      have hfound := hwf.findGuid?_eq_some_iff.2 ⟨s, hs, rfl⟩
      rw [hwf.findGuid?_eq_some_iff.2 ⟨t, ht, hguid.symm⟩] at hfound
      exact (Option.some.inj hfound).symm
    exact filter_neighbour_eq (hapart _) (mirrored_ofOperations hnames hself u e he)

/-- A target that comes twice, a relation that comes again from its other end and as the other kind,
and one with a node that does not exist. -/
def repeatedOperations : List Operation :=
  let app : Pif.Target := ⟨.standard, "A", "App", [], [], [], .framework, "App.framework"⟩
  let base : Pif.Target := ⟨.standard, "B", "Base", [], [], [], .staticLibrary, "Base.a"⟩
  [.target app, .relation 0 1 .dependency, .target base, .relation 0 1 .dependency, .target app,
    .relation 1 0 .dependency, .relation 0 1 .depender, .relation 1 7 .dependency]

theorem ofOperations_invariants_repeated :
    (ofOperations repeatedOperations).edges 0 = [⟨1, .dependency⟩] ∧
    ((ofOperations repeatedOperations).edges 1).filter (·.neighbour = 0) = [⟨0, .depender⟩] := by
  obtain ⟨-, -, -, -, -, -, -, hmatched⟩ := ofOperations_invariants repeatedOperations
  have hedges : (ofOperations repeatedOperations).edges 0 = [⟨1, .dependency⟩] := by rfl
  have hbase : (ofOperations repeatedOperations).edges 1 = [⟨0, .depender⟩] := by rfl
  have hnone : ∀ n, (ofOperations repeatedOperations).edges (n + 2) = [] := fun _ => rfl
  refine ⟨hedges, hmatched ?_ ?_ 0 ⟨1, .dependency⟩ (by simp [hedges])⟩
  · intro s t hs ht hguid
    simp only [repeatedOperations, List.mem_cons, Operation.target.injEq, reduceCtorEq,
      List.not_mem_nil, or_false, false_or] at hs ht
    rcases hs with rfl | rfl | rfl <;> rcases ht with rfl | rfl | rfl <;> simp_all
  · intro n e he
    match n with
    | 0 => simp_all
    | 1 => simp_all
    | n + 2 => simp [hnone] at he

end BitcodeReplay.Graph
