import BitcodeReplay.Graph.Build
import Mathlib.Data.List.Nodup

/-!
What holds of every graph that is made by adding nodes and edges: a target has one node, and edges
lead to nodes.
-/

namespace BitcodeReplay.Graph

structure WellFormed (g : Graph) : Prop where
  guids : (g.nodes.map (·.target.guid)).Nodup
  inRange : ∀ n, ∀ e ∈ g.edges n, e.neighbour < g.size

variable {g : Graph} {guid : Pif.Guid} {n : Nat} {t : Pif.Target}

theorem target?_eq_some_iff : g.target? n = some t ↔ ∃ node, g.nodes[n]? = some node ∧
    node.target = t := by
  simp [target?, node?]

theorem target?_of_lt (h : n < g.size) : ∃ t, g.target? n = some t := by
  have hlt : n < g.nodes.length := h
  exact ⟨_, target?_eq_some_iff.2 ⟨g.nodes[n], List.getElem?_eq_getElem hlt, rfl⟩⟩

theorem lt_of_target? (h : g.target? n = some t) : n < g.size := by
  obtain ⟨node, hnode, -⟩ := target?_eq_some_iff.1 h
  exact (List.getElem?_eq_some_iff.1 hnode).1

/-- The node of a target is the one with its identifier. -/
theorem WellFormed.findGuid?_eq_some_iff (h : g.WellFormed) :
    g.findGuid? guid = some n ↔ ∃ t, g.target? n = some t ∧ t.guid = guid := by
  have hguid : ∀ (m : Nat) (hm : m < g.nodes.length), (g.nodes.map (·.target.guid))[m]? =
      some (g.nodes[m]).target.guid := by
    intro m hm
    simp [hm]
  rw [findGuid?, List.findIdx?_eq_some_iff_getElem]
  constructor
  · rintro ⟨hn, hfound, -⟩
    exact ⟨_, target?_eq_some_iff.2 ⟨_, List.getElem?_eq_getElem hn, rfl⟩, by simpa using hfound⟩
  · rintro ⟨t, ht, rfl⟩
    obtain ⟨node, hnode, rfl⟩ := target?_eq_some_iff.1 ht
    obtain ⟨hn, rfl⟩ := List.getElem?_eq_some_iff.1 hnode
    refine ⟨hn, by simp, fun j hj he => ?_⟩
    have hjn : j < g.nodes.length := by omega
    have hsame : (g.nodes.map (·.target.guid))[j]? = (g.nodes.map (·.target.guid))[n]? := by
      rw [hguid j hjn, hguid n hn]
      simpa using he
    have heq := (List.getElem?_inj (by simpa using hjn) h.guids).1 hsame
    omega

theorem WellFormed.neighbour_lt (h : g.WellFormed) {m : Nat} {kind : EdgeKind}
    (hm : m ∈ g.neighbours kind n) : m < g.size := by
  obtain ⟨e, he, rfl⟩ := List.mem_map.1 hm
  exact h.inRange n e (List.mem_of_mem_filter he)

/-- The targets that a node depends on are those of its neighbours. -/
theorem mem_dependencies {u : Pif.Target} :
    u ∈ g.dependencies n ↔ ∃ m ∈ g.neighbours .dependency n, g.target? m = some u := by
  simp [dependencies]

/-! ### Adding nodes and edges -/

theorem wellFormed_empty : WellFormed .empty := ⟨by simp [empty], by simp [empty, edges, node?]⟩

theorem WellFormed.add (h : g.WellFormed) (t : Pif.Target) : (g.add t).WellFormed := by
  rw [Graph.add]
  split
  · exact h
  · next hnone =>
    have hnew : t.guid ∉ g.nodes.map (·.target.guid) := by
      intro hmem
      obtain ⟨node, hnode, he⟩ := List.mem_map.1 hmem
      have hnot := List.findIdx?_eq_none_iff.1 hnone node hnode
      simp [he] at hnot
    constructor
    · rw [List.map_append, List.nodup_append]
      refine ⟨h.guids, by simp, fun x hx y hy hxy => hnew ?_⟩
      rw [List.map_singleton, List.mem_singleton] at hy
      exact hy ▸ hxy ▸ hx
    · intro n e he
      rcases Nat.lt_or_ge n g.nodes.length with hlt | hge
      · have hold : e ∈ g.edges n := by simpa [edges, node?, List.getElem?_append_left hlt] using he
        have hrange := h.inRange n e hold
        simp only [size, List.length_append, List.length_singleton] at hrange ⊢
        omega
      · exfalso
        rw [edges, node?, List.getElem?_append_right hge] at he
        cases hk : n - g.nodes.length with
        | zero => simp [hk] at he
        | succ k => simp [hk] at he

theorem WellFormed.pushEdge (h : g.WellFormed) (owner : Nat) (edge : Edge) :
    (g.pushEdge owner edge).WellFormed := by
  rw [Graph.pushEdge]
  split
  · exact h
  next name hname =>
    split
    · exact h
    constructor
    · have hsame : (g.nodes.modify owner fun node =>
          { node with edges := node.edges ++ [edge] }).map (·.target.guid) =
            g.nodes.map (·.target.guid) := by
        refine List.ext_getElem? fun m => ?_
        rw [List.getElem?_map, List.getElem?_map, List.getElem?_modify]
        by_cases hm : owner = m <;> cases g.nodes[m]? <;> simp [hm]
      exact hsame ▸ h.guids
    · intro n e he
      have hlt : edge.neighbour < g.size := by
        obtain ⟨t, ht, -⟩ := Option.map_eq_some_iff.1 hname
        exact lt_of_target? ht
      simp only [size, List.length_modify]
      simp only [edges, node?, List.getElem?_modify] at he
      cases hnode : g.nodes[n]? with
      | none => simp [hnode] at he
      | some node =>
        have hold : ∀ e ∈ node.edges, e.neighbour < g.size :=
          fun e he => h.inRange n e (by simpa [edges, node?, hnode] using he)
        by_cases hn : owner = n
        · have hmem : e ∈ node.edges ++ [edge] := by simpa [hnode, hn] using he
          rcases List.mem_append.1 hmem with hmem | hmem
          · exact hold e hmem
          · rw [List.mem_singleton.1 hmem]
            exact hlt
        · exact hold e (by simpa [hnode, hn] using he)

theorem WellFormed.addEdge (h : g.WellFormed) (a b : Nat) (kind : EdgeKind) :
    (g.addEdge a b kind).WellFormed := (h.pushEdge _ _).pushEdge _ _

/-- The graph of a snapshot is well formed. -/
theorem wellFormed_build (c : Pif.Cache) (roots : List Pif.Guid) : (build c roots).WellFormed := by
  have hstep : ∀ (g : Graph) event, g.WellFormed → (apply c g event).WellFormed := by
    intro g event h
    cases event with
    | leave a => exact h
    | enter a =>
      rw [apply]
      split
      · exact h.add _
      · exact h
    | edge a b =>
      simp only [apply]
      split
      · exact (h.add _).addEdge _ _ _
      · exact h
  rw [build]
  generalize trace c roots = events
  have hfold : ∀ (g : Graph), g.WellFormed → (events.foldl (apply c) g).WellFormed := by
    induction events with
    | nil => exact fun g h => h
    | cons event rest ih => exact fun g h => ih _ (hstep g event h)
  exact hfold .empty wellFormed_empty

end BitcodeReplay.Graph
