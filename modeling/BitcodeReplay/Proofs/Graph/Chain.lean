import BitcodeReplay.Proofs.Graph.Operations
import BitcodeReplay.Proofs.Traversal.PostOrder

/-!
Chains. The chain of a node holds the targets of the nodes to which edges of either kind lead, each once
and behind those that its own edges lead to, unless these lead back to it. Where targets have names of
their own, edges can be followed both ways, and all nodes of a chain have the same chain but for its
order.
-/

namespace BitcodeReplay.Graph

open Traversal

/-- An edge of either kind leads from one node to the other. -/
def Adjacent (g : Graph) (u v : Nat) : Prop := ∃ e ∈ g.edges u, e.neighbour = v

/-- A path of such edges leads from one node to the other. -/
def Reaches (g : Graph) : Nat → Nat → Prop := Relation.ReflTransGen g.Adjacent

variable {g : Graph} {a b m n u v : Nat} {kind : EdgeKind} {s t : Pif.Target}
  {operations : List Operation}

/-! ### Edges seen from their ends -/

theorem lt_size_pushEdge {owner : Nat} {e : Edge} (h : n < g.size) :
    n < (g.pushEdge owner e).size := by
  obtain ⟨t, ht⟩ := target?_of_lt h
  exact lt_of_target? (target?_pushEdge.trans ht)

/-- Where names differ, an edge that is not added is one that was there. -/
theorem NamesApart.adjacent_pushEdge (h : NamesApart g) (ha : a < g.size) (hb : b < g.size) :
    (g.pushEdge a ⟨b, kind⟩).Adjacent u v ↔ g.Adjacent u v ∨ (u = a ∧ v = b) := by
  classical
  simp only [Adjacent, edges_pushEdge, List.mem_append]
  constructor
  · rintro ⟨e, he | he, rfl⟩
    · exact .inl ⟨e, he, rfl⟩
    · split at he
      · next hnew =>
        rw [List.mem_singleton.1 he]
        exact .inr ⟨hnew.1, rfl⟩
      · cases he
  · rintro (⟨e, he, rfl⟩ | ⟨rfl, rfl⟩)
    · exact ⟨e, .inl he, rfl⟩
    · by_cases hnew : IsNew g u ⟨v, kind⟩
      · exact ⟨⟨v, kind⟩, .inr (by simp [hnew]), rfl⟩
      · rw [h.isNew_iff ha hb, not_forall] at hnew
        obtain ⟨k, hk⟩ := hnew
        exact ⟨⟨v, k⟩, .inl (not_not.1 hk), rfl⟩

theorem NamesApart.adjacent_addEdge (h : NamesApart g) (ha : a < g.size) (hb : b < g.size) :
    (g.addEdge a b kind).Adjacent u v ↔
      g.Adjacent u v ∨ (u = a ∧ v = b) ∨ (u = b ∧ v = a) := by
  have hpush : NamesApart (g.pushEdge a ⟨b, kind⟩) := by simpa [NamesApart] using h
  rw [addEdge, hpush.adjacent_pushEdge (lt_size_pushEdge hb) (lt_size_pushEdge ha),
    h.adjacent_pushEdge ha hb, or_assoc]

/-- Whatever its kind, every edge has one that leads back. -/
theorem adjacent_symm (hnames : NamesApart (ofOperations operations)) :
    ∀ u v, (ofOperations operations).Adjacent u v → (ofOperations operations).Adjacent v u := by
  induction operations using List.reverseRecOn with
  | nil =>
    rintro u v ⟨e, he, -⟩
    simp [ofOperations, edges, node?, empty] at he
  | append_singleton operations operation ih =>
    have hext := extends_ofOperations operations [operation]
    have hbefore : NamesApart (ofOperations operations) :=
      fun m n name hm hn => hnames m n name (hext.name? hm) (hext.name? hn)
    have hsymm := ih hbefore
    rw [ofOperations_concat]
    cases operation with
    | target t =>
      intro u v huv
      simp only [Adjacent, operate, edges_add] at huv ⊢
      exact hsymm u v huv
    | relation a b kind =>
      by_cases hexist : a < (ofOperations operations).size ∧ b < (ofOperations operations).size
      · intro u v huv
        rw [operate, hbefore.adjacent_addEdge hexist.1 hexist.2] at huv ⊢
        rcases huv with huv | ⟨rfl, rfl⟩ | ⟨rfl, rfl⟩
        · exact .inl (hsymm u v huv)
        · exact .inr (.inr ⟨rfl, rfl⟩)
        · exact .inr (.inl ⟨rfl, rfl⟩)
      · rwa [operate, addEdge_of_not_lt hexist]

/-! ### The nodes of a chain -/

/-- The ends of a node's edges. -/
abbrev ends (g : Graph) (n : Nat) : List Nat := (g.edges n).map (·.neighbour)

theorem mem_ends_iff : v ∈ g.ends u ↔ g.Adjacent u v := by simp [Adjacent]

theorem follows_ends : Follows g.ends = g.Adjacent :=
  funext fun _ => funext fun _ => propext mem_ends_iff

theorem chainNodes_eq (g : Graph) (n : Nat) :
    g.chainNodes n = left (run g.ends (List.range g.size) [.visit n] []) := rfl

theorem chainNodes_of_missing (h : ¬ n < g.size) : g.chainNodes n = [] := by
  rw [chainNodes_eq, run_visit_stale (fun hn => h (List.mem_range.1 hn.1)), run_nil]
  rfl

theorem unwound_chainNodes (g : Graph) (n : Nat) :
    Unwound g.ends (List.range g.size) (g.chainNodes n) := by
  have hempty : Unwound g.ends (List.range g.size) [] := ⟨List.nodup_nil, by simp⟩
  exact run_unwound hempty (fun v => Iff.rfl) n

theorem WellFormed.mem_chainNodes_iff (h : g.WellFormed) (hn : n < g.size) :
    m ∈ g.chainNodes n ↔ g.Reaches n m := by
  have hadjacent : (fun x y => y ∈ g.ends x ∧ y ∈ List.range g.size) = g.Adjacent := by
    funext x y
    refine propext ⟨fun hxy => mem_ends_iff.1 hxy.1, fun hxy => ⟨mem_ends_iff.2 hxy, ?_⟩⟩
    obtain ⟨e, he, rfl⟩ := hxy
    exact List.mem_range.2 (h.inRange x e he)
  have hleft := mem_entered_iff_left g.ends (List.range g.size) [] n m
  rw [List.append_nil, List.append_nil] at hleft
  rw [chainNodes_eq, ← hleft, Reaches, ← hadjacent]
  have hmet := isDiscoveryOrder_entered g.ends (List.range g.size) [n]
  simpa [hn] using hmet.mem_iff (a := m)

/-- The node itself comes last. -/
theorem chainNodes_eq_concat (hn : n < g.size) : ∃ front, g.chainNodes n = front ++ [n] :=
  ⟨_, left_run_visit (List.mem_range.2 hn) List.not_mem_nil⟩

/-- Whatever an edge of a node of the chain leads to is in the chain, and before the node unless the
node can be reached from there. -/
theorem WellFormed.chainNodes_adjacent (h : g.WellFormed) (hn : n < g.size)
    (hu : u ∈ g.chainNodes n) (huv : g.Adjacent u v) : v ∈ g.chainNodes n ∧
      ∀ front back, g.chainNodes n = front ++ u :: back → v ∈ front ∨ g.Reaches v u := by
  have hv : v ∈ g.chainNodes n := by
    rw [h.mem_chainNodes_iff hn] at hu ⊢
    exact hu.tail huv
  refine ⟨hv, fun front back heq => ?_⟩
  obtain ⟨e, he, rfl⟩ := huv
  rw [Reaches, ← follows_ends]
  exact (unwound_chainNodes g n).earlier front u back heq _ (List.mem_map_of_mem he)
    (List.mem_range.2 (h.inRange u e he))

/-! ### Chains of targets -/

theorem mem_chain : t ∈ g.chain n ↔ ∃ m ∈ g.chainNodes n, g.target? m = some t :=
  List.mem_filterMap

theorem WellFormed.eq_of_target? (h : g.WellFormed) (hm : g.target? m = some t)
    (hn : g.target? n = some t) : m = n := by
  have hfound := h.findGuid?_eq_some_iff.2 ⟨t, hm, rfl⟩
  rw [h.findGuid?_eq_some_iff.2 ⟨t, hn, rfl⟩] at hfound
  exact (Option.some.inj hfound).symm

theorem WellFormed.mem_chain_iff (h : g.WellFormed) (hm : g.target? m = some t) :
    t ∈ g.chain n ↔ m ∈ g.chainNodes n := by
  rw [mem_chain]
  constructor
  · rintro ⟨k, hk, ht⟩
    rwa [h.eq_of_target? hm ht]
  · exact fun hmem => ⟨m, hmem, hm⟩

theorem WellFormed.nodup_chain (h : g.WellFormed) (n : Nat) : (g.chain n).Nodup :=
  (unwound_chainNodes g n).nodup.filterMap fun _ _ _ hm hn => h.eq_of_target? hm hn

theorem getLast?_chain (hn : g.target? n = some t) : (g.chain n).getLast? = some t := by
  obtain ⟨front, hchain⟩ := chainNodes_eq_concat (lt_of_target? hn)
  simp [chain, hchain, hn]

/-- One node before another in the chain has its target before that of the other. -/
theorem sublist_chain {front back : List Nat} (hchain : g.chainNodes n = front ++ u :: back)
    (hv : v ∈ front) (hs : g.target? u = some s) (ht : g.target? v = some t) :
    [t, s].Sublist (g.chain n) := by
  have hfront : t ∈ front.filterMap g.target? := List.mem_filterMap.2 ⟨v, hv, ht⟩
  rw [chain, hchain, List.filterMap_append, List.filterMap_cons_some hs]
  exact (List.singleton_sublist.2 hfront).append
    (List.singleton_sublist.2 (List.mem_cons_self (a := s)))

theorem WellFormed.mem_chain_iff_reaches (h : g.WellFormed) (hn : n < g.size) :
    s ∈ g.chain n ↔ ∃ m, g.Reaches n m ∧ g.target? m = some s := by
  rw [mem_chain]
  exact exists_congr fun m => and_congr_left fun _ => h.mem_chainNodes_iff hn

theorem WellFormed.reaches_of_mem_chain (h : g.WellFormed) (ha : a < g.size)
    (hb : g.target? b = some t) : t ∈ g.chain a ↔ g.Reaches a b :=
  (h.mem_chain_iff hb).trans (h.mem_chainNodes_iff ha)

/-! ### Edges that can be followed both ways -/

theorem reaches_symm (h : ∀ u v, g.Adjacent u v → g.Adjacent v u) (hab : g.Reaches a b) :
    g.Reaches b a := by
  induction hab with
  | refl => exact .refl
  | tail _ hstep ih => exact ih.head (h _ _ hstep)

theorem WellFormed.chain_perm (h : g.WellFormed) (ha : a < g.size) (hb : b < g.size)
    (hab : g.Reaches a b) (hba : g.Reaches b a) : (g.chain a).Perm (g.chain b) := by
  refine (List.perm_ext_iff_of_nodup (h.nodup_chain a) (h.nodup_chain b)).2 fun s => ?_
  rw [h.mem_chain_iff_reaches ha, h.mem_chain_iff_reaches hb]
  constructor
  · rintro ⟨m, hm, hs⟩
    exact ⟨m, hba.trans hm, hs⟩
  · rintro ⟨m, hm, hs⟩
    exact ⟨m, hab.trans hm, hs⟩

theorem namesApart_of_nodup (h : (g.nodes.map (·.target.name)).Nodup) : NamesApart g := by
  intro m n name hm hn
  have hget : ∀ k, g.name? k = (g.nodes.map (·.target.name))[k]? := by
    intro k
    simp [name?, target?, node?, Function.comp_def]
  have hlt : m < (g.nodes.map (·.target.name)).length := by
    rw [hget] at hm
    exact (List.getElem?_eq_some_iff.1 hm).1
  exact (List.getElem?_inj hlt h).1 (by rw [← hget, ← hget, hm, hn])

/-- The chain of a node that does not exist is empty. That of any other holds the targets of all nodes
to which edges lead, each once and the node's own last. For every edge of these nodes the target at its
end is in the chain too, and comes first unless edges lead from there back to the node. Where targets
have names of their own, the nodes of a chain all have the same one but for its order. -/
theorem chain_postOrder (operations : List Operation) :
    (∀ n, (ofOperations operations).target? n = none → (ofOperations operations).chain n = []) ∧
    (∀ n t, (ofOperations operations).target? n = some t →
      ((ofOperations operations).chain n).Nodup ∧
      ((ofOperations operations).chain n).getLast? = some t ∧
      ∀ s, s ∈ (ofOperations operations).chain n ↔
        ∃ m, (ofOperations operations).Reaches n m ∧
          (ofOperations operations).target? m = some s) ∧
    (∀ n u s, (ofOperations operations).target? u = some s →
      s ∈ (ofOperations operations).chain n →
      ∀ e ∈ (ofOperations operations).edges u,
        ∃ t, (ofOperations operations).target? e.neighbour = some t ∧
          t ∈ (ofOperations operations).chain n ∧
          ([t, s].Sublist ((ofOperations operations).chain n) ∨
            (ofOperations operations).Reaches e.neighbour u)) ∧
    (((ofOperations operations).nodes.map (·.target.name)).Nodup →
      ∀ a b s t, (ofOperations operations).target? a = some s →
        (ofOperations operations).target? b = some t →
        (t ∈ (ofOperations operations).chain a ↔ s ∈ (ofOperations operations).chain b) ∧
        (t ∈ (ofOperations operations).chain a →
          ((ofOperations operations).chain a).Perm ((ofOperations operations).chain b))) := by
  have hwf := wellFormed_ofOperations operations
  refine ⟨fun n hnone => ?_, fun n t ht => ⟨hwf.nodup_chain n, getLast?_chain ht, fun s => ?_⟩,
    fun n u s hu hs e he => ?_, fun hnames a b s t ha hb => ?_⟩
  · have hn : ¬ n < (ofOperations operations).size := by
      intro hn
      obtain ⟨t, ht⟩ := target?_of_lt hn
      simp [hnone] at ht
    simp [chain, chainNodes_of_missing hn]
  · exact hwf.mem_chain_iff_reaches (lt_of_target? ht)
  · have hnode := (hwf.mem_chain_iff hu).1 hs
    have hn : n < (ofOperations operations).size := by
      by_contra hmissing
      simp [chainNodes_of_missing hmissing] at hnode
    obtain ⟨hend, hbefore⟩ := hwf.chainNodes_adjacent hn hnode ⟨e, he, rfl⟩
    obtain ⟨t, ht⟩ := target?_of_lt (hwf.inRange u e he)
    obtain ⟨front, back, hchain⟩ := List.append_of_mem hnode
    exact ⟨t, ht, (hwf.mem_chain_iff ht).2 hend,
      (hbefore front back hchain).imp_left fun hfront => sublist_chain hchain hfront hu ht⟩
  · have hsymm := adjacent_symm (namesApart_of_nodup hnames)
    rw [hwf.reaches_of_mem_chain (lt_of_target? ha) hb,
      hwf.reaches_of_mem_chain (lt_of_target? hb) ha]
    exact ⟨⟨reaches_symm hsymm, reaches_symm hsymm⟩, fun hab =>
      hwf.chain_perm (lt_of_target? ha) (lt_of_target? hb) hab (reaches_symm hsymm hab)⟩

/-- Three targets that depend on each other in a ring. -/
def ringTarget (name : String) : Pif.Target :=
  ⟨.standard, name, name, [], [], [], .framework, name ++ ".framework"⟩

def ringOperations : List Operation :=
  [.target (ringTarget "App"), .target (ringTarget "Core"), .target (ringTarget "Base"),
    .relation 0 1 .dependency, .relation 1 2 .dependency, .relation 2 0 .dependency]

theorem chain_postOrder_ring :
    (ofOperations ringOperations).chain 3 = [] ∧
    ((ofOperations ringOperations).chain 0).getLast? = some (ringTarget "App") ∧
    ringTarget "Base" ∈ (ofOperations ringOperations).chain 0 ∧
    ([ringTarget "App", ringTarget "Base"].Sublist ((ofOperations ringOperations).chain 0) ∨
      (ofOperations ringOperations).Reaches 0 2) ∧
    ((ofOperations ringOperations).chain 0).Perm ((ofOperations ringOperations).chain 2) := by
  obtain ⟨hmissing, hchain, hedges, hnames⟩ := chain_postOrder ringOperations
  have happ : (ofOperations ringOperations).target? 0 = some (ringTarget "App") := rfl
  have hbase : (ofOperations ringOperations).target? 2 = some (ringTarget "Base") := rfl
  have hedgesApp : (ofOperations ringOperations).edges 0 = [⟨1, .dependency⟩, ⟨2, .depender⟩] := rfl
  have hedgesBase : (ofOperations ringOperations).edges 2 = [⟨1, .depender⟩, ⟨0, .dependency⟩] := rfl
  obtain ⟨-, hlast, hmem⟩ := hchain 0 _ happ
  have hbaseMem : ringTarget "Base" ∈ (ofOperations ringOperations).chain 0 :=
    (hmem _).2 ⟨2, .single ⟨⟨2, .depender⟩, by simp [hedgesApp], rfl⟩, hbase⟩
  obtain ⟨t, ht, -, hbefore⟩ := hedges 0 2 _ hbase hbaseMem ⟨0, .dependency⟩ (by simp [hedgesBase])
  obtain rfl : ringTarget "App" = t := Option.some.inj (happ.symm.trans ht)
  exact ⟨hmissing 3 rfl, hlast, hbaseMem, hbefore,
    (hnames (by decide) 0 2 _ _ happ hbase).2 hbaseMem⟩

end BitcodeReplay.Graph
