import BitcodeReplay.Graph.Dot
import BitcodeReplay.Proofs.Graph.Build
import BitcodeReplay.Proofs.Graph.WellFormed
import Mathlib.Data.Prod.Lex

/-!
Graphs do not depend on the order of their roots, as long as the targets have names of their own and
no two of them depend on each other. A node then has the direct dependencies of its target and the
targets that depend on it, wherever the traversal has begun; and a text that is sorted shows no more
than these.
-/

namespace BitcodeReplay.Graph

/-! ### Sorted texts -/

/-- Pairs are in lexicographic order. -/
theorem pairLe_iff (p q : String × String) : pairLe p q = true ↔ toLex p ≤ toLex q := by
  rw [pairLe, Bool.or_eq_true, Bool.and_eq_true, decide_eq_true_eq, decide_eq_true_eq, beq_iff_eq]
  exact Prod.Lex.toLex_le_toLex.symm

theorem sortedNames_eq_of_perm {g g' : Graph}
    (h : (g.nodes.map (·.target.name)).Perm (g'.nodes.map (·.target.name))) :
    g.sortedNames = g'.sortedNames := mergeSort_eq_of_perm nameLe_iff Function.injective_id h

theorem sortedPairs_eq_of_perm {g g' : Graph} (h : g.namePairs.Perm g'.namePairs) :
    g.sortedPairs = g'.sortedPairs := by
  rw [sortedPairs, sortedPairs, mergeSort_eq_of_perm pairLe_iff toLex.injective h]

/-- The text of a graph shows the names of its targets and of the ends of dependencies, in whatever
order the nodes come. -/
theorem dot_eq_of_perm {g g' : Graph}
    (hnames : (g.nodes.map (·.target.name)).Perm (g'.nodes.map (·.target.name)))
    (hpairs : g.namePairs.Perm g'.namePairs) : g.dot = g'.dot := by
  unfold dot
  rw [sortedNames_eq_of_perm hnames, sortedPairs_eq_of_perm hpairs]

/-- The names at the ends of dependencies, from the targets alone. -/
theorem namePairs_eq {g : Graph} {next : Pif.Target → List Pif.Target}
    (h : ∀ n u, g.target? n = some u → g.dependencies n = next u) :
    g.namePairs = (g.nodes.map (·.target)).flatMap fun u =>
      (next u).map fun v => (u.name, v.name) := by
  rw [namePairs, List.flatMap_map]
  refine List.flatMap_congr fun node hnode => ?_
  obtain ⟨n, hn⟩ := List.mem_iff_getElem?.1 hnode
  have hdeps : ((node.edges.filter (·.kind == .dependency)).map (·.neighbour)).filterMap
      g.target? = next node.target := by
    rw [← h n node.target (by simp [target?, node?, hn])]
    simp [dependencies, neighbours, edges, node?, hn]
  rw [← hdeps, List.map_filterMap, List.filterMap_map]
  refine List.filterMap_congr fun e _ => ?_
  simp [name?, Function.comp_def]

/-! ### Nodes of targets that do not depend on each other -/

variable {c : Pif.Cache} {roots roots' : List Pif.Guid} {ts : List Pif.Target}

/-- Targets that can be reached have names of their own, and no two of them are direct dependencies
of each other. -/
structure Apart (c : Pif.Cache) (roots : List Pif.Guid) : Prop where
  names : ∀ s t, Reachable c roots s → Reachable c roots t → s.name = t.name → s = t
  oneWay : ∀ s t, Reachable c roots s → t ∈ c.dependencies s → s ∉ c.dependencies t

theorem Reachable.mono (h : roots ⊆ roots') {t : Pif.Target} (ht : Reachable c roots t) :
    Reachable c roots' t := by
  induction ht with
  | root hr ht => exact .root (h hr) ht
  | dependency _ hv ih => exact .dependency ih hv

theorem reachable_congr (h : ∀ a, a ∈ roots ↔ a ∈ roots') {t : Pif.Target} :
    Reachable c roots t ↔ Reachable c roots' t :=
  ⟨Reachable.mono fun a => (h a).1, Reachable.mono fun a => (h a).2⟩

theorem Apart.congr (h : Apart c roots) (hroots : ∀ a, a ∈ roots ↔ a ∈ roots') :
    Apart c roots' where
  names := by
    intro s t hs ht
    exact h.names s t ((reachable_congr hroots).2 hs) ((reachable_congr hroots).2 ht)
  oneWay := by
    intro s t hs
    exact h.oneWay s t ((reachable_congr hroots).2 hs)

theorem mem_nodes_iff {t : Pif.Target} :
    t ∈ (build c roots).nodes.map (·.target) ↔ Reachable c roots t := by
  obtain ⟨ts, h⟩ := draws_trace c roots
  rw [← mem_iff_reachable h, build_eq_drawn h]
  simp [drawn]

theorem reachable_of_target? {n : Nat} {u : Pif.Target} (h : (build c roots).target? n = some u) :
    Reachable c roots u := by
  rw [← mem_nodes_iff]
  obtain ⟨node, hnode, rfl⟩ := target?_eq_some_iff.1 h
  exact List.mem_map_of_mem (List.mem_of_getElem? hnode)

theorem nodup_targets_build (c : Pif.Cache) (roots : List Pif.Guid) :
    ((build c roots).nodes.map (·.target)).Nodup := by
  refine List.Nodup.of_map (·.guid) ?_
  rw [List.map_map]
  exact (wellFormed_build c roots).guids

/-- A node has all direct dependencies of its target, in their order. -/
theorem Apart.dependencies_build (h : Apart c roots) {n : Nat} {u : Pif.Target}
    (hu : (build c roots).target? n = some u) :
    (build c roots).dependencies n = c.dependencies u := by
  obtain ⟨ts, hdraws⟩ := draws_trace c roots
  have hreach := reachable_of_target? hu
  rw [build_eq_drawn hdraws, target?_drawn] at hu
  have hnames : ∀ s ∈ ts, ∀ t ∈ ts, s.name = t.name → s = t := by
    intro s hs t ht
    exact h.names s t ((mem_iff_reachable hdraws).1 hs) ((mem_iff_reachable hdraws).1 ht)
  obtain ⟨hsub, hkept⟩ := dependencies_kept hdraws hnames hu
  have hall : c.dependencies u ⊆ (build c roots).dependencies n :=
    fun v hv => (hkept v hv).1 (h.oneWay u v hreach hv)
  have hnodup : (c.dependencies u).Nodup := (Pif.Cache.nodup_firstOfEach _ _).of_map _
  exact hsub.eq_of_length_le (hnodup.length_le_of_subset hall)

theorem mem_dependers {g : Graph} {n : Nat} {u : Pif.Target} : u ∈ g.dependers n ↔
    ∃ e ∈ g.edges n, e.kind = .depender ∧ g.target? e.neighbour = some u := by
  simp [dependers, neighbours, and_assoc]

/-- The targets that depend on that of a node are those that can be reached and have it for a direct
dependency. -/
theorem Apart.mem_dependers_build (h : Apart c roots) {n : Nat} {u v : Pif.Target}
    (hv : (build c roots).target? n = some v) :
    u ∈ (build c roots).dependers n ↔ Reachable c roots u ∧ v ∈ c.dependencies u := by
  obtain ⟨ts, hdraws⟩ := draws_trace c roots
  have htarget : ∀ m, (build c roots).target? m = ts[m]? := by
    intro m
    rw [build_eq_drawn hdraws, target?_drawn]
  have hnode : ts[n]? = some v := by rw [← htarget, hv]
  constructor
  · intro hmem
    obtain ⟨e, he, hkind, hend⟩ := mem_dependers.1 hmem
    obtain ⟨w, hw, -, hdepender⟩ := dependency_of_mem_edges hdraws hnode he
    obtain rfl : w = u := Option.some.inj (hw.symm.trans hend)
    exact ⟨reachable_of_target? hend, hdepender hkind⟩
  · rintro ⟨hu, hdep⟩
    obtain ⟨m, hm⟩ := List.mem_iff_getElem?.1 ((mem_iff_reachable hdraws).2 hu)
    -- the node has a neighbour of the name, which is the target, and the edge is not the other way
    obtain ⟨-, k, hk, hname⟩ := names_of_mem_dependencies hdraws hm hdep
    obtain rfl : k = n := by
      obtain ⟨hlt, -⟩ := List.getElem?_eq_some_iff.1 (htarget k ▸ hk)
      have hnodup := nodup_targets_build c roots
      rw [build_eq_drawn hdraws] at hnodup
      refine (List.getElem?_inj hlt (by simpa [drawn, Function.comp_def] using hnodup)).1 ?_
      rw [hnode, ← htarget, hk]
    obtain ⟨e, he, hname⟩ := List.mem_filterMap.1 hname
    obtain ⟨w, hw, hdependency, -⟩ := dependency_of_mem_edges hdraws hnode he
    obtain rfl : w = u := by
      refine h.names w u (reachable_of_target? hw) hu ?_
      simpa [name?, hw] using hname
    refine mem_dependers.2 ⟨e, he, ?_, hw⟩
    cases hkind : e.kind with
    | depender => rfl
    | dependency => exact absurd (hdependency hkind) (h.oneWay w v hu hdep)

/-- Roots in another order, or given again, make a graph of the same targets, each with the same
dependencies and the same targets that depend on it, and of the same text. -/
theorem build_of_same_roots (c : Pif.Cache) (roots roots' : List Pif.Guid)
    (hroots : ∀ a, a ∈ roots ↔ a ∈ roots')
    (hnames : ∀ s t, Reachable c roots s → Reachable c roots t → s.name = t.name → s = t)
    (honeWay : ∀ s t, Reachable c roots s → Reachable c roots t →
      ¬ (t ∈ c.dependencies s ∧ s ∈ c.dependencies t)) :
    ((build c roots).nodes.map (·.target)).Perm ((build c roots').nodes.map (·.target)) ∧
    (∀ n m u, (build c roots).target? n = some u → (build c roots').target? m = some u →
      (build c roots).dependencies n = (build c roots').dependencies m ∧
      ∀ v, v ∈ (build c roots).dependers n ↔ v ∈ (build c roots').dependers m) ∧
    (build c roots).dot = (build c roots').dot := by
  have hapart : Apart c roots :=
    ⟨hnames, fun s t hs ht hst => honeWay s t hs (.dependency hs ht) ⟨ht, hst⟩⟩
  have hapart' := hapart.congr hroots
  have hperm : ((build c roots).nodes.map (·.target)).Perm
      ((build c roots').nodes.map (·.target)) := by
    refine (List.perm_ext_iff_of_nodup (nodup_targets_build _ _) (nodup_targets_build _ _)).2 ?_
    intro t
    rw [mem_nodes_iff, mem_nodes_iff, reachable_congr hroots]
  refine ⟨hperm, fun n m u hn hm => ⟨?_, fun v => ?_⟩, dot_eq_of_perm ?_ ?_⟩
  · rw [hapart.dependencies_build hn, hapart'.dependencies_build hm]
  · rw [hapart.mem_dependers_build hn, hapart'.mem_dependers_build hm, reachable_congr hroots]
  · simpa [Function.comp_def] using hperm.map (·.name)
  · rw [namePairs_eq fun _ _ => hapart.dependencies_build,
      namePairs_eq fun _ _ => hapart'.dependencies_build]
    exact hperm.flatMap_right _

/-- An app with two libraries over one base. The traversal meets the libraries as they are given. -/
def diamondCache : Pif.Cache :=
  ⟨⟨"W", "Diamond", "/w", []⟩, [],
    [⟨.standard, "APP", "App", [⟨"L", []⟩, ⟨"R", []⟩], [], [], .application, "App.app"⟩,
      ⟨.standard, "L", "Left", [⟨"B", []⟩], [], [], .staticLibrary, "Left.a"⟩,
      ⟨.standard, "R", "Right", [⟨"B", []⟩], [], [], .staticLibrary, "Right.a"⟩,
      ⟨.standard, "B", "Base", [], [], [], .staticLibrary, "Base.a"⟩]⟩

theorem trace_diamond :
    trace diamondCache ["APP", "R"] =
      [.enter "APP", .edge "APP" "L", .enter "L", .edge "L" "B", .enter "B", .leave "B", .leave "L",
        .edge "APP" "R", .enter "R", .edge "R" "B", .leave "R", .leave "APP"] ∧
    trace diamondCache ["R", "APP", "R"] =
      [.enter "R", .edge "R" "B", .enter "B", .leave "B", .leave "R", .enter "APP",
        .edge "APP" "L", .enter "L", .edge "L" "B", .leave "L", .edge "APP" "R", .leave "APP"] := by
  have hguids : diamondCache.guids = ["APP", "L", "R", "B"] := by decide
  have hnext : diamondCache.dependencyGuids "APP" = ["L", "R"] ∧
      diamondCache.dependencyGuids "L" = ["B"] ∧ diamondCache.dependencyGuids "R" = ["B"] ∧
      diamondCache.dependencyGuids "B" = [] := by decide
  constructor <;> simp [trace, hguids, Traversal.run, Traversal.tasksOf, hnext]

theorem build_of_same_roots_diamond :
    (build diamondCache ["APP", "R"]).nodes.map (·.target.name) =
      ["App", "Left", "Base", "Right"] ∧
    (build diamondCache ["R", "APP", "R"]).nodes.map (·.target.name) =
      ["Right", "Base", "App", "Left"] ∧
    (build diamondCache ["APP", "R"]).dot = (build diamondCache ["R", "APP", "R"]).dot := by
  have hknown : ∀ t, Reachable diamondCache ["APP", "R"] t → t ∈ diamondCache.targets :=
    fun t ht => List.mem_of_find?_eq_some ht.target?
  have hnames : (diamondCache.targets.map (·.name)).Nodup := by decide
  have honeWay : ∀ s ∈ diamondCache.targets, ∀ t ∈ diamondCache.targets,
      ¬ (t.guid ∈ diamondCache.dependencyGuids s.guid ∧
        s.guid ∈ diamondCache.dependencyGuids t.guid) := by decide
  obtain ⟨-, -, hdot⟩ := build_of_same_roots diamondCache ["APP", "R"] ["R", "APP", "R"]
    (by simp [or_comm])
    (fun s t hs ht => List.inj_on_of_nodup_map hnames (hknown s hs) (hknown t ht))
    (fun s t hs ht hboth => honeWay s (hknown s hs) t (hknown t ht) (by
      rw [Pif.Cache.dependencyGuids_eq hs.target?, Pif.Cache.dependencyGuids_eq ht.target?]
      exact ⟨List.mem_map_of_mem hboth.1, List.mem_map_of_mem hboth.2⟩))
  rw [build, build, trace_diamond.1, trace_diamond.2] at hdot ⊢
  exact ⟨by rfl, by rfl, hdot⟩

end BitcodeReplay.Graph
