import BitcodeReplay.Proofs.Plan.Products

/-!
Which directories come before which when products are merged. A directory that is found for one
target only comes after those of all targets that this one depends on. Where targets share a
directory, the first of them to be left puts it in its place, and dependencies of the others may
come later.
-/

namespace BitcodeReplay

open Replay Traversal

namespace ProductTree

/-- One name stands before another. -/
def Precedes (a b : String) (order : List String) : Prop :=
  ∃ front mid back, order = front ++ a :: mid ++ b :: back

/-- The directory that the target of a node is found in. -/
def foundAt (p : ProductTree) (g : Graph) (n : Nat) : Option String :=
  (g.target? n).bind p.directory?

variable {p : ProductTree} {g : Graph} {a b name product dependency : String}
  {order more : List String} {nodes seen : List Nat} {n k m : Nat}

theorem Precedes.append (h : Precedes a b order) (more : List String) :
    Precedes a b (order ++ more) := by
  obtain ⟨front, mid, back, rfl⟩ := h
  exact ⟨front, mid, back ++ more, by simp⟩

theorem precedes_concat (h : a ∈ order) (b : String) : Precedes a b (order ++ [b]) := by
  obtain ⟨front, mid, rfl⟩ := List.append_of_mem h
  exact ⟨front, mid, [], by simp⟩

/-- Of two names that come once, only one stands before the other. -/
theorem Precedes.asymm (h : Precedes a b order) (hnodup : order.Nodup) : ¬ Precedes b a order := by
  obtain ⟨front, mid, back, rfl⟩ := h
  rintro ⟨front', mid', back', heq⟩
  rw [List.append_assoc front', List.cons_append] at heq
  obtain ⟨hbefore, hbehind⟩ := not_or.1 (mt List.mem_append.2 (List.nodup_middle.1 hnodup).notMem)
  obtain ⟨rfl, -, rfl⟩ := (List.append_cons_inj_of_notMem hbefore hbehind).1 heq
  have ha : a ∈ front ++ a :: mid := by simp
  exact (List.nodup_append.1 hnodup).2.2 a ha a (by simp) rfl

theorem addName_eq_append (order : List String) (name : String) :
    ∃ more, addName order name = order ++ more := by
  rw [addName]
  split
  · exact ⟨[], by simp⟩
  · exact ⟨[name], rfl⟩

/-- What the order says about a product and a dependency of its node, once some nodes have been
left. -/
structure Places (p : ProductTree) (g : Graph) (n : Nat) (product dependency : String)
    (nodes : List Nat) (order : List String) : Prop where
  unseen : n ∉ nodes → product ∉ order
  listed : ∀ m ∈ nodes, ∀ name, p.foundAt g m = some name → name ∈ order
  precedes : n ∈ nodes → Precedes dependency product order

/-- Adding another name changes nothing about the product. -/
theorem Places.addName (hplaces : Places p g n product dependency nodes order)
    (hname : name ≠ product) : Places p g n product dependency nodes
      (ProductTree.addName order name) where
  unseen hn hmem := by
    rcases mem_addName.1 hmem with hmem | he
    · exact hplaces.unseen hn hmem
    · exact hname he.symm
  listed m hm name' hfound := mem_addName.2 (.inl (hplaces.listed m hm name' hfound))
  precedes hn := by
    obtain ⟨more, hmore⟩ := addName_eq_append order name
    rw [hmore]
    exact (hplaces.precedes hn).append more

/-- A node that is left elsewhere changes nothing about the product. -/
theorem Places.leave_other (hplaces : Places p g n product dependency nodes order) (hne : n ≠ m)
    (hlisted : ∀ name, p.foundAt g m = some name → name ∈ order) :
    Places p g n product dependency (nodes ++ [m]) order where
  unseen hn := hplaces.unseen fun hmem => hn (List.mem_append_left _ hmem)
  listed l hl name hfound := by
    rcases List.mem_append.1 hl with hl | hl
    · exact hplaces.listed l hl name hfound
    · exact hlisted name (List.mem_singleton.1 hl ▸ hfound)
  precedes hn := hplaces.precedes ((List.mem_append.1 hn).resolve_right fun he =>
    hne (List.mem_singleton.1 he))

/-- A product that is found at one node only, and a node that this one depends on. -/
structure ReachedOnce (p : ProductTree) (g : Graph) (n k : Nat) (product dependency : String) :
    Prop where
  node : p.node? g product = some n
  found : p.foundAt g n = some product
  only : ∀ m, p.foundAt g m = some product → m = n
  next : k ∈ dependencyNodes g n ∧ k < g.size
  other : p.foundAt g k = some dependency
  ne : dependency ≠ product

variable (h : ReachedOnce p g n k product dependency)

include h

/-- The next node to be left keeps the product behind its dependency. -/
theorem ReachedOnce.leave_places (hplaces : Places p g n product dependency nodes order)
    (hordered : PostOrdered (dependencyNodes g) (List.range g.size) (nodes ++ [m])) :
    Places p g n product dependency (nodes ++ [m]) (p.addDirectories g order [m]) := by
  have hadd : p.addDirectories g order [m] = ((p.foundAt g m).map (addName order)).getD order := by
    rw [addDirectories, foundAt]
    cases hm : (g.target? m).bind p.directory? <;> simp [hm]
  rw [hadd]
  cases hm : p.foundAt g m with
  | none =>
    have hne : n ≠ m := by
      rintro rfl
      rw [h.found] at hm
      cases hm
    exact hplaces.leave_other hne fun name hfound => by simp [hm] at hfound
  | some name =>
    simp only [Option.map_some, Option.getD_some]
    have hown : ∀ name', p.foundAt g m = some name' → name' ∈ addName order name := by
      intro name' hfound
      rw [hm] at hfound
      exact mem_addName.2 (.inr (Option.some.inj hfound).symm)
    by_cases hname : name = product
    · obtain rfl : m = n := h.only m (hname ▸ hm)
      have hfirst : m ∉ nodes := fun hmem =>
        (List.nodup_append.1 hordered.nodup).2.2 m hmem m (by simp) rfl
      have hearlier : k ∈ nodes :=
        hordered.earlier nodes m [] rfl k h.next.1 (List.mem_range.2 h.next.2)
      have hbefore := precedes_concat (hplaces.listed k hearlier dependency h.other) product
      refine ⟨fun hn => absurd (by simp) hn, fun l hl name' hfound => ?_, fun _ => ?_⟩
      · rcases List.mem_append.1 hl with hl | hl
        · exact mem_addName.2 (.inl (hplaces.listed l hl name' hfound))
        · exact hown name' (List.mem_singleton.1 hl ▸ hfound)
      · rw [hname, addName, if_neg (hplaces.unseen hfirst)]
        exact hbefore
    · have hne : n ≠ m := by
        rintro rfl
        rw [h.found] at hm
        exact hname (Option.some.inj hm).symm
      exact (hplaces.addName hname).leave_other hne hown

/-- So do all nodes that a traversal leaves. -/
theorem ReachedOnce.addDirectories_places (hplaces : Places p g n product dependency nodes order)
    {left : List Nat}
    (hordered : PostOrdered (dependencyNodes g) (List.range g.size) (nodes ++ left)) :
    Places p g n product dependency (nodes ++ left) (p.addDirectories g order left) := by
  induction left using List.reverseRecOn with
  | nil => simpa [addDirectories] using hplaces
  | append_singleton left m ih =>
    rw [← List.append_assoc] at hordered ⊢
    have hadd : p.addDirectories g order (left ++ [m]) =
        p.addDirectories g (p.addDirectories g order left) [m] := by
      simp only [addDirectories, List.filterMap_append, List.foldl_append]
    rw [hadd]
    exact h.leave_places (ih hordered.of_concat) hordered

/-- From products on, the product comes behind its dependency once its node has been left. -/
theorem ReachedOnce.orderFrom_places (hg : g.WellFormed) (hacyclic : g.Acyclic)
    (products : List String) (hplaces : Places p g n product dependency nodes order)
    (hordered : PostOrdered (dependencyNodes g) (List.range g.size) nodes)
    (hseen : ∀ v, v ∈ seen ↔ v ∈ nodes) :
    ∃ later, nodes ⊆ later ∧ (product ∈ products → n ∈ later) ∧
      Places p g n product dependency later (p.orderFrom g products seen order) := by
  induction products generalizing nodes seen order with
  | nil => exact ⟨nodes, List.Subset.refl _, by simp, hplaces⟩
  | cons first rest ih =>
    rw [orderFrom]
    cases hfirst : p.node? g first with
    | none =>
      have hne : first ≠ product := by
        rintro rfl
        rw [h.node] at hfirst
        cases hfirst
      obtain ⟨later, hsub, hmem, hlater⟩ := ih (hplaces.addName hne) hordered hseen
      exact ⟨later, hsub, fun hproduct => hmem ((List.mem_cons.1 hproduct).resolve_left hne.symm),
        hlater⟩
    | some v =>
      obtain ⟨hrun, hentered, hleft⟩ :=
        run_postOrdered (not_follows_self hg hacyclic) hordered hseen v
      obtain ⟨later, hsub, hmem, hlater⟩ := ih (h.addDirectories_places hplaces hrun) hrun hentered
      refine ⟨later, fun x hx => hsub (List.mem_append_left _ hx), fun hproduct => ?_, hlater⟩
      rcases List.mem_cons.1 hproduct with rfl | hrest
      · obtain rfl : n = v := Option.some.inj (h.node.symm.trans hfirst)
        have hsize : n < g.size := by
          obtain ⟨u, hu, -⟩ := Option.bind_eq_some_iff.1 h.found
          exact Graph.lt_of_target? hu
        exact hsub (hleft (List.mem_range.2 hsize))
      · exact hmem hrest

theorem ReachedOnce.mergeOrder_precedes (hg : g.WellFormed) (hacyclic : g.Acyclic)
    (hproduct : product ∈ p.names) : Precedes dependency product (p.mergeOrder g) := by
  have hstart : Places p g n product dependency [] [] := ⟨by simp, by simp, by simp⟩
  obtain ⟨later, -, hmem, hplaces⟩ := h.orderFrom_places hg hacyclic p.names hstart
    ⟨List.nodup_nil, by simp⟩ fun _ => Iff.rfl
  exact hplaces.precedes (hmem hproduct)

end ProductTree

/-- The targets of the roots are in the graph. -/
theorem Graph.exists_node_of_root {c : Pif.Cache} {roots : List Pif.Guid} {r : Pif.Guid}
    {u : Pif.Target} (hr : r ∈ roots) (hu : c.target? r = some u) :
    ∃ n, (build c roots).target? n = some u := by
  obtain ⟨ts, hdraws⟩ := draws_trace c roots
  simp only [build_eq_drawn hdraws, target?_drawn]
  exact List.mem_iff_getElem?.1 ((mem_iff_reachable hdraws).2 (.root hr hu))

namespace Plan

open ProductTree Pipeline

variable {i : Inputs} {archived : List String} {p : ProductTree} {n : Nat}
  {product dependency : String}

/-- No target of the graph answers to a name that the snapshot does not know. -/
theorem find?_of_unknown {c : Pif.Cache} {roots : List Pif.Guid} {name : String}
    (h : c.targetNamed? name = none) : (Graph.build c roots).find? name = none := by
  simp only [Pif.Cache.targetNamed?, Option.orElse_eq_orElse, Option.orElse_eq_or,
    Option.or_eq_none_iff, List.find?_eq_none] at h
  obtain ⟨hname, hanswers⟩ := h
  have hmem : ∀ node ∈ (Graph.build c roots).nodes, node.target ∈ c.targets := by
    intro node hnode
    obtain ⟨n, hn⟩ := List.mem_iff_getElem?.1 hnode
    exact Graph.mem_targets_of_build (Graph.target?_eq_some_iff.2 ⟨node, hn, rfl⟩)
  simp only [Graph.find?, Option.orElse_eq_orElse, Option.orElse_eq_or, Option.or_eq_none_iff,
    List.findIdx?_eq_none_iff]
  exact ⟨fun node hnode => by simpa using hname _ (hmem node hnode),
    fun node hnode => by simpa using hanswers _ (hmem node hnode)⟩

/-- The node of a product is that of the target which came first in its directory. -/
theorem foundAt_of_node? (ht : i.transcript.targetNames.Nodup) (hc : i.cache.guids.Nodup)
    (hp : p.products = (jobs i.transcript i.cache archived).map fun j => (j.directory, j.guid))
    (hproduct : product ∈ p.names) (hn : p.node? i.graph product = some n) :
    p.foundAt i.graph n = some product := by
  rw [names_planned hp] at hproduct
  obtain ⟨j, hj, rfl⟩ := List.mem_map.1 hproduct
  have hnames : (p.products.map (·.1)).Nodup := by
    have hdirectories := (partitions_jobs ht hc archived).directories
    rwa [← names_planned hp] at hdirectories
  have hguid? : p.guid? j.directory = j.guid := by
    rw [guid?, lookup_of_mem hnames (hp ▸ List.mem_map_of_mem hj), Option.getD_some]
  obtain ⟨first, rest, hfirst, hguid⟩ := exists_first ht hj
  obtain ⟨hmem, -, hdirectory⟩ := directoryOf_of_first hfirst
  cases hu : i.cache.targetNamed? first.1 with
  | none =>
    rw [hu, Option.map_none] at hguid
    have hname : j.directory = first.1 := by rw [← hdirectory, directoryOf, hu, rootDirectory]
    rw [node?, hguid?, hguid, hname, Inputs.graph, find?_of_unknown hu] at hn
    cases hn
  | some u =>
    rw [hu, Option.map_some] at hguid
    have hutargets := Pif.Cache.mem_of_targetNamed? hu
    have hutarget := Pif.Cache.target?_of_mem hc hutargets
    have hroot : u.guid ∈ (roots i.transcript i.cache).filterMap fun root =>
        root.2.map (·.guid) :=
      List.mem_filterMap.2 ⟨(first.1, some u), List.mem_map.2
        ⟨first.1, List.mem_map_of_mem hmem, by rw [hu]⟩, rfl⟩
    obtain ⟨m, hm⟩ := Graph.exists_node_of_root hroot hutarget
    have hfind : i.graph.findGuid? u.guid = some m :=
      (Graph.wellFormed_build _ _).findGuid?_eq_some_iff.2 ⟨u, hm, rfl⟩
    rw [node?, hguid?, hguid, Option.bind_some, hfind] at hn
    obtain rfl : m = n := Option.some.inj hn
    have hown : directoryName archived u = j.directory := by rw [← hdirectory, directoryOf_eq hu]
    rw [foundAt, Inputs.graph, hm, Option.bind_some, ← hown]
    exact directory?_of_comesFirst ht hc hutargets hp ⟨first, rest, hown ▸ hfirst, hu⟩

/-- After a run, a directory that is the place of one node only comes behind those of all targets
that this node depends on. -/
theorem mergeOrder_precedes_of_one_node {replay : Replayer} {base scratch root : String}
    {tree after : FileTree} {tally : Tally} {d : Pif.Target}
    (ht : i.transcript.targetNames.Nodup) (hc : i.cache.guids.Nodup)
    (hrun : runJobs replay base scratch tree (.start root) (jobs i.transcript i.cache archived) =
      ((after, p), .ok tally)) (hacyclic : i.graph.Acyclic)
    (hproduct : product ∈ p.names) (hnode : p.node? i.graph product = some n)
    (hone : ∀ m u, i.graph.target? m = some u → p.directory? u = some product → m = n)
    (hd : d ∈ i.graph.dependencies n) (hdirectory : p.directory? d = some dependency)
    (hne : dependency ≠ product) :
    (p.mergeOrder i.graph).Nodup ∧ Precedes dependency product (p.mergeOrder i.graph) := by
  have hp := (runJobs_records hrun (partitions_jobs ht hc archived).directories).2
  have hg : i.graph.WellFormed := Graph.wellFormed_build _ _
  obtain ⟨k, hk, hdk⟩ := List.mem_filterMap.1 hd
  have hreached : ReachedOnce p i.graph n k product dependency := {
    node := hnode
    found := foundAt_of_node? ht hc hp hproduct hnode
    only := fun m hm => by
      obtain ⟨u, hu, hfound⟩ := Option.bind_eq_some_iff.1 hm
      exact hone m u hu hfound
    next := ⟨by rwa [dependencyNodes_eq hg], Graph.lt_of_target? hdk⟩
    other := by rw [foundAt, hdk, Option.bind_some, hdirectory]
    ne := hne }
  exact ⟨nodup_mergeOrder p i.graph, hreached.mergeOrder_precedes hg hacyclic hproduct⟩

/-! ### A directory in its place too early -/

def staggeredApp : Pif.Target :=
  ⟨.standard, "APP", "App", [⟨"MAC", []⟩], [], [], .application, "App.app"⟩

def staggeredMobile : Pif.Target :=
  ⟨.standard, "IOS", "CoreiOS", [⟨"LIB", []⟩], [], [], .framework, "Core.framework"⟩

def staggeredDesktop : Pif.Target :=
  ⟨.standard, "MAC", "CoreMac", [], [], [], .framework, "Core.framework"⟩

def staggeredLibrary : Pif.Target :=
  ⟨.standard, "LIB", "Lib", [⟨"BASE", []⟩], [], [], .staticLibrary, "Lib.a"⟩

def staggeredBase : Pif.Target := ⟨.standard, "BASE", "Base", [], [], [], .staticLibrary, "Base.a"⟩

/-- The app needs one target of a framework, and the other one needs a library. -/
def staggered : Inputs where
  transcript := ⟨[("App", [⟨"clang -c app.m", .clang⟩]), ("CoreiOS", [⟨"clang -c ios.m", .clang⟩]),
    ("CoreMac", [⟨"clang -c mac.m", .clang⟩]), ("Lib", [⟨"clang -c lib.m", .clang⟩]),
    ("Base", [⟨"clang -c base.m", .clang⟩])], 1⟩
  cache := ⟨⟨"W", "Staggered", "/w", []⟩, [], [staggeredApp, staggeredMobile, staggeredDesktop,
    staggeredLibrary, staggeredBase]⟩

def staggeredProducts : ProductTree :=
  ⟨"/out", [("App.app", some "APP"), ("Core.framework", some "IOS"), ("Lib.a", some "LIB"),
    ("Base.a", some "BASE")]⟩

def staggeredTree : FileTree :=
  ⟨[(["out"], .dir), (["out", "App.app"], .dir), (["out", "Core.framework"], .dir),
    (["out", "Lib.a"], .dir), (["out", "Base.a"], .dir), (["tmp"], .dir),
    (["tmp", "0-App.app"], .dir), (["tmp", "1-Core.framework"], .dir), (["tmp", "2-Lib.a"], .dir),
    (["tmp", "3-Base.a"], .dir)]⟩

def staggeredGraph : Graph :=
  ⟨[⟨staggeredApp, [⟨1, .dependency⟩]⟩, ⟨staggeredDesktop, [⟨0, .depender⟩]⟩,
    ⟨staggeredMobile, [⟨3, .dependency⟩]⟩, ⟨staggeredLibrary, [⟨2, .depender⟩, ⟨4, .dependency⟩]⟩,
    ⟨staggeredBase, [⟨3, .depender⟩]⟩]⟩

theorem graph_staggered : staggered.graph = staggeredGraph := by
  have hroots : (roots staggered.transcript staggered.cache).filterMap
      (fun root => root.2.map (·.guid)) = ["APP", "IOS", "MAC", "LIB", "BASE"] := by decide
  have hguids : staggered.cache.guids = ["APP", "IOS", "MAC", "LIB", "BASE"] := by decide
  have hnext : staggered.cache.dependencyGuids "APP" = ["MAC"] ∧
      staggered.cache.dependencyGuids "IOS" = ["LIB"] ∧
      staggered.cache.dependencyGuids "MAC" = [] ∧
      staggered.cache.dependencyGuids "LIB" = ["BASE"] ∧
      staggered.cache.dependencyGuids "BASE" = [] := by decide
  have htrace : Graph.trace staggered.cache ["APP", "IOS", "MAC", "LIB", "BASE"] =
      [.enter "APP", .edge "APP" "MAC", .enter "MAC", .leave "MAC", .leave "APP", .enter "IOS",
        .edge "IOS" "LIB", .enter "LIB", .edge "LIB" "BASE", .enter "BASE", .leave "BASE",
        .leave "LIB", .leave "IOS"] := by
    simp [Graph.trace, Traversal.run, Traversal.tasksOf, hguids, hnext]
  rw [Inputs.graph, hroots, Graph.build, htrace]
  rfl

theorem acyclic_staggered : staggeredGraph.Acyclic := by
  refine Graph.acyclic_of_lt fun a b hb => ?_
  by_cases ha : a < 5
  · have hall : ∀ a < 5, ∀ b ∈ staggeredGraph.neighbours .dependency a, a < b := by decide
    exact hall a ha b hb
  · have hnone : staggeredGraph.node? a = none := List.getElem?_eq_none (Nat.not_lt.1 ha)
    simp [Graph.neighbours, Graph.edges, hnone] at hb

theorem runJobs_staggered (replay : Replayer) : ∃ after tally,
    runJobs replay "/" "/tmp" staggeredTree (.start "/out")
      (jobs staggered.transcript staggered.cache []) = ((after, staggeredProducts), .ok tally) := by
  have hjobs : jobs staggered.transcript staggered.cache [] =
      [⟨"App.app", some "APP", [⟨"clang -c app.m", .clang⟩]⟩,
        ⟨"Core.framework", some "IOS", [⟨"clang -c ios.m", .clang⟩, ⟨"clang -c mac.m", .clang⟩]⟩,
        ⟨"Lib.a", some "LIB", [⟨"clang -c lib.m", .clang⟩]⟩,
        ⟨"Base.a", some "BASE", [⟨"clang -c base.m", .clang⟩]⟩] := by decide
  rw [hjobs]
  exact runJobs_of_hasDirectory replay (by decide) (by decide) (by decide)

theorem mergeOrder_staggered : staggeredProducts.mergeOrder staggeredGraph =
    ["Core.framework", "App.app", "Base.a", "Lib.a"] := by
  have hnode : staggeredProducts.node? staggeredGraph "App.app" = some 0 ∧
      staggeredProducts.node? staggeredGraph "Core.framework" = some 2 ∧
      staggeredProducts.node? staggeredGraph "Lib.a" = some 3 ∧
      staggeredProducts.node? staggeredGraph "Base.a" = some 4 := by decide
  have hnext : dependencyNodes staggeredGraph 0 = [1] ∧ dependencyNodes staggeredGraph 1 = [] ∧
      dependencyNodes staggeredGraph 2 = [3] ∧ dependencyNodes staggeredGraph 3 = [4] ∧
      dependencyNodes staggeredGraph 4 = [] := by decide
  have hnames : staggeredProducts.names = ["App.app", "Core.framework", "Lib.a", "Base.a"] := by
    decide
  have hvertices : List.range staggeredGraph.size = [0, 1, 2, 3, 4] := by decide
  rw [mergeOrder, hnames]
  simp only [orderFrom, hnode, hvertices]
  simp [Traversal.run, Traversal.tasksOf, hnext]
  decide

/-- The app puts the framework in its place before the library that the framework's first target
needs has its own. -/
theorem staggered_framework_comes_early :
    staggered.transcript.targetNames.Nodup ∧ staggered.cache.guids.Nodup ∧ staggered.graph.Acyclic ∧
    (∃ after tally, runJobs (replayJobs fun _ _ _ t => (t, .error .notFound)) "/" "/tmp"
      staggeredTree (.start "/out") (jobs staggered.transcript staggered.cache []) =
        ((after, staggeredProducts), .ok tally)) ∧
    staggeredProducts.node? staggered.graph "Core.framework" = some 2 ∧
    staggeredLibrary ∈ staggered.graph.dependencies 2 ∧
    staggeredProducts.directory? staggeredLibrary = some "Lib.a" ∧
    ¬ Precedes "Lib.a" "Core.framework" (staggeredProducts.mergeOrder staggered.graph) := by
  rw [graph_staggered, mergeOrder_staggered]
  have hearly : Precedes "Core.framework" "Lib.a"
      ["Core.framework", "App.app", "Base.a", "Lib.a"] := ⟨[], ["App.app", "Base.a"], [], rfl⟩
  exact ⟨by decide, by decide, acyclic_staggered, runJobs_staggered _, by decide,
    List.mem_singleton.2 rfl, by decide, hearly.asymm (by decide)⟩

/-- The library is the place of one node, so what it needs comes before it. -/
theorem mergeOrder_precedes_of_one_node_staggered :
    staggered.transcript.targetNames.Nodup ∧ staggered.cache.guids.Nodup ∧
    (∃ after tally, runJobs (replayJobs fun _ _ _ t => (t, .error .notFound)) "/" "/tmp"
      staggeredTree (.start "/out") (jobs staggered.transcript staggered.cache []) =
        ((after, staggeredProducts), .ok tally)) ∧ staggered.graph.Acyclic ∧
    (∀ m u, staggered.graph.target? m = some u → staggeredProducts.directory? u = some "Lib.a" →
      m = 3) ∧
    (staggeredProducts.mergeOrder staggered.graph).Nodup ∧
    Precedes "Base.a" "Lib.a" (staggeredProducts.mergeOrder staggered.graph) := by
  have ht : staggered.transcript.targetNames.Nodup := by decide
  have hc : staggered.cache.guids.Nodup := by decide
  have hacyclic : staggered.graph.Acyclic := graph_staggered ▸ acyclic_staggered
  have hone : ∀ m u, staggered.graph.target? m = some u →
      staggeredProducts.directory? u = some "Lib.a" → m = 3 := by
    rw [graph_staggered]
    intro m u hm hu
    have hall : ∀ m < 5, staggeredProducts.foundAt staggeredGraph m = some "Lib.a" → m = 3 := by
      decide
    exact hall m (Graph.lt_of_target? hm) (by rw [foundAt, hm, Option.bind_some, hu])
  obtain ⟨after, tally, hrun⟩ := runJobs_staggered (replayJobs fun _ _ _ t => (t, .error .notFound))
  refine ⟨ht, hc, ⟨after, tally, hrun⟩, hacyclic, hone, ?_⟩
  exact mergeOrder_precedes_of_one_node ht hc hrun hacyclic (by decide)
    (by rw [graph_staggered]; decide) hone
    (by rw [graph_staggered]; exact List.mem_singleton.2 (rfl : staggeredBase = _)) (by decide)
    (by decide)

end Plan

end BitcodeReplay
