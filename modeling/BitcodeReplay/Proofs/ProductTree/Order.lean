import BitcodeReplay.ProductTree.Consolidate
import BitcodeReplay.Proofs.Graph.WellFormed
import BitcodeReplay.Proofs.List
import BitcodeReplay.Proofs.Traversal.PostOrder

/-!
The order in which product directories are merged. Where every directory is recorded for a target of
its own and dependencies have no cycles, each directory comes once, after those of all targets that
its own depends on.
-/

namespace BitcodeReplay

/-- No target depends on itself, not even indirectly. -/
def Graph.Acyclic (g : Graph) : Prop :=
  ∀ n, ¬ Relation.TransGen (fun a b => b ∈ g.neighbours .dependency a) n n

/-- A graph whose edges lead to later nodes only has no cycles. -/
theorem Graph.acyclic_of_lt {g : Graph} (h : ∀ a b, b ∈ g.neighbours .dependency a → a < b) :
    g.Acyclic := by
  intro n hn
  have hself : Relation.TransGen (· < ·) n n := Relation.TransGen.mono h _ _ hn
  rw [Relation.transGen_eq_self] at hself
  exact Nat.lt_irrefl n hself

namespace ProductTree

open Graph Traversal

/-- The directory that has been recorded for a target. -/
def recorded? (p : ProductTree) (t : Pif.Target) : Option String :=
  (p.products.find? fun entry => entry.2 == some t.guid).map (·.1)

/-- Every directory is recorded for a target of the graph, different ones for different targets, and
no target without a directory answers to the name of one. -/
structure Recorded (p : ProductTree) (g : Graph) : Prop where
  names : p.names.Nodup
  known : ∀ entry ∈ p.products, ∃ guid n, entry.2 = some guid ∧ g.findGuid? guid = some n
  distinct : (p.products.map (·.2)).Nodup
  others : ∀ n u, g.target? n = some u → some u.guid ∉ p.products.map (·.2) →
    ∀ entry ∈ p.products, u.answersTo entry.1 = false ∧ u.answersTo (stemOf entry.1) = false

/-- The directory of the target of a node. -/
def directoryOf (p : ProductTree) (g : Graph) (n : Nat) : Option String :=
  (g.target? n).bind p.recorded?

variable {p : ProductTree} {g : Graph} {n : Nat} {product : String} {guid : Pif.Guid}

/-! ### Products and targets -/

theorem names_recordProduct (product : String) (known : Option Pif.Guid)
    (products : List (String × Option Pif.Guid)) :
    (recordProduct product known products).map (·.1) = addName (products.map (·.1)) product := by
  induction products with
  | nil => rfl
  | cons entry rest ih =>
    obtain ⟨name, first⟩ := entry
    rw [recordProduct]
    by_cases hname : name = product
    · simp [addName, hname]
    · rw [if_neg hname, List.map_cons, ih, addName, addName]
      by_cases hmem : product ∈ rest.map (·.1)
      · simp [hmem]
      · simp [hmem, Ne.symm hname]

theorem mem_addName {order : List String} {a name : String} :
    a ∈ addName order name ↔ a ∈ order ∨ a = name := by
  rw [addName]
  split
  next h => exact ⟨.inl, fun ha => ha.elim id fun he => he ▸ h⟩
  next h => simp

theorem nodup_addName {order : List String} (h : order.Nodup) (name : String) :
    (addName order name).Nodup := by
  rw [addName]
  split
  · exact h
  next hnew =>
    refine List.nodup_append.2 ⟨h, List.nodup_singleton _, fun a ha b hb hab => hnew ?_⟩
    rw [← List.mem_singleton.1 hb, ← hab]
    exact ha

/-- A product is recorded when its directory has been made. -/
theorem ensure_eq_ok {t made : FileTree} {q : ProductTree} {known : Option Pif.Guid}
    (h : ensure t p product known = (made, .ok q)) :
    t.createDirAll (p.path product) = (made, .ok ()) ∧
      q = ⟨p.root, recordProduct product known p.products⟩ := by
  rw [ensure] at h
  split at h
  next hmake =>
    cases h
    exact ⟨hmake, rfl⟩
  next => cases h

theorem recorded?_eq_some_iff (h : (p.products.map (·.2)).Nodup) {u : Pif.Target} :
    p.recorded? u = some product ↔ (product, some u.guid) ∈ p.products := by
  rw [recorded?, Option.map_eq_some_iff]
  constructor
  · rintro ⟨⟨name, known⟩, hfind, rfl⟩
    have hguid : known = some u.guid := by simpa using List.find?_some hfind
    exact hguid ▸ List.mem_of_find?_eq_some hfind
  · exact fun hmem => ⟨_, find?_key_of_mem h hmem, rfl⟩

/-- Only the directory that is recorded for a target is its directory. -/
theorem Recorded.directory?_eq (h : Recorded p g) {u : Pif.Target} (hu : g.target? n = some u) :
    p.directory? u = p.recorded? u := by
  rw [directory?, recorded?]
  cases hfind : p.products.find? fun entry => entry.2 == some u.guid with
  | some entry => rfl
  | none =>
    have hnone : some u.guid ∉ p.products.map (·.2) := by
      intro hmem
      obtain ⟨entry, hentry, he⟩ := List.mem_map.1 hmem
      have hnot := List.find?_eq_none.1 hfind entry hentry
      simp [he] at hnot
    have hother : (p.products.find? fun entry =>
        u.answersTo entry.1 || u.answersTo (stemOf entry.1)) = none := by
      refine List.find?_eq_none.2 fun entry hentry => ?_
      obtain ⟨hname, hstem⟩ := h.others n u hu hnone entry hentry
      simp [hname, hstem]
    simp [hother]

/-- The node of a product is that of its target. -/
theorem Recorded.node?_eq (h : Recorded p g) (hmem : (product, some guid) ∈ p.products) :
    p.node? g product = g.findGuid? guid := by
  obtain ⟨guid', n, hguid, hn⟩ := h.known _ hmem
  cases hguid
  rw [node?, guid?, lookup_of_mem h.names hmem, Option.getD_some, Option.bind_some, hn]
  rfl

theorem Recorded.directoryOf_eq_some_iff (h : Recorded p g) :
    p.directoryOf g n = some product ↔
      ∃ u, g.target? n = some u ∧ (product, some u.guid) ∈ p.products := by
  rw [directoryOf, Option.bind_eq_some_iff]
  constructor
  · rintro ⟨u, hu, hrecorded⟩
    exact ⟨u, hu, (recorded?_eq_some_iff h.distinct).1 hrecorded⟩
  · rintro ⟨u, hu, hmem⟩
    exact ⟨u, hu, (recorded?_eq_some_iff h.distinct).2 hmem⟩

/-- Nodes and products belong together one by one. -/
theorem Recorded.directoryOf_iff_node? (h : Recorded p g) (hg : g.WellFormed)
    (hproduct : product ∈ p.names) :
    p.directoryOf g n = some product ↔ p.node? g product = some n := by
  obtain ⟨⟨name, known⟩, hmem, rfl⟩ := List.mem_map.1 hproduct
  obtain ⟨guid, m, rfl, hm⟩ := h.known _ hmem
  rw [h.directoryOf_eq_some_iff, h.node?_eq hmem, hg.findGuid?_eq_some_iff]
  constructor
  · rintro ⟨u, hu, hmem'⟩
    have heq := List.inj_on_of_nodup_map h.names hmem' hmem rfl
    cases heq
    exact ⟨u, hu, rfl⟩
  · rintro ⟨u, hu, rfl⟩
    exact ⟨u, hu, hmem⟩

theorem Recorded.mem_names_of_directoryOf (h : Recorded p g)
    (hd : p.directoryOf g n = some product) : product ∈ p.names := by
  obtain ⟨u, -, hmem⟩ := h.directoryOf_eq_some_iff.1 hd
  exact List.mem_map.2 ⟨_, hmem, rfl⟩

theorem Recorded.directoryOf_inj (h : Recorded p g) (hg : g.WellFormed) {m : Nat}
    (hn : p.directoryOf g n = some product) (hm : p.directoryOf g m = some product) : n = m := by
  have hproduct := h.mem_names_of_directoryOf hn
  rw [h.directoryOf_iff_node? hg hproduct] at hn hm
  rw [hn] at hm
  exact Option.some.inj hm

theorem Recorded.node_of_mem (h : Recorded p g) (hg : g.WellFormed) (hproduct : product ∈ p.names) :
    ∃ n, (p.guid? product).bind g.findGuid? = some n ∧ p.node? g product = some n ∧
      p.directoryOf g n = some product := by
  obtain ⟨⟨name, known⟩, hmem, rfl⟩ := List.mem_map.1 hproduct
  obtain ⟨guid, n, rfl, hn⟩ := h.known _ hmem
  have hnode : p.node? g name = some n := (h.node?_eq hmem).trans hn
  refine ⟨n, ?_, hnode, (h.directoryOf_iff_node? hg hproduct).2 hnode⟩
  rw [guid?, lookup_of_mem h.names hmem]
  exact hn

theorem dependencyNodes_eq (hg : g.WellFormed) (n : Nat) :
    dependencyNodes g n = g.neighbours .dependency n := by
  rw [dependencyNodes, dependencies, List.filterMap_filterMap]
  calc
    _ = (g.neighbours .dependency n).filterMap (some ∘ id) := by
      apply List.filterMap_congr
      intro m hm
      obtain ⟨u, hu⟩ := target?_of_lt (hg.neighbour_lt hm)
      rw [hu, Option.bind_some]
      exact hg.findGuid?_eq_some_iff.2 ⟨u, hu, rfl⟩
    _ = g.neighbours .dependency n := by rw [List.filterMap_eq_map, List.map_id]

theorem not_follows_self (hg : g.WellFormed) (hacyclic : g.Acyclic) (n : Nat) :
    ¬ Relation.TransGen (Follows (dependencyNodes g)) n n := by
  have hsame : Follows (dependencyNodes g) = fun a b => b ∈ g.neighbours .dependency a := by
    funext a b
    rw [Follows, dependencyNodes_eq hg]
  exact hsame ▸ hacyclic n

/-! ### What is in the order -/

theorem mem_names_of_directory? {u : Pif.Target} (h : p.directory? u = some product) :
    product ∈ p.names := by
  obtain ⟨entry, hentry, rfl⟩ := Option.map_eq_some_iff.1 h
  refine List.mem_map_of_mem ?_
  rw [Option.orElse_eq_orElse, Option.orElse_eq_or, Option.or_eq_some_iff] at hentry
  rcases hentry with hfound | ⟨-, hfound⟩
  · exact List.mem_of_find?_eq_some hfound
  · exact List.mem_of_find?_eq_some hfound

theorem mem_foldl_addName {order more : List String} {name : String} :
    name ∈ more.foldl addName order ↔ name ∈ order ∨ name ∈ more := by
  induction more generalizing order with
  | nil => simp
  | cons first rest ih => rw [List.foldl_cons, ih, mem_addName, List.mem_cons, or_assoc]

theorem mem_addDirectories {order : List String} {nodes : List Nat} :
    product ∈ p.addDirectories g order nodes ↔
      product ∈ order ∨ ∃ n ∈ nodes, (g.target? n).bind p.directory? = some product := by
  rw [addDirectories, mem_foldl_addName, List.mem_filterMap]

theorem mem_orderFrom {products order : List String} {seen : List Nat}
    (h : product ∈ p.orderFrom g products seen order) :
    product ∈ order ∨ product ∈ products ∨ product ∈ p.names := by
  induction products generalizing seen order with
  | nil => exact .inl h
  | cons first rest ih =>
    rw [orderFrom] at h
    split at h
    · rcases ih h with hmem | hmem | hmem
      · rcases mem_addName.1 hmem with hmem | rfl
        · exact .inl hmem
        · exact .inr (.inl List.mem_cons_self)
      · exact .inr (.inl (List.mem_cons_of_mem _ hmem))
      · exact .inr (.inr hmem)
    · rcases ih h with hmem | hmem | hmem
      · rcases mem_addDirectories.1 hmem with hmem | ⟨n, -, hn⟩
        · exact .inl hmem
        · obtain ⟨u, -, hu⟩ := Option.bind_eq_some_iff.1 hn
          exact .inr (.inr (mem_names_of_directory? hu))
      · exact .inr (.inl (List.mem_cons_of_mem _ hmem))
      · exact .inr (.inr hmem)

/-- Only products are in the order. -/
theorem mergeOrder_subset (p : ProductTree) (g : Graph) : p.mergeOrder g ⊆ p.names := by
  intro product h
  rcases mem_orderFrom h with hmem | hmem | hmem
  · cases hmem
  · exact hmem
  · exact hmem

theorem nodup_orderFrom (p : ProductTree) (g : Graph) (products : List String) (seen : List Nat)
    {order : List String} (h : order.Nodup) : (p.orderFrom g products seen order).Nodup := by
  induction products generalizing seen order with
  | nil => exact h
  | cons product rest ih =>
    rw [orderFrom]
    split
    · exact ih seen (nodup_addName h product)
    · refine ih _ ?_
      rw [addDirectories]
      exact List.foldlRecOn _ _ h fun order h name _ => nodup_addName h name

/-- Each directory comes once. -/
theorem nodup_mergeOrder (p : ProductTree) (g : Graph) : (p.mergeOrder g).Nodup :=
  nodup_orderFrom p g p.names [] List.nodup_nil

section

variable {embedded : List String} {step : Step} {source target : String}

/-- A dependency is copied from the directory it is found in, or missing if it is found nowhere. -/
theorem step?_eq_some_iff {u : Pif.Target} :
    p.step? embedded product u = some step ↔ isEmbedded embedded u = false ∧
      ((p.directory? u = none ∧ step = .missing product u.name) ∨
        ∃ source, p.directory? u = some source ∧ source ≠ product ∧
          step = .copy source product) := by
  rw [step?]
  cases isEmbedded embedded u with
  | true => simp
  | false =>
    cases p.directory? u with
    | none => simp [@eq_comm _ step]
    | some source => by_cases h : source = product <;> simp [h, @eq_comm _ step]

theorem mem_steps : step ∈ p.steps g embedded ↔
    ∃ product ∈ p.mergeOrder g, ∃ n d, p.node? g product = some n ∧ d ∈ g.dependencies n ∧
      p.step? embedded product d = some step := by
  rw [steps, List.mem_flatMap]
  refine exists_congr fun product => and_congr_right fun _ => ?_
  rw [stepsOf]
  cases p.node? g product <;> simp

/-- Copies are made between the directories of different products. -/
theorem names_of_mem_steps (h : Step.copy source target ∈ p.steps g embedded) :
    source ∈ p.names ∧ target ∈ p.names ∧ source ≠ target := by
  obtain ⟨product, hproduct, n, u, -, -, hstep⟩ := mem_steps.1 h
  obtain ⟨-, ⟨-, hmissing⟩ | ⟨found, hfound, hne, hcopy⟩⟩ := step?_eq_some_iff.1 hstep
  · cases hmissing
  · cases hcopy
    exact ⟨mem_names_of_directory? hfound, mergeOrder_subset p g hproduct, hne⟩

end

/-! ### Without cycles -/

theorem foldl_addName {order more : List String} (h : (order ++ more).Nodup) :
    more.foldl addName order = order ++ more := by
  induction more generalizing order with
  | nil => simp
  | cons name rest ih =>
    have hnew : name ∉ order := by
      intro hmem
      exact (List.nodup_append.1 h).2.2 name hmem name List.mem_cons_self rfl
    rw [List.foldl_cons, addName, if_neg hnew, ih (by simpa using h)]
    simp

theorem Recorded.addDirectories_eq (h : Recorded p g) (hg : g.WellFormed) {order nodes : List Nat}
    (hnodup : (order ++ nodes).Nodup) :
    p.addDirectories g (order.filterMap (p.directoryOf g)) nodes =
      (order ++ nodes).filterMap (p.directoryOf g) := by
  have hdirectories : (nodes.filterMap fun n => (g.target? n).bind p.directory?) =
      nodes.filterMap (p.directoryOf g) := by
    apply List.filterMap_congr
    intro n _
    rw [directoryOf]
    cases hu : g.target? n with
    | none => rfl
    | some u => exact h.directory?_eq hu
  have hinj : ((order ++ nodes).filterMap (p.directoryOf g)).Nodup :=
    hnodup.filterMap fun a b product ha hb => h.directoryOf_inj hg ha hb
  rw [List.filterMap_append] at hinj
  rw [addDirectories, hdirectories, foldl_addName hinj, List.filterMap_append]

/-- From products on, nodes are left after those they depend on. -/
theorem Recorded.orderFrom_eq (h : Recorded p g) (hg : g.WellFormed) (hacyclic : g.Acyclic)
    {products : List String} (hproducts : products ⊆ p.names) {seen order : List Nat}
    (hordered : PostOrdered (dependencyNodes g) (List.range g.size) order)
    (hseen : ∀ v, v ∈ seen ↔ v ∈ order) :
    ∃ nodes, PostOrdered (dependencyNodes g) (List.range g.size) nodes ∧
      p.orderFrom g products seen (order.filterMap (p.directoryOf g)) =
        nodes.filterMap (p.directoryOf g) ∧ order ⊆ nodes ∧
      ∀ product ∈ products, ∃ n ∈ nodes, p.directoryOf g n = some product := by
  induction products generalizing seen order with
  | nil => exact ⟨order, hordered, rfl, List.Subset.refl _, by simp⟩
  | cons product rest ih =>
    have hproduct : product ∈ p.names := hproducts List.mem_cons_self
    obtain ⟨n, -, hnode, hn⟩ := h.node_of_mem hg hproduct
    obtain ⟨hrun, hentered, hleft⟩ :=
      run_postOrdered (not_follows_self hg hacyclic) hordered hseen n
    obtain ⟨nodes, hnodesOrdered, hnext, hsub, hall⟩ :=
      ih (fun x hx => hproducts (List.mem_cons_of_mem _ hx)) hrun hentered
    refine ⟨nodes, hnodesOrdered, ?_, fun v hv => hsub (List.mem_append_left _ hv), ?_⟩
    · rw [orderFrom, hnode, ← hnext]
      simp only
      rw [h.addDirectories_eq hg hrun.nodup]
    · intro other hother
      rcases List.mem_cons.1 hother with rfl | hother
      · obtain ⟨u, hu, -⟩ := h.directoryOf_eq_some_iff.1 hn
        exact ⟨n, hsub (hleft (List.mem_range.2 (lt_of_target? hu))), hn⟩
      · exact hall other hother

theorem Recorded.mergeOrder_eq (h : Recorded p g) (hg : g.WellFormed) (hacyclic : g.Acyclic) :
    ∃ nodes, PostOrdered (dependencyNodes g) (List.range g.size) nodes ∧
      p.mergeOrder g = nodes.filterMap (p.directoryOf g) ∧
      ∀ product ∈ p.names, ∃ n ∈ nodes, p.directoryOf g n = some product := by
  have hempty : PostOrdered (dependencyNodes g) (List.range g.size) [] :=
    ⟨List.nodup_nil, by simp⟩
  obtain ⟨nodes, hordered, heq, -, hall⟩ :=
    h.orderFrom_eq hg hacyclic (List.Subset.refl _) hempty fun _ => Iff.rfl
  exact ⟨nodes, hordered, heq, hall⟩

end ProductTree

end BitcodeReplay
