import BitcodeReplay.Proofs.ProductTree.Merge

/-!
What every product ends with. Its own files lie below those of its sources, which are what its
target links statically and has a directory; this determines the files of all products, since
dependencies have no cycles.
-/

namespace BitcodeReplay.ProductTree

open FileTree Graph Traversal

/-- The directories of what a product's target depends on directly and is not embedded, in the
order of the dependencies. -/
def sourcesOf (p : ProductTree) (g : Graph) (embedded : List String) (product : String) :
    List String :=
  match (p.guid? product).bind g.findGuid? with
  | none => []
  | some n =>
    (g.dependencies n).filterMap fun u =>
      if isEmbedded embedded u then none else p.recorded? u

/-- Some contents below those of sources, of which later ones lie on top. -/
def layered (files : String → Contents) (own : Contents) (sources : List String) : Contents :=
  sources.foldl (fun below source => (files source).onto below) own

/-- The files of every product are its own below those of its sources. -/
def IsMerge (p : ProductTree) (g : Graph) (embedded : List String)
    (own files : String → Contents) : Prop :=
  ∀ product, files product = layered files (own product) (p.sourcesOf g embedded product)

variable {p : ProductTree} {g : Graph} {embedded : List String} {n : Nat}
  {product source name : String} {own files other : String → Contents} {top : Contents}
  {sources : List String} {e : Entry}

/-! ### Layers -/

@[simp] theorem layered_nil (files : String → Contents) (top : Contents) :
    layered files top [] = top := rfl

@[simp] theorem layered_cons (files : String → Contents) (top : Contents) (source : String)
    (rest : List String) : layered files top (source :: rest) =
      layered files ((files source).onto top) rest := rfl

theorem layered_congr (h : ∀ source ∈ sources, files source = other source) :
    layered files top sources = layered other top sources := by
  apply List.foldl_ext
  intro below source hsource
  rw [h source hsource]

/-- What is found in layers comes from one of them. -/
theorem layered_eq_some (h : layered files top sources name = some e) :
    top name = some e ∨ ∃ source ∈ sources, files source name = some e := by
  induction sources generalizing top with
  | nil => exact .inl h
  | cons source rest ih =>
    rw [layered_cons] at h
    rcases ih h with htop | ⟨later, hlater, he⟩
    · cases hname : files source name with
      | none =>
        rw [Contents.onto_of_none hname] at htop
        exact .inl htop
      | some e' =>
        rw [Contents.onto_of_some hname] at htop
        exact .inr ⟨source, List.mem_cons_self, htop ▸ hname⟩
    · exact .inr ⟨later, List.mem_cons_of_mem _ hlater, he⟩

/-- No layer hides a name that another one has. -/
theorem layered_isSome (h : (top name).isSome ∨ ∃ source ∈ sources, (files source name).isSome) :
    (layered files top sources name).isSome := by
  induction sources generalizing top with
  | nil => simpa using h
  | cons source rest ih =>
    rw [layered_cons]
    apply ih
    by_cases hname : (files source name).isSome
    · obtain ⟨e, he⟩ := Option.isSome_iff_exists.1 hname
      rw [Contents.onto_of_some he]
      exact .inl rfl
    · rw [Contents.onto_of_none (by simpa using hname)]
      rcases h with htop | ⟨later, hlater, hsome⟩
      · exact .inl htop
      · rcases List.mem_cons.1 hlater with rfl | hlater
        · exact absurd hsome hname
        · exact .inr ⟨later, hlater, hsome⟩

/-! ### Sources -/

theorem sourcesOf_eq_nil (hproduct : product ∉ p.names) : p.sourcesOf g embedded product = [] := by
  have hlookup : p.products.lookup product = none := by
    rw [List.lookup_eq_none_iff]
    intro entry hentry
    refine bne_iff_ne.2 fun heq => hproduct ?_
    exact List.mem_map.2 ⟨entry, hentry, heq.symm⟩
  simp [sourcesOf, guid?, hlookup]

/-- A source belongs to a node that the product's node leads to. -/
theorem node_of_mem_sourcesOf (hnode : (p.guid? product).bind g.findGuid? = some n)
    (h : source ∈ p.sourcesOf g embedded product) :
    ∃ m ∈ g.neighbours .dependency n, p.directoryOf g m = some source := by
  simp only [sourcesOf, hnode] at h
  obtain ⟨u, hu, hsource⟩ := List.mem_filterMap.1 h
  obtain ⟨m, hm, htarget⟩ := mem_dependencies.1 hu
  split at hsource
  · cases hsource
  · refine ⟨m, hm, ?_⟩
    rw [directoryOf, htarget]
    exact hsource

theorem sourcesOf_subset (h : Recorded p g) : p.sourcesOf g embedded product ⊆ p.names := by
  intro source hsource
  cases hnode : (p.guid? product).bind g.findGuid? with
  | none =>
    simp only [sourcesOf, hnode] at hsource
    cases hsource
  | some n =>
    obtain ⟨m, -, hm⟩ := node_of_mem_sourcesOf hnode hsource
    exact h.mem_names_of_directoryOf hm

theorem Recorded.ne_of_mem_sourcesOf (h : Recorded p g) (hg : g.WellFormed)
    (hacyclic : g.Acyclic) (hproduct : product ∈ p.names)
    (hsource : source ∈ p.sourcesOf g embedded product) : source ≠ product := by
  rintro rfl
  obtain ⟨n, hnode, -, hn⟩ := h.node_of_mem hg hproduct
  obtain ⟨m, hm, hsame⟩ := node_of_mem_sourcesOf hnode hsource
  obtain rfl := h.directoryOf_inj hg hsame hn
  exact hacyclic m (.single hm)

theorem Recorded.mem_mergeOrder (h : Recorded p g) (hg : g.WellFormed) (hacyclic : g.Acyclic) :
    product ∈ p.mergeOrder g ↔ product ∈ p.names := by
  obtain ⟨nodes, -, heq, hall⟩ := h.mergeOrder_eq hg hacyclic
  rw [heq, List.mem_filterMap]
  constructor
  · rintro ⟨n, -, hn⟩
    exact h.mem_names_of_directoryOf hn
  · exact hall product

/-- Every product is merged after its sources. -/
theorem Recorded.postOrdered_mergeOrder (h : Recorded p g) (hg : g.WellFormed)
    (hacyclic : g.Acyclic) (embedded : List String) :
    PostOrdered (p.sourcesOf g embedded) p.names (p.mergeOrder g) := by
  obtain ⟨nodes, hordered, heq, -⟩ := h.mergeOrder_eq hg hacyclic
  rw [heq]
  constructor
  · exact hordered.nodup.filterMap fun a b product ha hb => h.directoryOf_inj hg ha hb
  · intro front product back hsplit source hsource _
    obtain ⟨first, last, rfl, hfirst, hlast⟩ := List.filterMap_eq_append_iff.1 hsplit
    obtain ⟨skipped, n, later, rfl, hskipped, hn, -⟩ := List.filterMap_eq_cons_iff.1 hlast
    have hproduct := h.mem_names_of_directoryOf hn
    obtain ⟨n', hnode, -, hn'⟩ := h.node_of_mem hg hproduct
    obtain rfl := h.directoryOf_inj hg hn' hn
    obtain ⟨m, hm, hsource⟩ := node_of_mem_sourcesOf hnode hsource
    have hearlier := hordered.earlier (first ++ skipped) n' later (by simp) m
      (by rwa [dependencyNodes_eq hg]) (List.mem_range.2 (hg.neighbour_lt hm))
    rcases List.mem_append.1 hearlier with hin | hin
    · exact hfirst ▸ List.mem_filterMap.2 ⟨m, hin, hsource⟩
    · rw [hskipped m hin] at hsource
      cases hsource

/-! ### Steps -/

/-- The steps of one product put its sources over its own files. -/
theorem foldl_step? {us : List Pif.Target} {product : String} (files : String → Contents)
    (hdirectory : ∀ u ∈ us, p.directory? u = p.recorded? u)
    (hne : ∀ u ∈ us, isEmbedded embedded u = false → p.recorded? u ≠ some product) :
    (us.filterMap (p.step? embedded product)).foldl heldAfter files =
      fun name => if name = product then
        layered files (files product) (us.filterMap fun u =>
          if isEmbedded embedded u then none else p.recorded? u) else files name := by
  induction us generalizing files with
  | nil =>
    funext name
    split
    · next heq => rw [heq]; rfl
    · rfl
  | cons u rest ih =>
    have hrest := fun files => ih files (fun u hu => hdirectory u (List.mem_cons_of_mem _ hu))
      fun u hu => hne u (List.mem_cons_of_mem _ hu)
    have hu := hdirectory u List.mem_cons_self
    cases hembedded : isEmbedded embedded u with
    | true => simpa [step?, hembedded] using hrest files
    | false =>
      cases hsource : p.recorded? u with
      | none => simpa [step?, hembedded, hu, hsource, heldAfter_missing] using hrest files
      | some source =>
        have hsp : source ≠ product := fun he =>
          hne u List.mem_cons_self hembedded (hsource.trans (congrArg some he))
        have hstep : p.step? embedded product u = some (.copy source product) := by
          simp [step?, hembedded, hu, hsource, hsp]
        rw [List.filterMap_cons_some hstep, List.foldl_cons, hrest]
        funext name
        split
        · have hsources : ∀ other ∈ rest.filterMap fun u =>
              if isEmbedded embedded u then none else p.recorded? u,
              heldAfter files (.copy source product) other = files other := by
            intro other hother
            obtain ⟨v, hv, hvsource⟩ := List.mem_filterMap.1 hother
            split at hvsource
            · cases hvsource
            next hplain =>
              refine heldAfter_copy_of_ne fun he => ?_
              exact hne v (List.mem_cons_of_mem _ hv) (by simpa using hplain) (he ▸ hvsource)
          rw [layered_congr hsources, heldAfter_copy_self]
          simp [hembedded, hsource]
        · next hother => exact heldAfter_copy_of_ne hother

theorem Recorded.foldl_stepsOf (h : Recorded p g) (hg : g.WellFormed) (hacyclic : g.Acyclic)
    (hproduct : product ∈ p.names) (files : String → Contents) :
    (p.stepsOf g embedded product).foldl heldAfter files = fun name =>
      if name = product then layered files (files product) (p.sourcesOf g embedded product)
      else files name := by
  obtain ⟨n, hguid, hnode, hn⟩ := h.node_of_mem hg hproduct
  rw [stepsOf, hnode, sourcesOf, hguid]
  refine foldl_step? files (fun u hu => ?_) fun u hu hplain hsame => ?_
  · obtain ⟨m, -, hm⟩ := mem_dependencies.1 hu
    exact h.directory?_eq hm
  · -- a target that is its own source would depend on itself
    have hself : product ∈ p.sourcesOf g embedded product := by
      simp only [sourcesOf, hguid]
      exact List.mem_filterMap.2 ⟨u, hu, by simp [hplain, hsame]⟩
    exact h.ne_of_mem_sourcesOf hg hacyclic hproduct hself rfl

/-! ### What all products hold -/

/-- After the steps of some products, each of them holds its own files below what its sources
hold, and the others hold their own. -/
theorem Recorded.foldl_steps (h : Recorded p g) (hg : g.WellFormed) (hacyclic : g.Acyclic)
    {order : List String} (hordered : PostOrdered (p.sourcesOf g embedded) p.names order)
    (hnames : order ⊆ p.names) (own : String → Contents) :
    let files := (order.flatMap (p.stepsOf g embedded)).foldl heldAfter own
    ∀ product, files product =
      layered files (own product) (if product ∈ order then p.sourcesOf g embedded product else []) := by
  induction order using List.reverseRecOn with
  | nil => simp
  | append_singleton order last ih =>
    have hlast : last ∈ p.names := hnames (by simp)
    have hnew : last ∉ order := by
      intro hmem
      exact (List.nodup_append.1 hordered.nodup).2.2 last hmem last (by simp) rfl
    have hbefore := ih hordered.of_concat fun product hproduct =>
      hnames (List.mem_append_left _ hproduct)
    simp only [List.flatMap_append, List.flatMap_singleton, List.foldl_append]
    generalize (order.flatMap (p.stepsOf g embedded)).foldl heldAfter own = files at hbefore
    rw [h.foldl_stepsOf hg hacyclic hlast]
    intro product
    by_cases hproduct : product = last
    · subst hproduct
      have hown : files product = own product := by simpa [hnew] using hbefore product
      simp only [if_true, List.mem_append, List.mem_singleton, or_true, hown]
      apply layered_congr
      intro source hsource
      rw [if_neg (h.ne_of_mem_sourcesOf hg hacyclic hlast hsource)]
    · simp only [hproduct, if_false, List.mem_append, List.mem_singleton, or_false]
      rw [hbefore product]
      apply layered_congr
      intro source hsource
      split at hsource
      · next hdone =>
        have hearlier :=
          hordered.of_concat.mem_of_next hdone hsource (sourcesOf_subset h hsource)
        rw [if_neg]
        rintro rfl
        exact hnew hearlier
      · cases hsource

/-- What the steps of all products make of the files is a merge. -/
theorem Recorded.isMerge_steps (h : Recorded p g) (hg : g.WellFormed) (hacyclic : g.Acyclic)
    (embedded : List String) (own : String → Contents) :
    p.IsMerge g embedded own ((p.steps g embedded).foldl heldAfter own) := by
  intro product
  have hall := h.foldl_steps hg hacyclic (h.postOrdered_mergeOrder hg hacyclic embedded)
    (fun _ hmem => (h.mem_mergeOrder hg hacyclic).1 hmem) own product
  rw [steps, hall]
  split
  · rfl
  next hnot =>
    rw [h.mem_mergeOrder hg hacyclic] at hnot
    rw [sourcesOf_eq_nil hnot]

/-- There is only one merge. -/
theorem IsMerge.unique (h : Recorded p g) (hg : g.WellFormed) (hacyclic : g.Acyclic)
    (hfiles : p.IsMerge g embedded own files) (hother : p.IsMerge g embedded own other) :
    other = files := by
  have hproducts := (h.postOrdered_mergeOrder hg hacyclic embedded).induction
    (P := fun product => other product = files product) fun product _ hsources => by
      rw [hfiles product, hother product]
      exact layered_congr fun source hsource =>
        hsources source hsource (sourcesOf_subset h hsource)
  funext product
  by_cases hproduct : product ∈ p.names
  · exact hproducts product ((h.mem_mergeOrder hg hacyclic).2 hproduct)
  · rw [hfiles product, hother product, sourcesOf_eq_nil hproduct]
    rfl

/-! ### Chains -/

/-- A product takes the files of another one, over any number of products in between. -/
def Absorbs (p : ProductTree) (g : Graph) (embedded : List String) : String → String → Prop :=
  Relation.ReflTransGen fun product source => source ∈ p.sourcesOf g embedded product

/-- Under every name that a product has a file, whatever absorbs the product has one. -/
theorem IsMerge.isSome_of_absorbs (hfiles : p.IsMerge g embedded own files)
    (habsorbs : p.Absorbs g embedded product source) (hname : (own source name).isSome) :
    (files product name).isSome := by
  induction habsorbs using Relation.ReflTransGen.head_induction_on with
  | refl =>
    rw [hfiles source]
    exact layered_isSome (.inl hname)
  | head hsource _ ih =>
    rw [hfiles]
    exact layered_isSome (.inr ⟨_, hsource, ih⟩)

/-- Every file of a product comes from a product that it absorbs. -/
theorem IsMerge.exists_absorbs (h : Recorded p g) (hg : g.WellFormed) (hacyclic : g.Acyclic)
    (hfiles : p.IsMerge g embedded own files) (hproduct : product ∈ p.names)
    (he : files product name = some e) :
    ∃ source, p.Absorbs g embedded product source ∧ own source name = some e := by
  have hproducts := (h.postOrdered_mergeOrder hg hacyclic embedded).induction
    (P := fun product => ∀ e, files product name = some e →
      ∃ source, p.Absorbs g embedded product source ∧ own source name = some e)
    fun product _ hsources e he => by
      rw [hfiles product] at he
      rcases layered_eq_some he with hown | ⟨source, hsource, he⟩
      · exact ⟨product, .refl, hown⟩
      · obtain ⟨origin, horigin, hown⟩ :=
          hsources source hsource (sourcesOf_subset h hsource) e he
        exact ⟨origin, .head hsource horigin, hown⟩
  exact hproducts product ((h.mem_mergeOrder hg hacyclic).2 hproduct) e he

end BitcodeReplay.ProductTree
