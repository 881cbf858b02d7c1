import BitcodeReplay.Proofs.ProductTree.Shorten

/-!
What consolidating makes of the product directories: every product ends with its own files below
those of what it links statically, whatever its directory is called then.
-/

namespace BitcodeReplay.ProductTree

open FileTree BitcodeReplay.Path

variable {t : FileTree} {p : ProductTree} {g : Graph} {embedded : List String} {base : Location}
  {product : String}

theorem IsFlat.get?_eq_dir (h : p.IsFlat t base) (hwf : t.WellFormed) (hproduct : product ∈ p.names) :
    t.get? (base ++ [product]) = some .dir := by
  obtain ⟨left, hlead⟩ := leadsTo_of_find? (h.find?_eq hproduct)
  exact hlead.get?_eq_dir hwf

/-- The root leads to where the directories of the products are. -/
theorem IsFlat.leads (h : p.IsFlat t base) (hnames : p.names ≠ []) {left : Nat}
    {loc : Location} (hlead : t.LeadsTo p.root left loc) : loc = base := by
  obtain ⟨product, hproduct⟩ := List.exists_mem_of_ne_nil _ hnames
  have hc := h.component product hproduct
  have hplace := hlead.place_eq hc (by simp) (h.found product hproduct)
  obtain ⟨hloc, -⟩ := placeIn_eq_found_iff.1 hplace.symm
  exact (List.append_inj' hloc rfl).1.symm

/-- Before any name is shortened, the products hold what merging has made of them. -/
theorem IsFlat.shortened (h : p.IsFlat t base) (hwf : t.WellFormed) (hnames : p.names.Nodup) :
    Shortened p base (held t base) p.shortenings t p id where
  wellFormed := hwf
  root := rfl
  leads := fun hne _ _ hlead => h.leads hne hlead
  products := (renamed_shortenings hnames).products
  named := (renamed_shortenings hnames).named
  nodup := hnames
  holds := by
    intro product hproduct
    exact holds_contents hwf (h.get?_eq_dir hwf hproduct) (h.files product hproduct)
  waiting := (renamed_shortenings hnames).waiting
  once := nodup_shortenings hnames

theorem consolidate_eq {merged after : FileTree} {q : ProductTree} {renamed : Nat}
    (hrun : p.runSteps t (p.steps g embedded) = (merged, .ok ()))
    (hshorten : shorten 0 merged p p.shortenings = ((after, q), .ok renamed)) :
    consolidate t p g embedded = ((after, q), .ok ⟨(p.steps g embedded).countP isCopy,
      (p.steps g embedded).countP (!isCopy ·), renamed⟩) := by
  rw [consolidate]
  simp only [hrun, hshorten]

/-- Where every product has a flat directory of its own and dependencies have no cycles, and no copy
and no rename fails, consolidating succeeds. The directory of every product, under its name or what
is left of it, then holds exactly the product's own files overridden by those of what it depends on
directly, is not embedded and has a directory: so the files of all that it absorbs reach it, and no
others do. -/
theorem consolidate_merges (hg : g.WellFormed) (hacyclic : g.Acyclic) (hp : Recorded p g)
    (ht : t.WellFormed) (hflat : p.IsFlat t base)
    (hcopies : p.CopiesSucceed t (p.steps g embedded))
    (hrenames : RenamesSucceed (p.runSteps t (p.steps g embedded)).1 p p.shortenings) :
    ∃ (after : FileTree) (q : ProductTree) (done : Consolidation) (files : String → Contents)
      (newName : String → String), consolidate t p g embedded = ((after, q), .ok done) ∧
      p.IsMerge g embedded (held t base) files ∧
      (∀ other, p.IsMerge g embedded (held t base) other → other = files) ∧
      q.root = p.root ∧
      q.products = (p.products.map fun entry => (newName entry.1, entry.2)) ∧ q.names.Nodup ∧
      ∀ product ∈ p.names,
        (newName product = product ∨ newName product = stemOf product) ∧
        after.Holds (base ++ [newName product]) (files product) ∧
        (∀ source name, p.Absorbs g embedded product source →
          (held t base source name).isSome → (files product name).isSome) ∧
        (∀ name e, files product name = some e →
          ∃ source, p.Absorbs g embedded product source ∧ held t base source name = some e) := by
  obtain ⟨merged, hrun, hwf, hmerged, hheld⟩ := runSteps_held ht hflat
    (fun source target hstep => names_of_mem_steps hstep) hcopies
  have hmerge := hp.isMerge_steps hg hacyclic embedded (held t base)
  rw [← hheld] at hmerge
  rw [hrun] at hrenames
  obtain ⟨after, q, newName, renamed, hshorten, hdone⟩ := shorten_shortened
    (hmerged.shortened hwf hp.names)
    (fun pair hpair => ⟨hflat.component _ (mem_shortenings hpair).1, (mem_shortenings hpair).2⟩)
    hrenames 0
  refine ⟨after, q, _, held merged base, newName, consolidate_eq hrun hshorten, hmerge,
    fun other hother => hmerge.unique hp hg hacyclic hother, hdone.root, hdone.products, hdone.nodup,
    fun product hproduct => ⟨hdone.named product hproduct, hdone.holds product hproduct, ?_, ?_⟩⟩
  · exact fun source name habsorbs hname => hmerge.isSome_of_absorbs habsorbs hname
  · exact fun name e he => hmerge.exists_absorbs hp hg hacyclic hproduct he

/-! ### An app that links a library -/

def coreTarget : Pif.Target := ⟨.standard, "C", "Core", [], [], [], .none, ""⟩

def appTarget : Pif.Target := ⟨.standard, "A", "App", [⟨"C", []⟩], [], [], .none, "App.app"⟩

def linkedGraph : Graph :=
  ((Graph.empty.add appTarget).add coreTarget).addEdge 0 1 .dependency

def linkedProducts : ProductTree := ⟨"/out", [("App.app", some "A"), ("Core", some "C")]⟩

/-- Only the library has a file. -/
def linkedTree : FileTree :=
  ⟨[(["out"], .dir), (["out", "App.app"], .dir), (["out", "Core"], .dir),
    (["out", "Core", "a.bc"], .file .empty false)]⟩

/-- The library's file has been copied to the app. -/
def mergedTree : FileTree := linkedTree.put ["out", "App.app", "a.bc"] (.file .empty false)

theorem wellFormed_linkedGraph : linkedGraph.WellFormed :=
  ((Graph.wellFormed_empty.add appTarget).add coreTarget).addEdge 0 1 .dependency

theorem acyclic_linkedGraph : linkedGraph.Acyclic := by
  refine Graph.acyclic_of_lt fun a b hb => ?_
  match a with
  | 0 =>
    obtain rfl : b = 1 := List.mem_singleton.1 hb
    decide
  | 1 => cases hb
  | n + 2 => cases hb

theorem recorded_linkedProducts : Recorded linkedProducts linkedGraph where
  names := by decide
  known := by
    intro entry hentry
    rcases List.mem_cons.1 hentry with rfl | hentry
    · exact ⟨"A", 0, rfl, by decide⟩
    · obtain rfl := List.mem_singleton.1 hentry
      exact ⟨"C", 1, rfl, by decide⟩
  distinct := by decide
  others := by
    intro n u hu hnone
    match n with
    | 0 =>
      obtain rfl : appTarget = u := Option.some.inj hu
      exact absurd (by decide) hnone
    | 1 =>
      obtain rfl : coreTarget = u := Option.some.inj hu
      exact absurd (by decide) hnone
    | n + 2 => cases hu

theorem isComponent_linked : ∀ name ∈ ["App.app", "Core", "App", "a.bc"], IsComponent name := by
  intro name hname
  simp only [List.mem_cons, List.not_mem_nil, or_false] at hname
  rcases hname with rfl | rfl | rfl | rfl <;> exact ⟨by decide, by decide, by decide, by decide⟩

theorem isFlat_linkedTree : linkedProducts.IsFlat linkedTree ["out"] where
  component := by
    intro product hproduct
    exact isComponent_linked product (List.mem_append_left ["App", "a.bc"] hproduct)
  found := by
    intro product hproduct
    have hlead : linkedTree.LeadsTo "/out" maxLinks ["out"] :=
      leadsTo_of_names (by decide) ⟨by decide, by decide, by decide, by decide⟩ (by decide) rfl
    rcases List.mem_cons.1 hproduct with rfl | hproduct
    · exact resolve_join_of_get? hlead (isComponent_linked _ (by decide))
        ⟨by decide, by decide, by decide⟩ (by decide) rfl (by simp)
    · obtain rfl := List.mem_singleton.1 hproduct
      exact resolve_join_of_get? hlead (isComponent_linked _ (by decide))
        ⟨by decide, by decide, by decide⟩ (by decide) rfl (by simp)
  files := by
    intro product hproduct name e he
    rcases List.mem_cons.1 hproduct with rfl | hproduct
    · simp [contents, linkedTree, get?, List.lookup_cons] at he
    · obtain rfl := List.mem_singleton.1 hproduct
      by_cases hname : name = "a.bc"
      · subst hname
        obtain rfl : Entry.file .empty false = e := Option.some.inj he
        exact ⟨isComponent_linked _ (by decide), _, _, rfl⟩
      · simp [contents, linkedTree, get?, List.lookup_cons, beq_false_of_ne hname] at he

/-- The library is copied to the app, whatever their directories are called. -/
theorem steps_linkedGraph (root : String) {app core : String} (h : core ≠ app) :
    (ProductTree.mk root [(app, some "A"), (core, some "C")]).steps linkedGraph [] =
      [.copy core app] := by
  generalize hp : ProductTree.mk root [(app, some "A"), (core, some "C")] = p
  have hguids : linkedGraph.findGuid? "A" = some 0 ∧ linkedGraph.findGuid? "C" = some 1 :=
    ⟨rfl, rfl⟩
  have hnodes : p.node? linkedGraph app = some 0 ∧ p.node? linkedGraph core = some 1 := by
    simp [← hp, node?, guid?, List.lookup_cons, beq_false_of_ne h, hguids]
  have hdirectories : p.directory? appTarget = some app ∧ p.directory? coreTarget = some core := by
    rw [← hp]
    exact ⟨rfl, rfl⟩
  have htargets : linkedGraph.target? 0 = some appTarget ∧
      linkedGraph.target? 1 = some coreTarget := ⟨rfl, rfl⟩
  have hnext : dependencyNodes linkedGraph 0 = [1] ∧ dependencyNodes linkedGraph 1 = [] := by
    decide
  have horder : p.mergeOrder linkedGraph = [core, app] := by
    have hnames : p.names = [app, core] := by
      rw [← hp]
      rfl
    have hvertices : List.range linkedGraph.size = [0, 1] := by decide
    rw [mergeOrder, hnames]
    simp only [orderFrom, hnodes, hvertices]
    simp [Traversal.run, Traversal.tasksOf, Traversal.left, Traversal.entered, hnext,
      addDirectories, htargets, hdirectories, addName, h.symm]
  have hdependencies : linkedGraph.dependencies 0 = [coreTarget] ∧
      linkedGraph.dependencies 1 = [] := ⟨rfl, rfl⟩
  simp [steps, horder, stepsOf, hnodes, hdependencies, step?, isEmbedded, hdirectories, h]

theorem steps_linked : linkedProducts.steps linkedGraph [] = [.copy "Core" "App.app"] :=
  steps_linkedGraph "/out" (by decide)

theorem copyTree_linked :
    copyTree linkedTree (linkedProducts.path "Core") (linkedProducts.path "App.app") =
      (mergedTree, .ok ()) := by
  have hcore : linkedTree.find? (linkedProducts.path "Core") = some (["out", "Core"], .dir) :=
    isFlat_linkedTree.find?_eq (by decide)
  have happ : linkedTree.find? (linkedProducts.path "App.app") = some (["out", "App.app"], .dir) :=
    isFlat_linkedTree.find?_eq (by decide)
  obtain ⟨left, hlead⟩ := leadsTo_of_find? hcore
  obtain ⟨left', hlead'⟩ := leadsTo_of_find? happ
  have hc : IsComponent "a.bc" := isComponent_linked _ (by decide)
  have hsource : linkedTree.resolve true (join (linkedProducts.path "Core") "a.bc") =
      .ok (.found ["out", "Core", "a.bc"] (.file .empty false)) :=
    resolve_join_of_get? hlead hc ⟨by decide, by decide, by decide⟩ (by decide) rfl (by simp)
  have htarget : linkedTree.resolve true (join (linkedProducts.path "App.app") "a.bc") =
      .ok (.free ["out", "App.app", "a.bc"]) :=
    resolve_join_of_none hlead' hc ⟨by decide, by decide, by decide⟩ (by decide) rfl
  have hentries : linkedTree.listedBelow (linkedProducts.path "Core") =
      [(["a.bc"], .file .empty false)] := by
    rw [listedBelow_eq hcore (isFlat_linkedTree.files "Core" (by decide)), entriesBelow, hcore]
    rfl
  have hrelative : String.intercalate "/" ["a.bc"] = "a.bc" := by simp
  rw [copyTree, hentries]
  unfold copyEntries
  simp only [hrelative, copyFile_of_free hsource htarget]
  rfl

theorem copiesSucceed_linked :
    linkedProducts.CopiesSucceed linkedTree (linkedProducts.steps linkedGraph []) := by
  rw [steps_linked]
  intro done source target rest heq
  cases done with
  | nil =>
    obtain ⟨hcopy, -⟩ := List.cons_eq_cons.1 heq
    cases hcopy
    exact congrArg (·.2) copyTree_linked
  | cons step done => simp at heq

theorem runSteps_linked : linkedProducts.runSteps linkedTree (linkedProducts.steps linkedGraph []) =
    (mergedTree, .ok ()) := by
  rw [steps_linked, runSteps_copy copyTree_linked]
  rfl

theorem renamesSucceed_linked : RenamesSucceed mergedTree linkedProducts
    linkedProducts.shortenings := by
  have hpairs : linkedProducts.shortenings = [("App.app", "App")] := by decide
  rw [hpairs]
  intro done name short rest heq now q hnow _ _
  cases done with
  | nil =>
    obtain ⟨hpair, -⟩ := List.cons_eq_cons.1 heq
    cases hpair
    cases hnow
    have hlead : mergedTree.LeadsTo linkedProducts.root maxLinks ["out"] :=
      leadsTo_of_names (by decide) ⟨by decide, by decide, by decide, by decide⟩ (by decide) rfl
    have hsource : mergedTree.resolve false (linkedProducts.path "App.app") =
        .ok (.found ["out", "App.app"] .dir) :=
      resolve_join_of_get? hlead (isComponent_linked _ (by decide))
        ⟨by decide, by decide, by decide⟩ (by decide) rfl (by simp)
    exact ⟨_, rename_dir_of_free hsource hlead (isComponent_linked _ (by decide))
      ⟨by decide, by decide, by decide⟩ (by decide) rfl (by decide)⟩
  | cons pair done => simp at heq

/-- The app has the library's file in the end. -/
theorem consolidate_merges_library :
    linkedGraph.WellFormed ∧ linkedGraph.Acyclic ∧ Recorded linkedProducts linkedGraph ∧
      linkedTree.WellFormed ∧ linkedProducts.IsFlat linkedTree ["out"] ∧
      linkedProducts.CopiesSucceed linkedTree (linkedProducts.steps linkedGraph []) ∧
      RenamesSucceed (linkedProducts.runSteps linkedTree (linkedProducts.steps linkedGraph [])).1
        linkedProducts linkedProducts.shortenings ∧
      ∃ (after : FileTree) (q : ProductTree) (done : Consolidation) (files : Contents)
        (name : String), consolidate linkedTree linkedProducts linkedGraph [] =
          ((after, q), .ok done) ∧ after.Holds ["out", name] files ∧ (files "a.bc").isSome := by
  have hwf : linkedTree.WellFormed := wellFormed_of_entries (by decide)
  have hrenames : RenamesSucceed
      (linkedProducts.runSteps linkedTree (linkedProducts.steps linkedGraph [])).1
      linkedProducts linkedProducts.shortenings := by
    rw [runSteps_linked]
    exact renamesSucceed_linked
  obtain ⟨after, q, done, files, newName, hdone, -, -, -, -, -, hproducts⟩ :=
    consolidate_merges wellFormed_linkedGraph acyclic_linkedGraph recorded_linkedProducts hwf
      isFlat_linkedTree copiesSucceed_linked hrenames
  obtain ⟨-, hholds, hreaches, -⟩ := hproducts "App.app" (by decide)
  have habsorbs : linkedProducts.Absorbs linkedGraph [] "App.app" "Core" := .single (by decide)
  exact ⟨wellFormed_linkedGraph, acyclic_linkedGraph, recorded_linkedProducts, hwf,
    isFlat_linkedTree, copiesSucceed_linked, hrenames, after, q, done, files "App.app",
    newName "App.app", hdone, hholds, hreaches "Core" "a.bc" habsorbs rfl⟩

end BitcodeReplay.ProductTree
