import BitcodeReplay.Proofs.DanglingLinks.Clear
import BitcodeReplay.Proofs.Plan.Products

/-!
Which directory a target is given by what has been archived, whatever way a walk takes through the
archive. Products of one stem compete for the targets of that stem, and the first on the way wins.
-/

namespace BitcodeReplay

open DanglingLinks FileTree Path

variable {t : FileTree} {archive : String} {order : List (Location × Entry)} {names : List String}
  {product name : String}

/-! ### Walks through an archive -/

namespace Archive

/-- The names of all entries that may be products, as a walk comes by them. -/
def namesAlong (archive : String) (order : List (Location × Entry)) : List String :=
  (order.filter fun p => isListed (productsPath archive) p.1).filterMap fun p =>
    if p.1.length ≤ searchDepth then p.1.getLast? else none

/-- Targets are given directories by one such walk. -/
theorem entryNames_eq_namesAlong (t : FileTree) (archive : String) :
    entryNames t archive = namesAlong archive (t.entriesBelow (productsPath archive)) := rfl

/-- An entry of this name stands below the products, where products are looked for. -/
def IsArchived (t : FileTree) (archive name : String) : Prop :=
  ∃ loc above e, t.find? (productsPath archive) = some (loc, .dir) ∧
    t.get? (loc ++ (above ++ [name])) = some e ∧ (above ++ [name]).length ≤ searchDepth ∧
    isListed (productsPath archive) (above ++ [name]) = true

theorem find?_of_mem (hwalk : IsWalk t (productsPath archive) order) {p : Location × Entry}
    (hp : p ∈ order) : ∃ loc, t.find? (productsPath archive) = some (loc, .dir) := by
  have hmem := hwalk.perm.mem_iff.1 hp
  rw [entriesBelow] at hmem
  split at hmem
  · next loc hfind => exact ⟨loc, hfind⟩
  · cases hmem

/-- A walk comes by just the names that are there. -/
theorem mem_namesAlong_iff (ht : t.Proper) (hwalk : IsWalk t (productsPath archive) order) :
    name ∈ namesAlong archive order ↔ IsArchived t archive name := by
  rw [namesAlong, List.mem_filterMap]
  constructor
  · rintro ⟨p, hp, hname⟩
    obtain ⟨hp, hlisted⟩ := List.mem_filter.1 hp
    obtain ⟨loc, hfind⟩ := find?_of_mem hwalk hp
    obtain ⟨-, hget⟩ := (hwalk.mem_iff ht.wellFormed hfind).1 hp
    split at hname
    · next hdepth =>
      obtain ⟨above, habove⟩ := List.getLast?_eq_some_iff.1 hname
      rw [habove] at hget hdepth hlisted
      exact ⟨loc, above, p.2, hfind, hget, hdepth, hlisted⟩
    · cases hname
  · rintro ⟨loc, above, e, hfind, hget, hdepth, hlisted⟩
    refine ⟨(above ++ [name], e), List.mem_filter.2 ⟨?_, hlisted⟩, ?_⟩
    · exact (hwalk.mem_iff ht.wellFormed hfind).2 ⟨by simp, hget⟩
    · rw [if_pos hdepth, List.getLast?_append, List.getLast?_singleton, Option.some_or]

theorem IsArchived.isComponent (ht : t.Proper) (h : IsArchived t archive name) :
    IsComponent name := by
  obtain ⟨loc, above, e, -, hget, -⟩ := h
  rw [← List.append_assoc] at hget
  refine ht.named (loc ++ above) name ?_
  rw [hget]
  simp

/-- A name that has an extension competes for all products of its stem. -/
def Competes (product name : String) : Prop :=
  nameStem name = nameStem product ∧ nameStem name ≠ name

instance (product name : String) : Decidable (Competes product name) :=
  inferInstanceAs (Decidable (_ ∧ _))

/-- Of all names that compete for a product this one comes first. -/
def Wins (names : List String) (product name : String) : Prop :=
  ∃ front back, names = front ++ name :: back ∧ Competes product name ∧
    ∀ other ∈ front, ¬ Competes product other

theorem competes_iff : Competes product name ↔
    (nameStem name == nameStem product && name != nameStem product) = true := by
  rw [Competes, Bool.and_eq_true, beq_iff_eq, bne_iff_ne]
  constructor
  · rintro ⟨hstem, hne⟩
    exact ⟨hstem, fun h => hne (hstem.trans h.symm)⟩
  · rintro ⟨hstem, hne⟩
    exact ⟨hstem, fun h => hne (h.symm.trans hstem)⟩

theorem product?_eq_some_iff :
    product? names (nameStem product) = some name ↔ Wins names product name := by
  rw [product?, List.find?_eq_some_iff_append, Wins]
  simp only [← competes_iff, Bool.not_eq_true', Bool.eq_false_iff, ne_eq]
  constructor
  · rintro ⟨hcompetes, front, back, hsplit, hfront⟩
    exact ⟨front, back, hsplit, hcompetes, hfront⟩
  · rintro ⟨front, back, hsplit, hcompetes, hfront⟩
    exact ⟨hcompetes, front, back, hsplit, hfront⟩

theorem product?_eq_none_iff :
    product? names (nameStem product) = none ↔ ∀ name ∈ names, ¬ Competes product name := by
  rw [product?, List.find?_eq_none]
  simp only [← competes_iff]

/-- Where a name competes, some name wins. -/
theorem exists_wins (hname : name ∈ names) (h : Competes product name) :
    ∃ winner, Wins names product winner := by
  cases hfound : product? names (nameStem product) with
  | none => exact absurd h (product?_eq_none_iff.1 hfound name hname)
  | some winner => exact ⟨winner, product?_eq_some_iff.1 hfound⟩

/-- A product that is archived wins if it comes before each of its rivals. -/
theorem wins_self (hname : product ∈ names) (hextension : nameStem product ≠ product)
    (hfirst : ∀ front rival back, names = front ++ rival :: back → Competes product rival →
      rival ≠ product → product ∈ front) : Wins names product product := by
  obtain ⟨winner, front, back, hsplit, hcompetes, hfront⟩ := exists_wins hname ⟨rfl, hextension⟩
  by_cases hwinner : winner = product
  · subst hwinner
    exact ⟨front, back, hsplit, hcompetes, hfront⟩
  · have hearlier := hfirst front winner back hsplit hcompetes hwinner
    exact absurd ⟨rfl, hextension⟩ (hfront product hearlier)

end Archive

/-! ### Directories of targets -/

namespace Plan

open Archive

variable {u v : Pif.Target}

theorem directoryName_eq (hu : IsComponent u.productName) : directoryName names u =
    (product? names (nameStem u.productName)).getD u.productName := by
  rw [directoryName, if_neg hu.ne_empty, stem?_of_isComponent hu, Option.getD_some]

theorem directoryName_of_wins (hu : IsComponent u.productName)
    (h : Wins names u.productName name) : directoryName names u = name := by
  rw [directoryName_eq hu, product?_eq_some_iff.2 h, Option.getD_some]

theorem directoryName_of_no_rival (hu : IsComponent u.productName)
    (h : ∀ name ∈ names, Competes u.productName name → name = u.productName) :
    directoryName names u = u.productName := by
  rw [directoryName_eq hu]
  cases hfound : product? names (nameStem u.productName) with
  | none => rfl
  | some name =>
    obtain ⟨front, back, rfl, hcompetes, -⟩ := product?_eq_some_iff.1 hfound
    exact h name (by simp) hcompetes

/-- The directory of a target has the stem of its product. -/
theorem nameStem_directoryName (hu : IsComponent u.productName) (names : List String) :
    nameStem (directoryName names u) = nameStem u.productName := by
  rw [directoryName_eq hu]
  cases hfound : product? names (nameStem u.productName) with
  | none => rfl
  | some name =>
    obtain ⟨front, back, -, hcompetes, -⟩ := product?_eq_some_iff.1 hfound
    exact hcompetes.1

/-- A product with an extension that is archived gives its name to the directory of its target, if
it comes before its rivals on the way through the archive. The place of a product without an
extension goes to the first name that competes for it. Where no other name competes, the directory
has the name of the product. Products of different stems do not share a directory. -/
theorem directoryName_along_walk (ht : t.Proper) (hwalk : IsWalk t (productsPath archive) order)
    (hu : IsComponent u.productName) :
    (nameStem u.productName ≠ u.productName → IsArchived t archive u.productName →
      (∀ front rival back, namesAlong archive order = front ++ rival :: back →
        Competes u.productName rival → rival ≠ u.productName → u.productName ∈ front) →
      directoryName (namesAlong archive order) u = u.productName) ∧
    (nameStem u.productName = u.productName → ∀ name,
      Wins (namesAlong archive order) u.productName name →
      directoryName (namesAlong archive order) u = name) ∧
    ((∀ other, IsArchived t archive other → Competes u.productName other →
        other = u.productName) →
      directoryName (namesAlong archive order) u = u.productName) ∧
    ∀ v : Pif.Target, IsComponent v.productName →
      nameStem v.productName ≠ nameStem u.productName →
      directoryName (namesAlong archive order) v ≠ directoryName (namesAlong archive order) u := by
  refine ⟨fun hextension harchived hfirst => ?_, fun _ name => directoryName_of_wins hu,
    fun hrivals => ?_, fun v hv hstems hsame => ?_⟩
  · exact directoryName_of_wins hu
      (wins_self ((mem_namesAlong_iff ht hwalk).2 harchived) hextension hfirst)
  · exact directoryName_of_no_rival hu fun name hname =>
      hrivals name ((mem_namesAlong_iff ht hwalk).1 hname)
  · apply hstems
    rw [← nameStem_directoryName hv, hsame, nameStem_directoryName hu]

/-- An app that holds a program and a framework of its own stem. -/
def namesakeTree : FileTree :=
  ⟨[(["a"], .dir), (["a", "Products"], .dir), (["a", "Products", "Core.app"], .dir),
    (["a", "Products", "Core.app", "Core"], .file .empty true),
    (["a", "Products", "Core.app", "Frameworks"], .dir),
    (["a", "Products", "Core.app", "Frameworks", "Core.framework"], .dir)]⟩

def namesakeOrder : List (Location × Entry) := namesakeTree.entriesBelow (productsPath "/a")

/-- A target that builds a product. -/
def builder (product : String) : Pif.Target :=
  ⟨.standard, product, product, [], [], [], .framework, product⟩

theorem proper_namesakeTree : namesakeTree.Proper :=
  proper_of_entries (by decide) (by decide) (by decide)

theorem isWalk_namesakeOrder : IsWalk namesakeTree (productsPath "/a") namesakeOrder :=
  isWalk_entriesBelow proper_namesakeTree _

theorem namesAlong_namesakeOrder :
    namesAlong "/a" namesakeOrder = ["Core.app", "Frameworks", "Core.framework", "Core"] := by
  have hstands : namesakeTree.Stands [] (Path.names (productsPath "/a")) := by decide +kernel
  rw [namesakeOrder, entriesBelow, find?_of_stands (by decide) hstands]
  decide +kernel

/-- The framework and the program are archived, and the app takes the place of both. -/
theorem archived_products_give_way : namesakeTree.Proper ∧
    IsWalk namesakeTree (productsPath "/a") namesakeOrder ∧
    IsComponent "Core" ∧ IsArchived namesakeTree "/a" "Core" ∧
    directoryName (namesAlong "/a" namesakeOrder) (builder "Core") = "Core.app" ∧
    IsComponent "Core.framework" ∧ IsArchived namesakeTree "/a" "Core.framework" ∧
    directoryName (namesAlong "/a" namesakeOrder) (builder "Core.framework") = "Core.app" ∧
    directoryName (namesAlong "/a" namesakeOrder) (builder "Core.app") = "Core.app" := by
  have hmem : ∀ name ∈ ["Core.app", "Frameworks", "Core.framework", "Core"],
      IsArchived namesakeTree "/a" name := by
    intro name hname
    rw [← mem_namesAlong_iff proper_namesakeTree isWalk_namesakeOrder, namesAlong_namesakeOrder]
    exact hname
  rw [namesAlong_namesakeOrder]
  exact ⟨proper_namesakeTree, isWalk_namesakeOrder, by decide, hmem _ (by decide), by decide,
    by decide, hmem _ (by decide), by decide, by decide⟩

/-- The app has a directory of its name, and the target of the program shares it. -/
theorem directoryName_along_walk_namesakes : namesakeTree.Proper ∧
    IsWalk namesakeTree (productsPath "/a") namesakeOrder ∧
    directoryName (namesAlong "/a" namesakeOrder) (builder "Core.app") = "Core.app" ∧
    directoryName (namesAlong "/a" namesakeOrder) (builder "Core") = "Core.app" ∧
    directoryName (namesAlong "/a" namesakeOrder) (builder "Kit") ≠
      directoryName (namesAlong "/a" namesakeOrder) (builder "Core") := by
  have hwalk := isWalk_namesakeOrder
  have hnames := namesAlong_namesakeOrder
  obtain ⟨hown, -⟩ := directoryName_along_walk (u := builder "Core.app") proper_namesakeTree
    hwalk (by decide)
  obtain ⟨-, hbare, -, hapart⟩ := directoryName_along_walk (u := builder "Core")
    proper_namesakeTree hwalk (by decide)
  have harchived : IsArchived namesakeTree "/a" "Core.app" := by
    rw [← mem_namesAlong_iff proper_namesakeTree hwalk, hnames]
    decide
  have hwins : Wins (namesAlong "/a" namesakeOrder) "Core" "Core.app" :=
    ⟨[], _, hnames, by decide, by simp⟩
  refine ⟨proper_namesakeTree, hwalk, hown (by decide) harchived ?_,
    hbare (by decide) "Core.app" hwins, hapart (builder "Kit") (by decide) (by decide)⟩
  -- the app comes before all others
  intro front rival back hsplit _ hrival
  rw [hnames] at hsplit
  cases front with
  | nil => exact absurd (List.cons_eq_cons.1 hsplit).1.symm hrival
  | cons first rest =>
    rw [← (List.cons_eq_cons.1 hsplit).1]
    exact List.mem_cons_self

/-! ### Targets and the directories they are looked for in -/

/-- A target answers to the directory that it is given, with or without the extension. So it is
found by name wherever that directory is. -/
theorem directoryName_is_found (ht : t.Proper) (hwalk : IsWalk t (productsPath archive) order)
    (hslash : '/' ∉ u.productName.toList) :
    (u.answersTo (directoryName (namesAlong archive order) u) = true ∨
      u.answersTo (ProductTree.stemOf (directoryName (namesAlong archive order) u)) = true) ∧
    ∀ p : ProductTree, directoryName (namesAlong archive order) u ∈ p.names →
      (p.names.find? (ProductTree.answersToDirectory u)).isSome = true ∧
      (p.directory? u).isSome = true := by
  have hanswers : ProductTree.answersToDirectory u
      (directoryName (namesAlong archive order) u) = true :=
    answersToDirectory_directoryName hslash fun name hname =>
      ((mem_namesAlong_iff ht hwalk).1 hname).isComponent ht
  refine ⟨Bool.or_eq_true_iff.1 hanswers, fun p hmem => ?_⟩
  have hfallback : (p.names.find? (ProductTree.answersToDirectory u)).isSome = true :=
    List.find?_isSome.2 ⟨_, hmem, hanswers⟩
  refine ⟨hfallback, ?_⟩
  cases hrecorded : p.recorded? u with
  | some directory => rw [ProductTree.directory?_of_recorded hrecorded, Option.isSome_some]
  | none => rwa [ProductTree.directory?_of_not_recorded hrecorded]

/-- The target of the program is found in the directory of the app. -/
theorem directoryName_is_found_namesakes : namesakeTree.Proper ∧
    IsWalk namesakeTree (productsPath "/a") namesakeOrder ∧
    '/' ∉ (builder "Core").productName.toList ∧
    (ProductTree.directory? ⟨"/out", [("Core.app", none)]⟩ (builder "Core")).isSome = true := by
  have hslash : '/' ∉ (builder "Core").productName.toList := by decide
  obtain ⟨-, hfound⟩ := directoryName_is_found proper_namesakeTree isWalk_namesakeOrder hslash
  refine ⟨proper_namesakeTree, isWalk_namesakeOrder, hslash, (hfound ⟨"/out", _⟩ ?_).2⟩
  rw [namesAlong_namesakeOrder]
  decide

end Plan

end BitcodeReplay
