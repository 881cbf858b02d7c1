import BitcodeReplay.ProductTree.Consolidate
import BitcodeReplay.Proofs.ProductTree.Sources
import Mathlib.Logic.Function.Basic

/-!
Shortening the names of directories. A directory that gets another name holds what it held; the
names of all products stay different, and each is the first one or what is left of it.
-/

namespace BitcodeReplay.ProductTree

open FileTree Path

variable {t moved : FileTree} {p q : ProductTree} {base : Location} {name short product : String}
  {pairs : List (String × String)} {files : String → Contents} {newName : String → String}

theorem stemOf_eq (h : IsComponent name) : stemOf name = nameStem name := by
  rw [stemOf, stem?_of_isComponent h, Option.getD_some]

theorem stemOf_ne_empty (h : IsComponent name) : stemOf name ≠ "" := by
  rw [stemOf_eq h]
  exact nameStem_ne_empty h.ne_empty

theorem stemOf_append (h : IsComponent name) : ∃ more, name = stemOf name ++ more := by
  rw [stemOf_eq h]
  exact nameStem_append name

/-- A path that can lead to a product can lead to one of the shorter name. -/
theorem isResolvable_stemOf {root : String} (hc : IsComponent name)
    (hpath : IsResolvable (join root name)) (hempty : stemOf name ≠ "") :
    IsResolvable (join root (stemOf name)) := by
  obtain ⟨more, hmore⟩ := stemOf_append hc
  rw [hmore, join_append _ hempty] at hpath
  exact hpath.of_append (join_ne_empty _ hempty)

/-- What is left of a name is one itself if nothing is present there: two dots always are. -/
theorem isComponent_stemOf {root : String} {left : Nat} (hlead : t.LeadsTo root left base)
    (hc : IsComponent name) (hpath : IsResolvable (join root name)) (hempty : stemOf name ≠ "")
    (habsent : t.isPresent (join root (stemOf name)) = false) : IsComponent (stemOf name) := by
  have hresolvable := isResolvable_stemOf hc hpath hempty
  refine ⟨hempty, fun hdot => ?_, fun hdots => ?_, ?_⟩
  · rw [isPresent_dots hlead (.inl hdot) hresolvable] at habsent
    cases habsent
  · rw [isPresent_dots hlead (.inr hdots) hresolvable] at habsent
    cases habsent
  · rw [stemOf_eq hc]
    exact slash_not_mem_nameStem hc

/-- Where nothing is to be merged, names are shortened only. -/
theorem consolidate_of_no_steps {g : Graph} {embedded : List String} {count : Nat}
    (hsteps : p.steps g embedded = [])
    (hshorten : shorten 0 t p p.shortenings = ((moved, q), .ok count)) :
    consolidate t p g embedded = ((moved, q), .ok ⟨0, 0, count⟩) := by
  have hrun : p.runSteps t [] = (t, .ok ()) := rfl
  rw [consolidate, hsteps, hrun]
  simp only [hshorten]
  rfl

/-! ### One name -/

theorem shorten_skip (count : Nat) (h : t.isPresent (p.path short) = true ∨ short ∈ p.names) :
    shorten count t p ((name, short) :: pairs) = shorten count t p pairs := by
  conv_lhs => unfold shorten
  have hskip : (t.isPresent (p.path short) || p.names.contains short) = true := by simpa using h
  rw [if_pos hskip]

theorem shorten_of_absent (count : Nat) (habsent : t.isPresent (p.path short) = false)
    (hnew : short ∉ p.names) : shorten count t p ((name, short) :: pairs) =
      match t.rename (p.path name) (p.path short) with
      | .ok moved => shorten (count + 1) moved (p.renameProduct name short) pairs
      | .error e => ((t, p), .error ⟨p.path short, e⟩) := by
  conv_lhs => unfold shorten
  have hmoves : ¬ (t.isPresent (p.path short) || p.names.contains short) = true := by
    simp [habsent, hnew]
  exact if_neg hmoves

theorem shorten_rename (count : Nat) (habsent : t.isPresent (p.path short) = false)
    (hnew : short ∉ p.names) (hmove : t.rename (p.path name) (p.path short) = .ok moved) :
    shorten count t p ((name, short) :: pairs) =
      shorten (count + 1) moved (p.renameProduct name short) pairs := by
  rw [shorten_of_absent count habsent hnew, hmove]

/-- A name is passed over, or what is known by it is moved; if that cannot be moved, it ends it
all. -/
theorem shorten_cons_cases (count : Nat) (t : FileTree) (p : ProductTree) (name short : String)
    (pairs : List (String × String)) :
    ((t.isPresent (p.path short) = true ∨ short ∈ p.names) ∧
      shorten count t p ((name, short) :: pairs) = shorten count t p pairs) ∨
    (t.isPresent (p.path short) = false ∧ short ∉ p.names ∧
      ((∃ moved, t.rename (p.path name) (p.path short) = .ok moved ∧
          shorten count t p ((name, short) :: pairs) =
            shorten (count + 1) moved (p.renameProduct name short) pairs) ∨
        ∃ e, t.rename (p.path name) (p.path short) = .error e ∧
          shorten count t p ((name, short) :: pairs) = ((t, p), .error ⟨p.path short, e⟩))) := by
  by_cases hskip : t.isPresent (p.path short) = true ∨ short ∈ p.names
  · exact .inl ⟨hskip, shorten_skip count hskip⟩
  · obtain ⟨habsent, hnew⟩ := not_or.1 hskip
    rw [Bool.not_eq_true] at habsent
    refine .inr ⟨habsent, hnew, ?_⟩
    cases hmove : t.rename (p.path name) (p.path short) with
    | ok moved => exact .inl ⟨moved, rfl, shorten_rename count habsent hnew hmove⟩
    | error e => exact .inr ⟨e, rfl, by rw [shorten_of_absent count habsent hnew, hmove]⟩

/-- A directory is moved to the place of its shorter name, if nothing stands there. -/
theorem shorten_of_free {left : Nat} (count : Nat) (hlead : t.LeadsTo p.root left base)
    (hc : IsComponent name) (hshort : IsComponent short) (hpath : IsResolvable (p.path name))
    (hpath' : IsResolvable (p.path short)) (hle : name.utf8ByteSize ≤ maxName)
    (hle' : short.utf8ByteSize ≤ maxName) (hdir : t.get? (base ++ [name]) = some .dir)
    (hfree : t.get? (base ++ [short]) = none) (hnew : short ∉ p.names) :
    shorten count t p ((name, short) :: pairs) =
      shorten (count + 1) (t.relocate (base ++ [name]) (base ++ [short]))
        (p.renameProduct name short) pairs := by
  have habsent : t.isPresent (p.path short) = false := by
    rw [isPresent, find?, path, resolve_join_of_none hlead hshort hpath' (Nat.not_lt.2 hle') hfree]
    rfl
  have hsource : t.resolve false (p.path name) = .ok (.found (base ++ [name]) .dir) :=
    resolve_join_of_get? hlead hc hpath (Nat.not_lt.2 hle) hdir (by simp)
  have hne : name ≠ short := by
    rintro rfl
    rw [hdir] at hfree
    cases hfree
  have hwithin : isWithin (base ++ [short]) (base ++ [name]) = false :=
    isWithin_sibling hne.symm (isWithin_self _)
  exact shorten_rename count habsent hnew (rename_dir_of_free hsource hlead hshort hpath'
    (Nat.not_lt.2 hle') hfree hwithin)

/-- The count has no part in what is done. -/
theorem shorten_state (count : Nat) (t : FileTree) (p : ProductTree)
    (pairs : List (String × String)) : (shorten count t p pairs).1 = (shorten 0 t p pairs).1 := by
  induction pairs generalizing count t p with
  | nil => rfl
  | cons pair rest ih =>
    obtain ⟨name, short⟩ := pair
    unfold shorten
    split
    · exact ih count t p
    · split
      · rw [ih, ih (0 + 1)]
      · rfl

/-- Each directory that is given another name when its turn comes can be given it. -/
def RenamesSucceed (t : FileTree) (p : ProductTree) (pairs : List (String × String)) : Prop :=
  ∀ done name short rest, pairs = done ++ (name, short) :: rest →
    ∀ now q, (shorten 0 t p done).1 = (now, q) → now.isPresent (q.path short) = false →
      short ∉ q.names → ∃ moved, now.rename (q.path name) (q.path short) = .ok moved

theorem RenamesSucceed.skip (h : RenamesSucceed t p ((name, short) :: pairs))
    (hskip : t.isPresent (p.path short) = true ∨ short ∈ p.names) : RenamesSucceed t p pairs := by
  intro done other short' rest heq now q hnow
  exact h ((name, short) :: done) other short' rest (by rw [heq]; rfl) now q
    ((congrArg (·.1) (shorten_skip 0 hskip)).trans hnow)

theorem RenamesSucceed.rename (h : RenamesSucceed t p ((name, short) :: pairs))
    (habsent : t.isPresent (p.path short) = false) (hnew : short ∉ p.names) :
    ∃ moved, t.rename (p.path name) (p.path short) = .ok moved ∧
      RenamesSucceed moved (p.renameProduct name short) pairs := by
  obtain ⟨moved, hmove⟩ := h [] name short pairs rfl t p rfl habsent hnew
  refine ⟨moved, hmove, fun done other short' rest heq now q hnow => ?_⟩
  have hfirst := congrArg (·.1) (@shorten_rename _ _ _ _ _ done 0 habsent hnew hmove)
  refine h ((name, short) :: done) other short' rest (by rw [heq]; rfl) now q ?_
  rw [hfirst, shorten_state]
  exact hnow

/-- The names that products have while names are shortened, and which of them have not been looked
at. -/
structure Renamed (p : ProductTree) (pairs : List (String × String)) (q : ProductTree)
    (newName : String → String) : Prop where
  root : q.root = p.root
  products : q.products = p.products.map fun entry => (newName entry.1, entry.2)
  named : ∀ product ∈ p.names, newName product = product ∨ newName product = stemOf product
  nodup : q.names.Nodup
  waiting : ∀ pair ∈ pairs, pair.1 ∈ p.names ∧ newName pair.1 = pair.1
  once : (pairs.map (·.1)).Nodup

namespace Renamed

theorem names_eq (h : Renamed p pairs q newName) : q.names = p.names.map newName := by
  rw [names, h.products, List.map_map, names, List.map_map]
  rfl

theorem injective (h : Renamed p pairs q newName) {a b : String} (ha : a ∈ p.names)
    (hb : b ∈ p.names) (heq : newName a = newName b) : a = b :=
  List.inj_on_of_nodup_map (h.names_eq ▸ h.nodup) ha hb heq

theorem skip (h : Renamed p ((name, short) :: pairs) q newName) : Renamed p pairs q newName where
  root := h.root
  products := h.products
  named := h.named
  nodup := h.nodup
  waiting := fun pair hpair => h.waiting pair (List.mem_cons_of_mem _ hpair)
  once := (List.nodup_cons.1 h.once).2

/-- The names that are left may stay as they are. -/
theorem settle (h : Renamed p pairs q newName) : Renamed p [] q newName where
  root := h.root
  products := h.products
  named := h.named
  nodup := h.nodup
  waiting := List.forall_mem_nil _
  once := List.nodup_nil

/-- Only the product that waits has its name. -/
theorem newName_eq_iff (h : Renamed p ((name, short) :: pairs) q newName)
    (hproduct : product ∈ p.names) : newName product = name ↔ product = name := by
  obtain ⟨hname, hown⟩ := h.waiting _ List.mem_cons_self
  constructor
  · intro heq
    exact h.injective hproduct hname (heq.trans hown.symm)
  · rintro rfl
    exact hown

theorem newName_ne (h : Renamed p pairs q newName) (hnew : short ∉ q.names)
    (hproduct : product ∈ p.names) : newName product ≠ short := by
  rintro rfl
  rw [h.names_eq] at hnew
  exact hnew (List.mem_map_of_mem hproduct)

theorem products_rename (h : Renamed p ((name, short) :: pairs) q newName) :
    (q.renameProduct name short).products =
      p.products.map fun entry => (Function.update newName name short entry.1, entry.2) := by
  rw [renameProduct, h.products, List.map_map]
  apply List.map_congr_left
  intro entry hentry
  have hproduct : entry.1 ∈ p.names := List.mem_map_of_mem hentry
  by_cases heq : entry.1 = name
  · have hcurrent := (h.newName_eq_iff hproduct).2 heq
    rw [heq] at hcurrent
    simp [heq, hcurrent]
  · have hcurrent : newName entry.1 ≠ name := fun he => heq ((h.newName_eq_iff hproduct).1 he)
    simp [heq, hcurrent]

theorem nodup_rename (h : Renamed p ((name, short) :: pairs) q newName)
    (hnew : short ∉ q.names) : (q.renameProduct name short).names.Nodup := by
  have hproducts : p.names.Nodup := List.Nodup.of_map newName (h.names_eq ▸ h.nodup)
  rw [names, h.products_rename, List.map_map]
  change (p.products.map (Function.update newName name short ∘ (·.1))).Nodup
  rw [← List.map_map]
  refine hproducts.map_on fun a ha b hb hab => ?_
  by_cases han : a = name
  · subst han
    by_contra hba
    rw [Function.update_self, Function.update_of_ne (Ne.symm hba)] at hab
    exact h.newName_ne hnew hb hab.symm
  · by_cases hbn : b = name
    · subst hbn
      rw [Function.update_self, Function.update_of_ne han] at hab
      exact absurd hab (h.newName_ne hnew ha)
    · rw [Function.update_of_ne han, Function.update_of_ne hbn] at hab
      exact h.injective ha hb hab

/-- The product that waits gets its other name, and the others keep theirs. -/
theorem rename (h : Renamed p ((name, short) :: pairs) q newName) (hshort : short = stemOf name)
    (hnew : short ∉ q.names) :
    Renamed p pairs (q.renameProduct name short) (Function.update newName name short) where
  root := h.root
  products := h.products_rename
  named := by
    intro product hproduct
    by_cases heq : product = name
    · subst heq
      rw [Function.update_self]
      exact .inr hshort
    · rw [Function.update_of_ne heq]
      exact h.named product hproduct
  nodup := h.nodup_rename hnew
  waiting := by
    intro pair hpair
    obtain ⟨hproduct, hown⟩ := h.waiting pair (List.mem_cons_of_mem _ hpair)
    have hne : pair.1 ≠ name := by
      intro he
      exact (List.nodup_cons.1 h.once).1 (List.mem_map.2 ⟨pair, hpair, he⟩)
    exact ⟨hproduct, (Function.update_of_ne hne ..).trans hown⟩
  once := (List.nodup_cons.1 h.once).2

/-- The last names are known from the products. -/
theorem unique {other : String → String} {later : List (String × String)}
    (h : Renamed p pairs q newName) (h' : Renamed p later q other) (hproduct : product ∈ p.names) :
    newName product = other product := by
  obtain ⟨entry, hentry, rfl⟩ := List.mem_map.1 hproduct
  have hsame := List.map_inj_left.1 (h.products.symm.trans h'.products) entry hentry
  exact (Prod.mk.inj hsame).1

end Renamed

/-- What holds while names are shortened: where the directories of the products are now, and which
names have not been looked at. -/
structure Shortened (p : ProductTree) (base : Location) (files : String → Contents)
    (pairs : List (String × String)) (t : FileTree) (q : ProductTree)
    (newName : String → String) : Prop where
  wellFormed : t.WellFormed
  root : q.root = p.root
  leads : p.names ≠ [] → ∀ left loc, t.LeadsTo p.root left loc → loc = base
  products : q.products = p.products.map fun entry => (newName entry.1, entry.2)
  named : ∀ product ∈ p.names, newName product = product ∨ newName product = stemOf product
  nodup : q.names.Nodup
  holds : ∀ product ∈ p.names, t.Holds (base ++ [newName product]) (files product)
  waiting : ∀ pair ∈ pairs, pair.1 ∈ p.names ∧ newName pair.1 = pair.1
  once : (pairs.map (·.1)).Nodup

namespace Shortened

theorem renamed (h : Shortened p base files pairs t q newName) : Renamed p pairs q newName :=
  ⟨h.root, h.products, h.named, h.nodup, h.waiting, h.once⟩

theorem skip (h : Shortened p base files ((name, short) :: pairs) t q newName) :
    Shortened p base files pairs t q newName where
  wellFormed := h.wellFormed
  root := h.root
  leads := h.leads
  products := h.products
  named := h.named
  nodup := h.nodup
  holds := h.holds
  waiting := h.renamed.skip.waiting
  once := h.renamed.skip.once

/-- A directory can be moved only from and to the root. -/
theorem moved_eq (h : Shortened p base files ((name, short) :: pairs) t q newName)
    (hc : IsComponent name) (hshort : short = stemOf name) (hempty : short ≠ "")
    (habsent : t.isPresent (q.path short) = false)
    (hmove : t.rename (q.path name) (q.path short) = .ok moved) :
    (∃ left, t.LeadsTo p.root left base) ∧ t.get? (base ++ [short]) = none ∧
      moved = t.relocate (base ++ [name]) (base ++ [short]) := by
  obtain ⟨hname, hown⟩ := h.waiting _ List.mem_cons_self
  rw [path, h.root] at habsent
  rw [path, path, h.root] at hmove
  have hdir : t.get? (base ++ [name]) = some .dir := by
    have hheld := (h.holds name hname).dir
    rwa [hown] at hheld
  obtain ⟨l, e, hplace⟩ := found_of_rename hmove
  obtain ⟨left, loc, hlead, -⟩ := leadsTo_of_resolve_join hc hplace
  obtain rfl := h.leads (List.ne_nil_of_mem hname) left loc hlead
  rw [hlead.place_eq hc (by simp [hdir]) hplace, placeIn_of_some hdir] at hplace
  subst hshort
  have hcomponent : IsComponent (stemOf name) :=
    isComponent_stemOf hlead hc (resolve_eq_ok_iff.1 hplace).1 hempty habsent
  obtain ⟨hfree, -, hmoved⟩ := rename_dir hplace hlead hcomponent habsent hmove
  exact ⟨⟨left, hlead⟩, hfree, hmoved⟩

/-- Every directory holds what it held, the one that is moved at its new place. -/
theorem holds_relocate (h : Shortened p base files ((name, short) :: pairs) t q newName)
    (hnew : short ∉ q.names) (hproduct : product ∈ p.names) :
    (t.relocate (base ++ [name]) (base ++ [short])).Holds
      (base ++ [Function.update newName name short product]) (files product) := by
  have hheld := h.holds product hproduct
  by_cases heq : product = name
  · subst heq
    rw [(h.renamed.newName_eq_iff hproduct).2 rfl] at hheld
    rw [Function.update_self]
    exact hheld.relocate (by simp) (by simp)
  · have hname : newName product ≠ name := fun he => heq ((h.renamed.newName_eq_iff hproduct).1 he)
    rw [Function.update_of_ne heq]
    refine hheld.congr fun l hl => ?_
    have hnil : l ≠ [] := by
      rintro rfl
      obtain ⟨rest, hrest⟩ := isWithin_iff.1 hl
      simp at hrest
    rw [get?_relocate_of_not_within t hnil _ (isWithin_sibling (h.renamed.newName_ne hnew hproduct) hl),
      isWithin_sibling hname hl]
    rfl

/-- The product that waits gets its other name, and the others keep theirs. -/
theorem rename (h : Shortened p base files ((name, short) :: pairs) t q newName)
    (hshort : short = stemOf name) (hnew : short ∉ q.names)
    (hlead : ∃ left, t.LeadsTo p.root left base) (hfree : t.get? (base ++ [short]) = none) :
    Shortened p base files pairs (t.relocate (base ++ [name]) (base ++ [short]))
      (q.renameProduct name short) (Function.update newName name short) where
  wellFormed := by
    obtain ⟨left, hlead⟩ := hlead
    exact wellFormed_relocate h.wellFormed (by simp) (hlead.get?_eq_dir h.wellFormed) hfree
      (isWithin_append_self base name)
  root := h.root
  leads := by
    intro _ left loc hloc
    obtain ⟨left', hlead⟩ := hlead
    exact (hlead.of_losesWays (losesWays_relocate h.wellFormed hfree) hloc).2
  products := h.renamed.products_rename
  named := (h.renamed.rename hshort hnew).named
  nodup := h.renamed.nodup_rename hnew
  holds := fun _ hproduct => h.holds_relocate hnew hproduct
  waiting := (h.renamed.rename hshort hnew).waiting
  once := (h.renamed.rename hshort hnew).once

end Shortened

/-! ### All names -/

theorem mem_shortenings_iff {pair : String × String} : pair ∈ p.shortenings ↔
    pair.1 ∈ p.names ∧ pair.2 = stemOf pair.1 ∧ pair.2 ≠ pair.1 ∧ pair.2 ≠ "" := by
  obtain ⟨name, short⟩ := pair
  simp only [shortenings, List.mem_filter, List.mem_map, Prod.mk.injEq, bne_iff_ne, ne_eq,
    Bool.and_eq_true]
  constructor
  · rintro ⟨⟨_, hname, rfl, rfl⟩, hkeep⟩
    exact ⟨hname, rfl, hkeep⟩
  · rintro ⟨hname, rfl, hkeep⟩
    exact ⟨⟨name, hname, rfl, rfl⟩, hkeep⟩

theorem mem_shortenings {pair : String × String} (h : pair ∈ p.shortenings) :
    pair.1 ∈ p.names ∧ pair.2 = stemOf pair.1 ∧ pair.2 ≠ "" := by
  obtain ⟨hname, hshort, -, hempty⟩ := mem_shortenings_iff.1 h
  exact ⟨hname, hshort, hempty⟩

theorem nodup_shortenings (h : p.names.Nodup) : (p.shortenings.map (·.1)).Nodup := by
  have hsublist : (p.shortenings.map (·.1)).Sublist
      ((p.names.map fun name => (name, stemOf name)).map (·.1)) := List.filter_sublist.map _
  rw [List.map_map] at hsublist
  exact (h.sublist (by simpa [Function.comp_def] using hsublist))

/-- Before any name is looked at, every product has its own. -/
theorem renamed_shortenings (h : p.names.Nodup) : Renamed p p.shortenings p id where
  root := rfl
  products := by simp
  named := fun _ _ => .inl rfl
  nodup := h
  waiting := fun _ hpair => ⟨(mem_shortenings hpair).1, rfl⟩
  once := nodup_shortenings h

/-- However far shortening comes, every product keeps its place, under its name or the shorter one. -/
theorem shorten_renamed (count : Nat) (t : FileTree) (h : Renamed p pairs q newName)
    (hpairs : ∀ pair ∈ pairs, pair.2 = stemOf pair.1) :
    ∃ newName', Renamed p [] (shorten count t q pairs).1.2 newName' ∧
      ∀ product, product ∉ pairs.map (·.1) → newName' product = newName product := by
  induction pairs generalizing count t q newName with
  | nil => exact ⟨newName, h, fun _ _ => rfl⟩
  | cons pair rest ih =>
    obtain ⟨name, short⟩ := pair
    have hshort := hpairs _ List.mem_cons_self
    have hrest := fun pair hpair => hpairs pair (List.mem_cons_of_mem _ hpair)
    rcases shorten_cons_cases count t q name short rest with
      ⟨-, heq⟩ | ⟨-, hnew, ⟨moved, -, heq⟩ | ⟨e, -, heq⟩⟩
    · obtain ⟨newName', hrenamed, hkept⟩ := ih count t h.skip hrest
      exact ⟨newName', heq ▸ hrenamed, fun product hproduct =>
        hkept product fun hmem => hproduct (List.mem_cons_of_mem _ hmem)⟩
    · obtain ⟨newName', hrenamed, hkept⟩ := ih (count + 1) moved (h.rename hshort hnew) hrest
      refine ⟨newName', heq ▸ hrenamed, fun product hproduct => ?_⟩
      rw [List.map_cons, List.mem_cons, not_or] at hproduct
      rw [hkept product hproduct.2, Function.update_of_ne hproduct.1]
    · rw [heq]
      exact ⟨newName, h.settle, fun _ _ => rfl⟩

/-- Shortening names moves directories and touches none of their files. -/
theorem shorten_shortened (h : Shortened p base files pairs t q newName)
    (hpairs : ∀ pair ∈ pairs, IsComponent pair.1 ∧ pair.2 = stemOf pair.1 ∧ pair.2 ≠ "")
    (hrenames : RenamesSucceed t q pairs) (count : Nat) :
    ∃ after r newName' renamed, shorten count t q pairs = ((after, r), .ok renamed) ∧
      Shortened p base files [] after r newName' := by
  induction pairs generalizing t q newName count with
  | nil => exact ⟨t, q, newName, count, rfl, h⟩
  | cons pair rest ih =>
    obtain ⟨name, short⟩ := pair
    obtain ⟨hc, hshort, hempty⟩ := hpairs _ List.mem_cons_self
    have hrest : ∀ pair ∈ rest, IsComponent pair.1 ∧ pair.2 = stemOf pair.1 ∧ pair.2 ≠ "" :=
      fun pair hpair => hpairs pair (List.mem_cons_of_mem _ hpair)
    by_cases hskip : t.isPresent (q.path short) = true ∨ short ∈ q.names
    · rw [shorten_skip count hskip]
      exact ih h.skip hrest (hrenames.skip hskip) count
    · obtain ⟨habsent, hnew⟩ := not_or.1 hskip
      rw [Bool.not_eq_true] at habsent
      obtain ⟨moved, hmove, hlater⟩ := hrenames.rename habsent hnew
      obtain ⟨hlead, hfree, rfl⟩ := h.moved_eq hc hshort hempty habsent hmove
      rw [shorten_rename count habsent hnew hmove]
      exact ih (h.rename hshort hnew hlead hfree) hrest hlater (count + 1)

end BitcodeReplay.ProductTree
