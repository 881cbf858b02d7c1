import BitcodeReplay.Proofs.FileTree.Making
import BitcodeReplay.Proofs.ProductTree.Shorten

/-!
Shortening names moves what stands in the places of products, and nothing else. Each name is looked
at in its turn, when names before it may have become free or have been taken. A directory is only
moved to a free place, since it can replace neither a file nor a link. Only a link can be in the
way of a link: one that leads nowhere does not count as present, and is replaced.
-/

namespace BitcodeReplay.ProductTree

open FileTree Path

variable {t now moved after : FileTree} {p q r : ProductTree} {base l : Location}
  {name short product root : String} {pairs : List (String × String)} {newName : String → String}
  {count total : Nat}

/-! ### Turns -/

/-- It is the turn of a name: `now` and `q` are what the names before it have left. -/
def IsTurn (t : FileTree) (p : ProductTree) (pairs : List (String × String)) (name short : String)
    (now : FileTree) (q : ProductTree) : Prop :=
  ∃ done rest, pairs = done ++ (name, short) :: rest ∧ (shorten 0 t p done).1 = (now, q)

theorem isTurn_first : IsTurn t p ((name, short) :: pairs) name short t p := ⟨[], pairs, rfl, rfl⟩

theorem IsTurn.of_skip {old new : String} (h : IsTurn t p pairs name short now q)
    (hskip : t.isPresent (p.path new) = true ∨ new ∈ p.names) :
    IsTurn t p ((old, new) :: pairs) name short now q := by
  obtain ⟨done, rest, rfl, hnow⟩ := h
  exact ⟨(old, new) :: done, rest, rfl, (congrArg (·.1) (shorten_skip 0 hskip)).trans hnow⟩

theorem IsTurn.of_rename {old new : String}
    (h : IsTurn moved (p.renameProduct old new) pairs name short now q)
    (habsent : t.isPresent (p.path new) = false) (hnew : new ∉ p.names)
    (hmove : t.rename (p.path old) (p.path new) = .ok moved) :
    IsTurn t p ((old, new) :: pairs) name short now q := by
  obtain ⟨done, rest, rfl, hnow⟩ := h
  refine ⟨(old, new) :: done, rest, rfl, ?_⟩
  rw [shorten_rename 0 habsent hnew hmove, shorten_state]
  exact hnow

/-- What a successful run does with its first name. -/
theorem shorten_eq_ok {s : FileTree × ProductTree}
    (h : shorten count t q ((name, short) :: pairs) = (s, .ok total)) :
    ((t.isPresent (q.path short) = true ∨ short ∈ q.names) ∧
      shorten count t q pairs = (s, .ok total)) ∨
    (t.isPresent (q.path short) = false ∧ short ∉ q.names ∧
      ∃ moved, t.rename (q.path name) (q.path short) = .ok moved ∧
        shorten (count + 1) moved (q.renameProduct name short) pairs = (s, .ok total)) := by
  rcases shorten_cons_cases count t q name short pairs with
    ⟨hskip, heq⟩ | ⟨habsent, hnew, ⟨moved, hmove, heq⟩ | ⟨e, -, heq⟩⟩
  · exact .inl ⟨hskip, heq.symm.trans h⟩
  · exact .inr ⟨habsent, hnew, moved, hmove, heq.symm.trans h⟩
  · rw [heq] at h
    cases h

/-! ### Names -/

/-- The shorter name of a product is that of another one, or leads somewhere from the root: to an
entry there, or to the root itself or the directory above. -/
def IsTaken (now : FileTree) (q : ProductTree) (short : String) : Prop :=
  short ∈ q.names ∨ short = "." ∨ short = ".." ∨
    ∃ left loc, now.LeadsTo q.root left loc ∧ now.get? (loc ++ [short]) ≠ none

theorem isTaken_of_isPresent (hc : IsComponent name) (hempty : stemOf name ≠ "")
    (h : now.isPresent (q.path (stemOf name)) = true) : IsTaken now q (stemOf name) := by
  by_cases hdot : stemOf name = "."
  · exact .inr (.inl hdot)
  by_cases hdots : stemOf name = ".."
  · exact .inr (.inr (.inl hdots))
  have hshort : IsComponent (stemOf name) := by
    refine ⟨hempty, hdot, hdots, ?_⟩
    rw [stemOf_eq hc]
    exact slash_not_mem_nameStem hc
  obtain ⟨⟨m, e⟩, hfind⟩ := Option.isSome_iff_exists.1 h
  obtain ⟨left, loc, hlead, hwalk⟩ := leadsTo_of_resolve_join hshort (find?_eq_some_iff.1 hfind)
  exact .inr (.inr (.inr ⟨left, loc, hlead, get?_of_walk_found hshort hwalk⟩))

/-- A successful run counts the names that it has shortened, and passes over a name only if the
shorter one was taken at its turn. -/
theorem Renamed.of_shorten (h : Renamed p pairs q newName)
    (hpairs : ∀ pair ∈ pairs, IsComponent pair.1 ∧ pair.2 = stemOf pair.1 ∧ pair.2 ≠ "")
    (hrun : shorten count t q pairs = ((after, r), .ok total)) :
    ∃ final, Renamed p [] r final ∧
      (∀ product, product ∉ pairs.map (·.1) → final product = newName product) ∧
      total = count + pairs.countP (fun pair => final pair.1 ≠ pair.1) ∧
      ∀ pair ∈ pairs, final pair.1 = pair.1 →
        ∃ now s, IsTurn t q pairs pair.1 pair.2 now s ∧ IsTaken now s pair.2 := by
  induction pairs generalizing count t q newName with
  | nil =>
    cases hrun
    exact ⟨newName, h, fun _ _ => rfl, rfl, List.forall_mem_nil _⟩
  | cons pair rest ih =>
    obtain ⟨name, short⟩ := pair
    obtain ⟨hc, hshort, hempty⟩ := hpairs _ List.mem_cons_self
    have hrest := fun pair hpair => hpairs pair (List.mem_cons_of_mem _ hpair)
    have hname : name ∉ rest.map (·.1) := (List.nodup_cons.1 h.once).1
    have hown : newName name = name := (h.waiting _ List.mem_cons_self).2
    rcases shorten_eq_ok hrun with ⟨hskip, hrun⟩ | ⟨habsent, hnew, moved, hmove, hrun⟩
    · obtain ⟨final, hfinal, hkept, hcount, hturns⟩ := ih h.skip hrest hrun
      have hlast : final name = name := (hkept name hname).trans hown
      refine ⟨final, hfinal, fun product hproduct => ?_, ?_, ?_⟩
      · exact hkept product fun hmem => hproduct (List.mem_cons_of_mem _ hmem)
      · rw [hcount, List.countP_cons_of_neg (by simpa using hlast)]
      · refine List.forall_mem_cons.2 ⟨fun _ => ⟨t, q, isTurn_first, ?_⟩, fun pair hpair hsame => ?_⟩
        · rcases hskip with hpresent | hmem
          · simp only at hshort hempty
            subst hshort
            exact isTaken_of_isPresent hc hempty hpresent
          · exact .inl hmem
        · obtain ⟨now, s, hturn, htaken⟩ := hturns pair hpair hsame
          exact ⟨now, s, hturn.of_skip hskip, htaken⟩
    · obtain ⟨final, hfinal, hkept, hcount, hturns⟩ := ih (h.rename hshort hnew) hrest hrun
      have hlast : final name = short := by rw [hkept name hname, Function.update_self]
      have hne : short ≠ name := by
        rintro rfl
        exact hnew (h.names_eq ▸ List.mem_map.2 ⟨_, (h.waiting _ List.mem_cons_self).1, hown⟩)
      refine ⟨final, hfinal, fun product hproduct => ?_, ?_, ?_⟩
      · rw [List.map_cons, List.mem_cons, not_or] at hproduct
        rw [hkept product hproduct.2, Function.update_of_ne hproduct.1]
      · rw [hcount, List.countP_cons_of_pos (by simpa [hlast] using hne)]
        omega
      · refine List.forall_mem_cons.2 ⟨fun hsame => ?_, fun pair hpair hsame => ?_⟩
        · exact absurd (hlast.symm.trans hsame) hne
        · obtain ⟨now, s, hturn, htaken⟩ := hturns pair hpair hsame
          exact ⟨now, s, hturn.of_rename habsent hnew hmove, htaken⟩

/-- The names that have been shortened are all among those that could be. -/
theorem countP_shortenings (h : ∀ product, product ∉ p.shortenings.map (·.1) →
      newName product = product) :
    p.shortenings.countP (fun pair => newName pair.1 ≠ pair.1) =
      p.names.countP fun name => newName name ≠ name := by
  rw [shortenings, List.countP_filter, List.countP_map]
  refine List.countP_congr fun name _ => ?_
  by_cases hsame : newName name = name
  · simp [hsame]
  · have hmem : name ∈ p.shortenings.map (·.1) := by_contra fun hnot => hsame (h name hnot)
    obtain ⟨pair, hpair, rfl⟩ := List.mem_map.1 hmem
    obtain ⟨-, hshort, hne, hempty⟩ := mem_shortenings_iff.1 hpair
    rw [hshort] at hne hempty
    simp [hsame, hne, hempty]

/-! ### Places -/

/-- Where a product that is a link has a link in the way of its shorter name at its turn, that one
leads somewhere. -/
def SparesLinks (origin : FileTree) (base : Location) (t : FileTree) (p : ProductTree)
    (pairs : List (String × String)) : Prop :=
  ∀ name short now q, IsTurn t p pairs name short now q →
    ∀ target, origin.get? (base ++ [name]) = some (.link target) →
      ∀ other, now.get? (base ++ [short]) = some (.link other) → now.isPresent (q.path short) = true

/-- What stands in the places of products has been moved to the places of their new names, which were
free or have been left by other products. All other places are as they were. -/
structure Moved (p : ProductTree) (base : Location) (t now : FileTree)
    (newName : String → String) : Prop where
  products : ∀ name ∈ p.names, ∀ rest,
    now.get? (base ++ newName name :: rest) = t.get? (base ++ name :: rest)
  left : ∀ name ∈ p.names, (∀ other ∈ p.names, newName other ≠ name) →
    ∀ rest, now.get? (base ++ name :: rest) = none
  others : ∀ l, (∀ name ∈ p.names, isWithin l (base ++ [name]) = false ∧
    isWithin l (base ++ [newName name]) = false) → now.get? l = t.get? l
  taken : ∀ name ∈ p.names, newName name ∉ p.names → t.get? (base ++ [newName name]) = none

theorem moved_id (p : ProductTree) (base : Location) (t : FileTree) : Moved p base t t id where
  products := fun _ _ _ => rfl
  left := fun name hname hother => absurd rfl (hother name hname)
  others := fun _ _ => rfl
  taken := fun _ hname hnot => absurd hname hnot

theorem isWithin_under (base : Location) (name : String) (rest : Location) :
    isWithin (base ++ name :: rest) (base ++ [name]) = true := isWithin_iff.2 ⟨rest, by simp⟩

theorem get?_relocate_new (t : FileTree) (base : Location) (name short : String)
    (rest : Location) :
    (t.relocate (base ++ [name]) (base ++ [short])).get? (base ++ short :: rest) =
      t.get? (base ++ name :: rest) := by
  have hold : base ++ [name] ≠ [] := by simp
  have hnew : base ++ [short] ≠ [] := by simp
  have hget := get?_relocate_target t hold hnew rest
  rwa [List.append_assoc, List.append_assoc] at hget

theorem get?_relocate_old (t : FileTree) (base : Location) (hne : short ≠ name)
    (rest : Location) :
    (t.relocate (base ++ [name]) (base ++ [short])).get? (base ++ name :: rest) = none := by
  rw [get?_relocate_of_not_within t (by simp) _
    (isWithin_sibling hne.symm (isWithin_under base name rest)), isWithin_under, if_pos rfl]

theorem get?_relocate_other (t : FileTree) (hname : isWithin l (base ++ [name]) = false)
    (hshort : isWithin l (base ++ [short]) = false) :
    (t.relocate (base ++ [name]) (base ++ [short])).get? l = t.get? l := by
  by_cases hnil : l = []
  · rw [hnil, get?_nil, get?_nil]
  · rw [get?_relocate_of_not_within t hnil _ hshort, hname, if_neg Bool.false_ne_true]

theorem get?_relocate_sibling (t : FileTree) (base : Location) {other : String}
    (hname : other ≠ name) (hshort : other ≠ short) (rest : Location) :
    (t.relocate (base ++ [name]) (base ++ [short])).get? (base ++ other :: rest) =
      t.get? (base ++ other :: rest) :=
  get?_relocate_other t (isWithin_sibling hname (isWithin_under base other rest))
    (isWithin_sibling hshort (isWithin_under base other rest))

namespace Moved

/-- The product that waits is moved to a free place, and the others stay where they are. -/
theorem rename (h : Moved p base t now newName)
    (hrenamed : Renamed p ((name, short) :: pairs) q newName) (hne : short ≠ name)
    (hnew : short ∉ q.names) (hfree : now.get? (base ++ [short]) = none) :
    Moved p base t (now.relocate (base ++ [name]) (base ++ [short]))
      (Function.update newName name short) where
  products := by
    intro product hproduct rest
    by_cases heq : product = name
    · subst heq
      have hown := (hrenamed.newName_eq_iff hproduct).2 rfl
      have hheld := h.products product hproduct rest
      rw [hown] at hheld
      rw [Function.update_self, get?_relocate_new, hheld]
    · have hother : newName product ≠ name :=
        fun he => heq ((hrenamed.newName_eq_iff hproduct).1 he)
      rw [Function.update_of_ne heq, get?_relocate_sibling now base hother
        (hrenamed.newName_ne hnew hproduct), h.products product hproduct]
  left := by
    intro product hproduct hgone rest
    obtain ⟨hname, hown⟩ := hrenamed.waiting _ List.mem_cons_self
    by_cases heq : product = name
    · subst heq
      exact get?_relocate_old now base hne rest
    · have hshort : product ≠ short := by
        rintro rfl
        exact hgone name hname (Function.update_self ..)
      rw [get?_relocate_sibling now base heq hshort]
      refine h.left product hproduct (fun other hother he => ?_) rest
      by_cases hn : other = name
      · exact heq (by rw [← he, hn, hown])
      · exact hgone other hother (by rw [Function.update_of_ne hn, he])
  others := by
    intro l hl
    obtain ⟨hname, hown⟩ := hrenamed.waiting _ List.mem_cons_self
    obtain ⟨hold, hmoved⟩ := hl name hname
    rw [Function.update_self] at hmoved
    rw [get?_relocate_other now hold hmoved]
    refine h.others l fun product hproduct => ⟨(hl product hproduct).1, ?_⟩
    by_cases heq : product = name
    · rwa [heq, hown]
    · have hplace := (hl product hproduct).2
      rwa [Function.update_of_ne heq] at hplace
  taken := by
    intro product hproduct hnot
    by_cases heq : product = name
    · subst heq
      rw [Function.update_self] at hnot ⊢
      rw [← h.others _ fun other hother => ⟨isWithin_sibling ?_ (isWithin_self _),
        isWithin_sibling ?_ (isWithin_self _)⟩, hfree]
      · rintro rfl
        exact hnot hother
      · exact fun he => hrenamed.newName_ne hnew hother he.symm
    · rw [Function.update_of_ne heq] at hnot ⊢
      exact h.taken product hproduct hnot

/-- An entry that is no product keeps its name and all that is below it. -/
theorem get?_other (h : Moved p base t now newName) {other : String} (hother : other ∉ p.names)
    (hstands : t.get? (base ++ [other]) ≠ none) (rest : Location) :
    now.get? (base ++ other :: rest) = t.get? (base ++ other :: rest) := by
  refine h.others _ fun name hname => ⟨isWithin_sibling ?_ (isWithin_under base other rest),
    isWithin_sibling ?_ (isWithin_under base other rest)⟩
  · rintro rfl
    exact hother hname
  · rintro rfl
    exact hstands (h.taken name hname hother)

/-- Every entry is a product under its new name, or has been there under its own. -/
theorem known (h : Moved p base t now newName) (hstands : now.get? (base ++ [name]) ≠ none) :
    (∃ product ∈ p.names, newName product = name) ∨
      name ∉ p.names ∧ t.get? (base ++ [name]) ≠ none := by
  by_cases hproduct : ∃ product ∈ p.names, newName product = name
  · exact .inl hproduct
  have hnone : ∀ product ∈ p.names, newName product ≠ name :=
    fun product hmem he => hproduct ⟨product, hmem, he⟩
  have hname : name ∉ p.names := fun hmem => hstands (h.left name hmem hnone [])
  refine .inr ⟨hname, ?_⟩
  rwa [← h.others _ fun product hmem => ⟨isWithin_sibling ?_ (isWithin_self _),
    isWithin_sibling (hnone product hmem).symm (isWithin_self _)⟩]
  rintro rfl
  exact hname hmem

end Moved

/-- What a successful run keeps: the root still leads to its directory if it leads anywhere, and all
that has happened there is that products have been moved. -/
structure Carried (p : ProductTree) (base : Location) (t : FileTree)
    (pairs : List (String × String)) (now : FileTree) (q : ProductTree)
    (newName : String → String) : Prop where
  wellFormed : now.WellFormed
  leads : ∀ left loc, now.LeadsTo p.root left loc → loc = base
  renamed : Renamed p pairs q newName
  moved : Moved p base t now newName

namespace Carried

theorem skip (h : Carried p base t ((name, short) :: pairs) now q newName) :
    Carried p base t pairs now q newName := ⟨h.wellFormed, h.leads, h.renamed.skip, h.moved⟩

/-- A product is moved within the root, to a free place. -/
theorem moved_eq (h : Carried p base t ((name, short) :: pairs) now q newName)
    (hdir : t.get? (base ++ [name]) = some .dir ∨
      ∃ target, t.get? (base ++ [name]) = some (.link target))
    (hc : IsComponent name) (hshort : short = stemOf name) (hempty : short ≠ "")
    (hspares : ∀ target, t.get? (base ++ [name]) = some (.link target) →
      ∀ other, now.get? (base ++ [short]) = some (.link other) →
        now.isPresent (q.path short) = true)
    (habsent : now.isPresent (q.path short) = false)
    (hmove : now.rename (q.path name) (q.path short) = .ok moved) :
    (∃ left, now.LeadsTo p.root left base) ∧ now.get? (base ++ [short]) = none ∧
      moved = now.relocate (base ++ [name]) (base ++ [short]) := by
  obtain ⟨hname, hown⟩ := h.renamed.waiting _ List.mem_cons_self
  have hget : now.get? (base ++ [name]) = t.get? (base ++ [name]) := by
    have hheld := h.moved.products name hname []
    rwa [hown] at hheld
  rw [← hget] at hdir hspares
  rw [path, h.renamed.root] at habsent hspares
  rw [path, path, h.renamed.root] at hmove
  obtain ⟨l, e, hplace⟩ := found_of_rename hmove
  obtain ⟨left, loc, hlead, hwalk⟩ := leadsTo_of_resolve_join hc hplace
  obtain rfl := h.leads left loc hlead
  obtain ⟨rfl, he⟩ := placeIn_eq_found_iff.1 (placeIn_of_walk hc hwalk).symm
  subst hshort
  have hcomponent : IsComponent (stemOf name) :=
    isComponent_stemOf hlead hc (resolve_eq_ok_iff.1 hplace).1 hempty habsent
  refine ⟨⟨left, hlead⟩, ?_⟩
  rcases hdir with hdir | ⟨target, hlink⟩
  · obtain rfl : e = .dir := Option.some.inj (he.symm.trans hdir)
    obtain ⟨hfree, -, hmoved⟩ := rename_dir hplace hlead hcomponent habsent hmove
    exact ⟨hfree, hmoved⟩
  · obtain rfl : e = .link target := Option.some.inj (he.symm.trans hlink)
    rcases rename_leaf_cases hplace (by simp) hmove with
      ⟨dest, htarget, rfl⟩ | ⟨dest, e, htarget, -, -⟩
    · obtain ⟨rfl, hfree⟩ :=
        placeIn_eq_free_iff.1 (hlead.place_eq hcomponent (by simp) htarget).symm
      exact ⟨hfree, rfl⟩
    · -- only a link can be in the way, and that one leads somewhere
      obtain ⟨rfl, hstands⟩ :=
        placeIn_eq_found_iff.1 (hlead.place_eq hcomponent (by simp) htarget).symm
      obtain ⟨other, rfl⟩ := link_of_not_isPresent hlead hcomponent htarget habsent hstands
      rw [hspares target hlink other hstands] at habsent
      cases habsent

/-- The product that waits gets its other name and is moved to its place. -/
theorem rename (h : Carried p base t ((name, short) :: pairs) now q newName)
    (hshort : short = stemOf name) (hne : short ≠ name) (hnew : short ∉ q.names)
    (hlead : ∃ left, now.LeadsTo p.root left base) (hfree : now.get? (base ++ [short]) = none) :
    Carried p base t pairs (now.relocate (base ++ [name]) (base ++ [short]))
      (q.renameProduct name short) (Function.update newName name short) where
  wellFormed := by
    obtain ⟨left, hlead⟩ := hlead
    exact wellFormed_relocate h.wellFormed (by simp) (hlead.get?_eq_dir h.wellFormed) hfree
      (isWithin_append_self base name)
  leads := by
    intro left loc hloc
    obtain ⟨left', hlead⟩ := hlead
    exact (hlead.of_losesWays (losesWays_relocate h.wellFormed hfree) hloc).2
  renamed := h.renamed.rename hshort hnew
  moved := h.moved.rename h.renamed hne hnew hfree

end Carried

/-! ### All names -/

/-- A successful run moves products and nothing else. -/
theorem Carried.of_shorten (h : Carried p base t pairs now q newName)
    (hdirs : ∀ name ∈ p.names, t.get? (base ++ [name]) = some .dir ∨
      ∃ target, t.get? (base ++ [name]) = some (.link target))
    (hpairs : ∀ pair ∈ pairs, IsComponent pair.1 ∧ pair.2 = stemOf pair.1 ∧ pair.2 ≠ "")
    (hspares : SparesLinks t base now q pairs)
    (hrun : shorten count now q pairs = ((after, r), .ok total)) :
    ∃ final, Carried p base t [] after r final := by
  induction pairs generalizing count now q newName with
  | nil =>
    cases hrun
    exact ⟨newName, h⟩
  | cons pair rest ih =>
    obtain ⟨name, short⟩ := pair
    obtain ⟨hc, hshort, hempty⟩ := hpairs _ List.mem_cons_self
    have hrest := fun pair hpair => hpairs pair (List.mem_cons_of_mem _ hpair)
    obtain ⟨hname, hown⟩ := h.renamed.waiting _ List.mem_cons_self
    rcases shorten_eq_ok hrun with ⟨hskip, hrun⟩ | ⟨habsent, hnew, moved, hmove, hrun⟩
    · exact ih h.skip hrest (fun _ _ _ _ hturn => hspares _ _ _ _ (hturn.of_skip hskip)) hrun
    · have hne : short ≠ name := by
        rintro rfl
        exact hnew (h.renamed.names_eq ▸ List.mem_map.2 ⟨_, hname, hown⟩)
      obtain ⟨hlead, hfree, rfl⟩ := h.moved_eq (hdirs name hname) hc hshort hempty
        (hspares _ _ _ _ isTurn_first) habsent hmove
      exact ih (h.rename hshort hne hnew hlead hfree) hrest
        (fun _ _ _ _ hturn => hspares _ _ _ _ (hturn.of_rename habsent hnew hmove)) hrun

/-- A product stands in the root as a directory or as a link to one. -/
theorem get?_of_isDir {left : Nat} (hlead : t.LeadsTo p.root left base) (hc : IsComponent name)
    (hdir : t.isDir (p.path name) = true) : t.get? (base ++ [name]) = some .dir ∨
      ∃ target, t.get? (base ++ [name]) = some (.link target) := by
  obtain ⟨-, left', loc, hpass⟩ := isDir_iff.1 hdir
  rw [LeadsTo, path, names_join p.root hc, passage_append, hlead, Except.bind] at hpass
  obtain ⟨s, hs, -⟩ := passage_cons_eq_ok_iff.1 hpass
  cases onward_eq_ok_iff.1 hs with
  | dot hdot => exact absurd hdot hc.ne_dot
  | up hup => exact absurd hup hc.ne_dots
  | dir _ _ _ hget => exact .inl hget
  | @link left target _ _ _ hget => exact .inr ⟨target, hget⟩

/-- What has become of what stands below a directory that holds products. -/
structure MovesProducts (p : ProductTree) (base : Location) (t after : FileTree)
    (newName : String → String) : Prop where
  products : ∀ name ∈ p.names, ∀ rest,
    after.get? (base ++ newName name :: rest) = t.get? (base ++ name :: rest)
  others : ∀ other, other ∉ p.names → t.get? (base ++ [other]) ≠ none →
    ∀ rest, after.get? (base ++ other :: rest) = t.get? (base ++ other :: rest)
  known : ∀ name, after.get? (base ++ [name]) ≠ none →
    (∃ product ∈ p.names, newName product = name) ∨
      name ∉ p.names ∧ t.get? (base ++ [name]) ≠ none
  outside : ∀ l, (∀ name, isWithin l (base ++ [name]) = false) → after.get? l = t.get? l

/-- When names have been shortened, each product stands in its place, under its own name or the
shorter one, all names are still different, and as many as are counted are new. A name that could be
shorter has been kept only where the shorter one was taken at its turn. Nothing has been lost: what
stood in the root has been moved with its product or stands where it stood, unless a product that is a
link has taken the place of a link that leads nowhere. -/
theorem shorten_moves_products (hwf : t.WellFormed) (hnames : p.names.Nodup)
    (hc : ∀ name ∈ p.names, IsComponent name)
    (hdirs : ∀ name ∈ p.names, t.isDir (p.path name) = true)
    (hrun : shorten 0 t p p.shortenings = ((after, q), .ok count)) :
    ∃ newName : String → String, q.root = p.root ∧
      q.products = p.products.map (fun entry => (newName entry.1, entry.2)) ∧ q.names.Nodup ∧
      (∀ name ∈ p.names, newName name = name ∨ newName name = stemOf name) ∧
      count = p.names.countP (fun name => newName name ≠ name) ∧
      (∀ name ∈ p.names, stemOf name ≠ name → newName name = name →
        ∃ now r, IsTurn t p p.shortenings name (stemOf name) now r ∧ IsTaken now r (stemOf name)) ∧
      ∀ left base, t.LeadsTo p.root left base → SparesLinks t base t p p.shortenings →
        MovesProducts p base t after newName := by
  have hpairs : ∀ pair ∈ p.shortenings,
      IsComponent pair.1 ∧ pair.2 = stemOf pair.1 ∧ pair.2 ≠ "" := fun pair hpair =>
    ⟨hc _ (mem_shortenings hpair).1, (mem_shortenings hpair).2⟩
  obtain ⟨newName, hrenamed, hkept, hcount, hturns⟩ :=
    (renamed_shortenings hnames).of_shorten hpairs hrun
  refine ⟨newName, hrenamed.root, hrenamed.products, hrenamed.nodup, hrenamed.named, ?_, ?_, ?_⟩
  · rw [hcount, Nat.zero_add, countP_shortenings hkept]
  · intro name hname hshort hsame
    exact hturns (name, stemOf name) (mem_shortenings_iff.2
      ⟨hname, rfl, hshort, stemOf_ne_empty (hc name hname)⟩) hsame
  · intro left base hlead hspares
    have hstart : Carried p base t p.shortenings t p id :=
      ⟨hwf, fun left' loc hloc => (hlead.unique hloc).2, renamed_shortenings hnames, moved_id p base t⟩
    obtain ⟨final, hfinal⟩ := hstart.of_shorten
      (fun name hname => get?_of_isDir hlead (hc name hname) (hdirs name hname)) hpairs hspares hrun
    have hlast : ∀ name ∈ p.names, final name = newName name :=
      fun name hname => hfinal.renamed.unique hrenamed hname
    exact {
      products := fun name hname rest => by
        rw [← hlast name hname]
        exact hfinal.moved.products name hname rest
      others := fun other hother hstands rest => hfinal.moved.get?_other hother hstands rest
      known := fun name hstands => by
        refine (hfinal.moved.known hstands).imp_left ?_
        rintro ⟨product, hproduct, rfl⟩
        exact ⟨product, hproduct, (hlast product hproduct).symm⟩
      outside := fun l hl => hfinal.moved.others l fun name _ => ⟨hl _, hl _⟩ }

/-- Products that are directories themselves spare all links. -/
theorem sparesLinks_of_dirs (hdirs : ∀ name ∈ p.names, t.get? (base ++ [name]) = some .dir) :
    SparesLinks t base t p p.shortenings := by
  rintro name short now q ⟨done, rest, heq, -⟩ target hlink
  have hpair : (name, short) ∈ p.shortenings := by simp [heq]
  rw [hdirs name (mem_shortenings hpair).1] at hlink
  cases hlink

/-! ### A link that is lost, and a name that nothing is in the way of -/

/-- A product that is a link, and a link that leads nowhere under its shorter name. -/
def brokenTree : FileTree :=
  ⟨[(["lib"], .dir), (["out"], .dir), (["out", "A.framework"], .link "/lib"),
    (["out", "A"], .link "nowhere")]⟩

def frameworkProducts : ProductTree := ⟨"/out", [("A.framework", none)]⟩

def mendedTree : FileTree := brokenTree.relocate ["out", "A.framework"] ["out", "A"]

theorem isDir_broken : brokenTree.isDir (frameworkProducts.path "A.framework") = true := by
  have hsteps : FileTree.steps (frameworkProducts.path "A.framework") = ["out", "A.framework"] := by
    decide
  have htarget : FileTree.steps "/lib" = ["lib"] := by decide
  rw [isDir, find?, resolve_of_isResolvable ⟨by decide, by decide, by decide⟩, hsteps]
  simp +decide [walk, brokenTree, get?, List.lookup_cons, maxLinks, htarget]

theorem isPresent_broken : brokenTree.isPresent (frameworkProducts.path "A") = false := by
  have hsteps : FileTree.steps (frameworkProducts.path "A") = ["out", "A"] := by decide
  have htarget : FileTree.steps "nowhere" = ["nowhere"] := by decide
  rw [isPresent, find?, resolve_of_isResolvable ⟨by decide, by decide, by decide⟩, hsteps]
  simp +decide [walk, brokenTree, get?, List.lookup_cons, maxLinks, htarget]

theorem rename_broken : brokenTree.rename (frameworkProducts.path "A.framework")
    (frameworkProducts.path "A") = .ok mendedTree := by
  have hlead : brokenTree.LeadsTo "/out" maxLinks ["out"] :=
    leadsTo_of_names (by decide) (by decide) (by decide) rfl
  have hsource : brokenTree.resolve false (frameworkProducts.path "A.framework") =
      .ok (.found ["out", "A.framework"] (.link "/lib")) := by
    refine (resolve_join hlead (by decide) (by decide)).trans ?_
    rw [walk_name (by decide) (by simp), if_neg (by decide)]
    rfl
  have htarget : brokenTree.resolve false (frameworkProducts.path "A") =
      .ok (brokenTree.placeIn ["out"] "A") := by
    refine (resolve_join hlead (by decide) (by decide)).trans ?_
    rw [walk_name (by decide) (by simp), if_neg (by decide)]
  rw [rename_leaf hsource (by simp) htarget (by decide)]
  rfl

theorem shorten_broken : shorten 0 brokenTree frameworkProducts frameworkProducts.shortenings =
    ((mendedTree, ⟨"/out", [("A", none)]⟩), .ok 1) := by
  have hpairs : frameworkProducts.shortenings = [("A.framework", "A")] := by decide
  rw [hpairs, shorten_rename 0 isPresent_broken (by decide) rename_broken]
  rfl

/-- A name that begins with two dots. -/
def dottedTree : FileTree := ⟨[(["out"], .dir), (["out", "..a"], .dir)]⟩

def dottedProducts : ProductTree := ⟨"/out", [("..a", none)]⟩

theorem shorten_dotted : shorten 0 dottedTree dottedProducts dottedProducts.shortenings =
    ((dottedTree, dottedProducts), .ok 0) := by
  have hpairs : dottedProducts.shortenings = [("..a", ".")] := by decide
  have hlead : dottedTree.LeadsTo "/out" maxLinks ["out"] :=
    leadsTo_of_names (by decide) (by decide) (by decide) rfl
  have hpresent : dottedTree.isPresent (dottedProducts.path ".") = true :=
    isPresent_dots hlead (.inl rfl) (by decide)
  rw [hpairs, shorten_skip 0 (.inl hpresent)]
  rfl

/-- A link that leads nowhere is lost when a product that is a link takes its place. And a name of
which a dot is left is kept, although no product and no entry of the root is called so. -/
theorem shorten_loses_link :
    (brokenTree.isDir (frameworkProducts.path "A.framework") = true ∧
      shorten 0 brokenTree frameworkProducts frameworkProducts.shortenings =
        ((mendedTree, ⟨"/out", [("A", none)]⟩), .ok 1) ∧
      "A" ∉ frameworkProducts.names ∧
      brokenTree.get? ["out", "A"] = some (.link "nowhere") ∧
      mendedTree.get? ["out", "A"] = some (.link "/lib") ∧
      ∀ entry ∈ mendedTree.entries, entry.2 ≠ .link "nowhere") ∧
    shorten 0 dottedTree dottedProducts dottedProducts.shortenings =
      ((dottedTree, dottedProducts), .ok 0) ∧
    stemOf "..a" = "." ∧ "." ∉ dottedProducts.names ∧ dottedTree.get? ["out", "."] = none :=
  ⟨⟨isDir_broken, shorten_broken, by decide, by decide, by decide, by decide⟩, shorten_dotted,
    by decide, by decide, by decide⟩

/-! ### A name that becomes free -/

/-- One product has the name that is left of another one, and a link leads nowhere. -/
def chainTree : FileTree :=
  ⟨[(["out"], .dir), (["out", "x.a"], .dir), (["out", "x.a", "k.bc"], .file .empty false),
    (["out", "x.a.b"], .dir), (["out", "old"], .link "nowhere")]⟩

def chainProducts : ProductTree := ⟨"/out", [("x.a", some "K"), ("x.a.b", none)]⟩

theorem shorten_chain : ∃ after,
    shorten 0 chainTree chainProducts chainProducts.shortenings =
      ((after, ⟨"/out", [("x", some "K"), ("x.a", none)]⟩), .ok 2) := by
  have hpairs : chainProducts.shortenings = [("x.a", "x"), ("x.a.b", "x.a")] := by decide
  have hlead : ∀ t : FileTree, t.get? ["out"] = some .dir → t.LeadsTo "/out" maxLinks ["out"] :=
    fun _ hdir => leadsTo_of_names (by decide) (by decide) (by decide) hdir
  refine ⟨(chainTree.relocate ["out", "x.a"] ["out", "x"]).relocate ["out", "x.a.b"] ["out", "x.a"],
    ?_⟩
  rw [hpairs, shorten_of_free 0 (hlead chainTree rfl) (by decide) (by decide) (by decide)
      (by decide) (by decide) (by decide) rfl rfl (by decide),
    shorten_of_free 1 (hlead _ (by decide)) (by decide) (by decide) (by decide) (by decide)
      (by decide) (by decide) (by decide) (by decide) (by decide)]
  rfl

/-- Both names are shortened, the second to the one that the first product had. The first product's
file has moved with it, and the link is still there. -/
theorem shorten_moves_products_chain :
    chainTree.WellFormed ∧ chainProducts.names.Nodup ∧
    (∀ name ∈ chainProducts.names, IsComponent name) ∧
    (∀ name ∈ chainProducts.names, chainTree.isDir (chainProducts.path name) = true) ∧
    chainTree.LeadsTo chainProducts.root maxLinks ["out"] ∧
    SparesLinks chainTree ["out"] chainTree chainProducts chainProducts.shortenings ∧
    ∃ after, shorten 0 chainTree chainProducts chainProducts.shortenings =
        ((after, ⟨"/out", [("x", some "K"), ("x.a", none)]⟩), .ok 2) ∧
      after.get? ["out", "x", "k.bc"] = some (.file .empty false) ∧
      after.get? ["out", "old"] = some (.link "nowhere") := by
  have hwf : chainTree.WellFormed := wellFormed_of_entries (by decide)
  have hnames : chainProducts.names.Nodup := by decide
  have hc : ∀ name ∈ chainProducts.names, IsComponent name := by decide
  have hlead : chainTree.LeadsTo chainProducts.root maxLinks ["out"] :=
    leadsTo_of_names (by decide) (by decide) (by decide) rfl
  have hstand : ∀ name ∈ chainProducts.names, chainTree.get? (["out"] ++ [name]) = some .dir := by
    decide
  have hdirs : ∀ name ∈ chainProducts.names, chainTree.isDir (chainProducts.path name) = true := by
    have hpaths : ∀ name ∈ chainProducts.names, IsResolvable (chainProducts.path name) := by decide
    have hshort : ∀ name ∈ chainProducts.names, ¬ maxName < name.utf8ByteSize := by decide
    intro name hname
    have hfound : chainTree.resolve true (chainProducts.path name) =
        .ok (.found (["out"] ++ [name]) .dir) := resolve_join_of_get? hlead (hc name hname)
      (hpaths name hname) (hshort name hname) (hstand name hname) (by simp)
    rw [isDir, find?_eq_some_iff.2 hfound]
  have hspares := sparesLinks_of_dirs hstand
  obtain ⟨after, hrun⟩ := shorten_chain
  obtain ⟨newName, -, hproducts, -, -, -, -, hmoves⟩ :=
    shorten_moves_products hwf hnames hc hdirs hrun
  have hnew : newName "x.a" = "x" := by
    simp only [chainProducts, List.map_cons, List.cons.injEq, Prod.mk.injEq] at hproducts
    exact hproducts.1.1.symm
  have hmoved := hmoves maxLinks ["out"] hlead hspares
  refine ⟨hwf, hnames, hc, hdirs, hlead, hspares, after, hrun, ?_, ?_⟩
  · have hfile := hmoved.products "x.a" (by decide) ["k.bc"]
    rw [hnew] at hfile
    exact hfile
  · exact hmoved.others "old" (by decide) (by decide) []

end BitcodeReplay.ProductTree
