import BitcodeReplay.Proofs.ProductTree.Shorten
import BitcodeReplay.Proofs.Replay.Bounds

/-!
Consolidating stays within the root. What is copied and what is renamed goes to the place of its
names below the root, as long as no link stands there.
-/

namespace BitcodeReplay.ProductTree

open Path FileTree Replay Bounds

variable {b : Bounds} {made now now' : FileTree} {scratch root source target path product : String}
  {name short : String} {names : Location} {left : Nat} {p q : ProductTree} {g : Graph}
  {embedded : List String}

/-! ### Copying -/

section Kept

variable (h : b.Kept made now) (hproper : now.Proper) (hfits : b.Fits made scratch root)
  (hlead : made.LeadsTo root left b.root)
include h hproper hfits

include hlead in
/-- Directories are made below the root only, as it is there. -/
theorem kept_createDirAll (hpath : Path.names path = Path.names root ++ names)
    (hc : ∀ name ∈ names, IsComponent name) :
    b.Kept made (now.createDirAll path).1 ∧ (now.createDirAll path).1.Proper := by
  refine ⟨h.change fun l hne => ?_, proper_createDirAll hproper path⟩
  have hmade := (h.leadsTo hfits hlead).get?_createDirAll_below hproper.wellFormed h.linkFree_root
    hpath hc l
  rcases hmade with hsame | ⟨⟨name, rest, rfl⟩, -, hdir⟩
  · exact absurd hsame hne
  · exact ⟨b.covers_root name rest, by simp [hdir]⟩

/-- A file is copied to a place below the root. -/
theorem kept_copyFile (hpath : Path.names path = Path.names root ++ names) (hne : names ≠ [])
    (hc : ∀ name ∈ names, IsComponent name) (hcopy : now.copyFile source path = .ok now') :
    b.Kept made now' ∧ now'.Proper := by
  rcases copyFile_eq_ok hcopy with ⟨loc, bytes, executable, htakes, rfl⟩ | rfl
  · refine ⟨h.change fun l hchange => ?_, hproper.put_file htakes⟩
    have hloc : loc = b.root ++ names :=
      (h.toRoot hfits).takesFile_below h.linkFree_root hpath hne hc htakes
    rw [get?_put _ _ _ _ htakes.get?.1] at hchange ⊢
    split
    · next heq =>
      obtain ⟨name, rest, rfl⟩ := List.exists_cons_of_ne_nil hne
      exact ⟨heq ▸ hloc ▸ b.covers_root name rest, by simp⟩
    · next hother => exact absurd (if_neg hother) hchange
  · exact ⟨h, hproper⟩

end Kept

variable {entries : List (Location × Entry)}

/-- What is copied goes to places below the directory of a product. -/
theorem kept_copyEntries (h : b.Kept made now) (hproper : now.Proper)
    (hfits : b.Fits made scratch root) (hlead : made.LeadsTo root left b.root)
    (hproduct : IsComponent product) (hc : ∀ entry ∈ entries, ∀ name ∈ entry.1, IsComponent name) :
    b.Kept made (copyEntries source (join root product) now entries).1 ∧
      (copyEntries source (join root product) now entries).1.Proper := by
  have hpath : ∀ names : Location, (∀ name ∈ names, IsComponent name) →
      Path.names (join (join root product) (String.intercalate "/" names)) =
        Path.names root ++ product :: names := by
    intro names hnames
    rw [names_join_intercalate _ hnames, names_join root hproduct, List.append_assoc,
      List.singleton_append]
  have hbelow : ∀ entry ∈ entries, ∀ name ∈ product :: entry.1, IsComponent name :=
    fun entry hentry => List.forall_mem_cons.2 ⟨hproduct, hc entry hentry⟩
  refine copyEntries_invariant (P := fun now => b.Kept made now ∧ now.Proper)
    (fun q hq now hnow => ?_) (fun q hq now copied hnow hcopy => ?_) ⟨h, hproper⟩
  · exact kept_createDirAll hnow.1 hnow.2 hfits hlead (hpath _ (hc q hq)) (hbelow q hq)
  · exact kept_copyFile hnow.1 hnow.2 hfits (hpath _ (hc q hq)) (List.cons_ne_nil _ _)
      (hbelow q hq) hcopy

/-- The directory of a product is copied into that of another. -/
theorem kept_copyTree (h : b.Kept made now) (hproper : now.Proper)
    (hfits : b.Fits made scratch root) (hname : IsComponent name) (hproduct : IsComponent product) :
    b.Kept made (copyTree now (join root name) (join root product)).1 ∧
      (copyTree now (join root name) (join root product)).1.Proper := by
  rw [copyTree]
  by_cases hdir : ∃ loc, now.find? (join root name) = some (loc, .dir)
  · obtain ⟨loc, hfind⟩ := hdir
    -- as there is a directory to be copied, the root leads somewhere
    obtain ⟨left, here, hlead, -⟩ :=
      leadsTo_of_resolve_join hname (find?_eq_some_iff.1 hfind)
    obtain rfl := (h.toRoot hfits).leads left here hlead
    have hleadMade : made.LeadsTo root left b.root := by
      rw [LeadsTo, ← hfits.toRoot.stays.passage_eq h.agree]
      exact hlead
    refine kept_copyEntries h hproper hfits hleadMade hproduct fun entry hentry part hpart => ?_
    have hstands : now.get? (loc ++ entry.1) ≠ none := by
      simp [(get?_of_mem_entriesBelow hfind (mem_listedBelow_iff.1 hentry).1).2]
    exact hproper.isComponent hstands hpart
  · have hnone : now.listedBelow (join root name) = [] := by
      rw [listedBelow, entriesBelow]
      split
      · next loc hfind => exact absurd ⟨loc, hfind⟩ hdir
      · rfl
    rw [hnone]
    exact ⟨h, hproper⟩

/-! ### Merging -/

theorem kept_runSteps {steps : List Step} (h : b.Kept made now) (hproper : now.Proper)
    (hfits : b.Fits made scratch root) (hroot : p.root = root)
    (hsteps : ∀ source target, Step.copy source target ∈ steps →
      IsComponent source ∧ IsComponent target) :
    b.Kept made (p.runSteps now steps).1 ∧ (p.runSteps now steps).1.Proper := by
  refine runSteps_invariant (P := fun now => b.Kept made now ∧ now.Proper)
    (fun source target hmem now hnow => ?_) ⟨h, hproper⟩
  obtain ⟨hsource, htarget⟩ := hsteps source target hmem
  simp only [path, hroot]
  exact kept_copyTree hnow.1 hnow.2 hfits hsource htarget

/-! ### Shortening -/

/-- The directory of a product is renamed below the root. -/
theorem kept_rename (h : b.Kept made now) (hfits : b.Fits made scratch root)
    (hname : IsComponent name) (hshort : IsComponent short)
    (hmove : now.rename (join root name) (join root short) = .ok now') : b.Kept made now' := by
  obtain ⟨loc, e, p, hsource, htarget, ⟨-, rfl⟩ | rfl⟩ := rename_eq_ok hmove
  · exact h
  obtain rfl : loc = b.root ++ [name] := by
    obtain ⟨left, here, hlead, hwalk⟩ := leadsTo_of_resolve_join hname hsource
    obtain rfl := (h.toRoot hfits).leads left here hlead
    exact h.linkFree_root.walk_loc (by simpa using hname) hwalk
  have hp : p.loc = b.root ++ [short] := by
    rcases htarget with hwalk | hresolve
    · rw [names_join root hshort] at hwalk
      exact (h.toRoot hfits).walk_below h.linkFree_root (by simp) (by simpa using hshort) hwalk
    · exact (h.toRoot hfits).resolve_below h.linkFree_root (names_join root hshort) (by simp)
        (by simpa using hshort) hresolve
  rw [hp]
  refine h.change fun l hne => ?_
  by_cases hto : isWithin l (b.root ++ [short]) = true
  · -- what stands there now has been moved, and was no link
    obtain ⟨rest, rfl⟩ := isWithin_iff.1 hto
    rw [get?_relocate_target _ (by simp) (by simp)]
    simp only [List.append_assoc, List.singleton_append]
    exact ⟨b.covers_root short rest, fun target => h.linkFree_root name rest target⟩
  · rw [Bool.not_eq_true] at hto
    by_cases hnil : l = []
    · subst hnil
      exact absurd rfl hne
    rw [get?_relocate_of_not_within _ hnil _ hto] at hne ⊢
    split
    · next hfrom =>
      obtain ⟨rest, rfl⟩ := isWithin_iff.1 hfrom
      rw [List.append_assoc, List.singleton_append]
      exact ⟨b.covers_root name rest, by simp⟩
    · next hfrom => exact absurd (if_neg hfrom) hne

/-- Shortening names changes places below the root only, and what is left of a name is one. -/
theorem kept_shorten {count : Nat} {pairs : List (String × String)} (h : b.Kept made now)
    (hfits : b.Fits made scratch root) (hroot : q.root = root)
    (hnames : ∀ name ∈ q.names, IsComponent name)
    (hpairs : ∀ pair ∈ pairs, IsComponent pair.1 ∧ pair.2 = stemOf pair.1 ∧ pair.2 ≠ "") :
    b.Kept made (shorten count now q pairs).1.1 ∧
      ∀ name ∈ (shorten count now q pairs).1.2.names, IsComponent name := by
  induction pairs generalizing count now q with
  | nil => exact ⟨h, hnames⟩
  | cons pair rest ih =>
    obtain ⟨name, short⟩ := pair
    obtain ⟨hname, hshort, hempty⟩ := hpairs _ List.mem_cons_self
    simp only at hname hshort hempty
    subst hshort
    have hrest : ∀ pair ∈ rest, IsComponent pair.1 ∧ pair.2 = stemOf pair.1 ∧ pair.2 ≠ "" :=
      fun pair hpair => hpairs pair (List.mem_cons_of_mem _ hpair)
    rcases shorten_cons_cases count now q name (stemOf name) rest with
      ⟨-, heq⟩ | ⟨habsent, -, ⟨moved, hmove, heq⟩ | ⟨e, -, heq⟩⟩
    · rw [heq]
      exact ih h hroot hnames hrest
    · rw [path, hroot] at habsent
      rw [path, path, hroot] at hmove
      have hcomponent : IsComponent (stemOf name) := by
        obtain ⟨l, e, hplace⟩ := found_of_rename hmove
        obtain ⟨left, here, hlead, -⟩ := leadsTo_of_resolve_join hname hplace
        exact isComponent_stemOf hlead hname (resolve_eq_ok_iff.1 hplace).1 hempty habsent
      rw [heq]
      refine ih (kept_rename h hfits hname hcomponent hmove) hroot (fun other hother => ?_) hrest
      simp only [names, renameProduct, List.map_map, List.mem_map, Function.comp_apply] at hother
      obtain ⟨entry, hentry, rfl⟩ := hother
      split
      · exact hcomponent
      · exact hnames _ (List.mem_map_of_mem hentry)
    · rw [heq]
      exact ⟨h, hnames⟩

/-- Consolidating changes places below the root only, and every product is known by a name that leads
to a place right below the root. -/
theorem kept_consolidate (h : b.Kept made now) (hproper : now.Proper)
    (hfits : b.Fits made scratch root) (hroot : p.root = root)
    (hnames : ∀ name ∈ p.names, IsComponent name) :
    b.Kept made (consolidate now p g embedded).1.1 ∧
      ∀ name ∈ (consolidate now p g embedded).1.2.names, IsComponent name := by
  have hsteps : ∀ source target, Step.copy source target ∈ p.steps g embedded →
      IsComponent source ∧ IsComponent target := by
    intro source target hmem
    obtain ⟨hsource, htarget, -⟩ := names_of_mem_steps hmem
    exact ⟨hnames source hsource, hnames target htarget⟩
  have hmerged := kept_runSteps h hproper hfits hroot hsteps
  rw [consolidate]
  split
  next merged e heq =>
    rw [heq] at hmerged
    exact ⟨hmerged.1, hnames⟩
  next merged heq =>
    rw [heq] at hmerged
    have hshortened : b.Kept made (shorten 0 merged p p.shortenings).1.1 ∧
        ∀ name ∈ (shorten 0 merged p p.shortenings).1.2.names, IsComponent name :=
      kept_shorten hmerged.1 hfits hroot hnames fun pair hpair =>
        have hmem := mem_shortenings hpair
        ⟨hnames _ hmem.1, hmem.2⟩
    split
    next after e heq' =>
      rw [heq'] at hshortened
      exact hshortened
    next after renamed heq' =>
      rw [heq'] at hshortened
      exact hshortened

end BitcodeReplay.ProductTree
