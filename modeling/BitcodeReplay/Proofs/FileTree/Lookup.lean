import BitcodeReplay.FileTree.Basic
import Mathlib.Data.List.Basic

/-!
What stands where after a tree has been changed. Entries are looked up by their location alone, so
each change is described by one equation.
-/

namespace BitcodeReplay.FileTree

variable {t : FileTree} {l top source target : Location}

@[simp] theorem get?_nil (t : FileTree) : t.get? [] = some .dir := rfl

theorem get?_of_ne_nil (t : FileTree) (h : l ≠ []) : t.get? l = t.entries.lookup l := if_neg h

theorem isWithin_iff : isWithin l top = true ↔ ∃ rest, l = top ++ rest := by
  rw [isWithin, List.isPrefixOf_iff_prefix]
  constructor
  · rintro ⟨rest, rfl⟩
    exact ⟨rest, rfl⟩
  · rintro ⟨rest, rfl⟩
    exact ⟨rest, rfl⟩

@[simp] theorem isWithin_self (l : Location) : isWithin l l = true :=
  isWithin_iff.2 ⟨[], by simp⟩

@[simp] theorem isWithin_append (top rest : Location) : isWithin (top ++ rest) top = true :=
  isWithin_iff.2 ⟨rest, rfl⟩

theorem isWithin_trans {a b c : Location} (hab : isWithin a b = true)
    (hbc : isWithin b c = true) : isWithin a c = true := by
  obtain ⟨r, rfl⟩ := isWithin_iff.1 hab
  obtain ⟨s, rfl⟩ := isWithin_iff.1 hbc
  exact isWithin_iff.2 ⟨s ++ r, by simp⟩

theorem isWithin_sibling {a b : String} (h : a ≠ b) (hl : isWithin l (top ++ [a]) = true) :
    isWithin l (top ++ [b]) = false := by
  obtain ⟨rest, rfl⟩ := isWithin_iff.1 hl
  by_contra hb
  rw [Bool.not_eq_false] at hb
  obtain ⟨other, heq⟩ := isWithin_iff.1 hb
  rw [List.append_assoc, List.append_assoc] at heq
  exact h (List.cons_eq_cons.1 (List.append_cancel_left heq)).1

theorem isWithin_append_self (top : Location) (a : String) : isWithin top (top ++ [a]) = false := by
  by_contra h
  rw [Bool.not_eq_false] at h
  obtain ⟨rest, heq⟩ := isWithin_iff.1 h
  have hlength := congrArg List.length heq
  simp at hlength

/-! ### Entries by location -/

theorem lookup_filter_location (keep : Location → Bool) (l : Location)
    (entries : List (Location × Entry)) : (entries.filter fun p => keep p.1).lookup l =
      if keep l then entries.lookup l else none := by
  induction entries with
  | nil => simp
  | cons p rest ih =>
    obtain ⟨m, e⟩ := p
    by_cases hl : l = m
    · subst hl
      by_cases hk : keep l
      · simp [hk]
      · simp [hk, ih]
    · by_cases hk : keep m
      · simp [hk, List.lookup_cons, beq_false_of_ne hl, ih]
      · simp [hk, List.lookup_cons, beq_false_of_ne hl, ih]

/-- Entries that are moved are found where they have been moved to. -/
theorem lookup_map_location (source target rest : Location) (entries : List (Location × Entry)) :
    ((entries.filter fun p => isWithin p.1 source).map fun p =>
      (target ++ p.1.drop source.length, p.2)).lookup (target ++ rest) =
      entries.lookup (source ++ rest) := by
  induction entries with
  | nil => rfl
  | cons p others ih =>
    obtain ⟨m, e⟩ := p
    by_cases hm : isWithin m source = true
    · obtain ⟨s, rfl⟩ := isWithin_iff.1 hm
      simp only [List.filter_cons, hm, if_true, List.map_cons, List.drop_left, List.lookup_cons,
        ih]
      by_cases hs : rest = s
      · simp [hs]
      · have htarget : (target ++ rest == target ++ s) = false :=
          beq_false_of_ne fun he => hs (List.append_cancel_left he)
        have hsource : (source ++ rest == source ++ s) = false :=
          beq_false_of_ne fun he => hs (List.append_cancel_left he)
        rw [htarget, hsource]
    · have hne : source ++ rest ≠ m := fun he => hm (he ▸ isWithin_append source rest)
      simp only [List.filter_cons, hm, List.lookup_cons, beq_false_of_ne hne]
      exact ih

theorem lookup_map_location_of_not_within (source : Location)
    (entries : List (Location × Entry)) (h : isWithin l target = false) :
    (entries.map fun p => (target ++ p.1.drop source.length, p.2)).lookup l = none := by
  rw [List.lookup_eq_none_iff]
  intro p hp
  obtain ⟨q, -, rfl⟩ := List.mem_map.1 hp
  have hne : l ≠ target ++ q.1.drop source.length := by
    rintro rfl
    simp at h
  exact bne_iff_ne.2 hne

/-! ### Changes -/

theorem get?_erase (t : FileTree) (hl : l ≠ []) (top : Location) :
    (t.erase top).get? l = if isWithin l top then none else t.get? l := by
  rw [get?_of_ne_nil _ hl, get?_of_ne_nil _ hl, erase]
  exact (lookup_filter_location (fun l => !isWithin l top) l t.entries).trans (by
    cases isWithin l top <;> rfl)

/-- At its new place stands what stood at the old one, which is empty now. -/
theorem get?_relocate_target (t : FileTree) (hs : source ≠ []) (ht : target ≠ [])
    (rest : Location) : (t.relocate source target).get? (target ++ rest) =
      t.get? (source ++ rest) := by
  rw [get?_of_ne_nil _ (by simp [ht]), get?_of_ne_nil _ (by simp [hs]), relocate,
    List.lookup_append, lookup_map_location]
  have hfirst : (t.entries.filter fun p =>
      !isWithin p.1 source && !isWithin p.1 target).lookup (target ++ rest) = none := by
    rw [lookup_filter_location (fun l => !isWithin l source && !isWithin l target)]
    simp
  rw [hfirst, Option.none_or]

theorem get?_relocate_of_not_within (t : FileTree) (hl : l ≠ []) (source : Location)
    (h : isWithin l target = false) :
    (t.relocate source target).get? l = if isWithin l source then none else t.get? l := by
  rw [get?_of_ne_nil _ hl, get?_of_ne_nil _ hl, relocate, List.lookup_append,
    lookup_map_location_of_not_within source _ h, Option.or_none,
    lookup_filter_location (fun l => !isWithin l source && !isWithin l target), h]
  cases isWithin l source <;> rfl

/-- What stands at a location is listed. -/
theorem mem_entries_of_get? {e : Entry} (hl : l ≠ []) (h : t.get? l = some e) :
    (l, e) ∈ t.entries := by
  rw [get?_of_ne_nil _ hl, List.lookup_eq_some_iff] at h
  obtain ⟨front, back, hentries, -⟩ := h
  simp [hentries]

/-! ### The names in a directory -/

theorem get?_isSome_iff (t : FileTree) (hl : l ≠ []) :
    (t.get? l).isSome ↔ ∃ e, (l, e) ∈ t.entries := by
  rw [get?_of_ne_nil _ hl, List.lookup_isSome_iff]
  constructor
  · rintro ⟨⟨m, e⟩, hmem, heq⟩
    obtain rfl : l = m := by simpa using heq
    exact ⟨e, hmem⟩
  · rintro ⟨e, he⟩
    exact ⟨(l, e), he, by simp⟩

theorem mem_namesIn {name : String} :
    name ∈ t.namesIn top ↔ (t.get? (top ++ [name])).isSome := by
  rw [get?_isSome_iff t (by simp), namesIn, List.mem_reverse, List.mem_filterMap]
  constructor
  · rintro ⟨⟨names, e⟩, hmem, hname⟩
    obtain ⟨⟨m, e'⟩, hm, heq⟩ := List.mem_map.1 hmem
    obtain ⟨hentry, hwithin⟩ := List.mem_filter.1 hm
    simp only [Bool.and_eq_true] at hwithin
    obtain ⟨rest, rfl⟩ := isWithin_iff.1 hwithin.1
    simp only [List.drop_left, Prod.mk.injEq] at heq
    obtain ⟨rfl, rfl⟩ := heq
    split at hname
    · next other he =>
      obtain rfl : other = name := Option.some.inj hname
      exact ⟨e', he ▸ hentry⟩
    · exact absurd hname (by simp)
  · rintro ⟨e, he⟩
    refine ⟨([name], e), ?_, rfl⟩
    rw [below, List.mem_map]
    exact ⟨(top ++ [name], e), List.mem_filter.2 ⟨he, by simp⟩, by simp⟩

end BitcodeReplay.FileTree
