import BitcodeReplay.Proofs.FileTree.Edit
import BitcodeReplay.Proofs.List

/-!
Trees as they stand on a disk, and what a walk through one of their directories comes by: each entry
once, and a directory before what it holds.
-/

namespace BitcodeReplay.FileTree

open Path

/-- Only directories hold entries, each under one name that leads to it. -/
structure Proper (t : FileTree) : Prop where
  wellFormed : WellFormed t
  named : ∀ loc name, t.get? (loc ++ [name]) ≠ none → IsComponent name
  distinct : (t.entries.map (·.1)).Nodup

variable {t : FileTree} {loc top names : Location} {e : Entry} {bound : Nat}

/-- It is enough to look at the entries that the tree lists. -/
theorem proper_of_entries (hdirs : ∀ p ∈ t.entries, t.get? p.1.dropLast = some .dir)
    (hnamed : ∀ p ∈ t.entries, ∀ name ∈ p.1, IsComponent name)
    (hdistinct : (t.entries.map (·.1)).Nodup) : Proper t where
  wellFormed := wellFormed_of_entries hdirs
  named := by
    intro loc name hne
    obtain ⟨e, he⟩ := (get?_isSome_iff t (by simp)).1 (Option.isSome_iff_ne_none.2 hne)
    exact hnamed _ he name (by simp)
  distinct := hdistinct

/-- What stands below a directory is named from there by components. -/
theorem Proper.isComponent (ht : Proper t) (h : t.get? (loc ++ names) ≠ none) {name : String}
    (hname : name ∈ names) : IsComponent name := by
  obtain ⟨front, back, rfl⟩ := List.append_of_mem hname
  refine ht.named (loc ++ front) name fun hnone => h ?_
  have hnodir : t.get? (loc ++ front ++ [name]) ≠ some .dir := by
    rw [hnone]
    simp
  by_cases hback : back = []
  · rw [hback, ← List.append_assoc, hnone]
  · have hbelow := ht.wellFormed.get?_below hnodir hback
    simpa using hbelow

theorem Proper.nodup_namesIn (ht : Proper t) (top : Location) : (t.namesIn top).Nodup := by
  have hentries : t.entries.Pairwise fun p q => p.1 ≠ q.1 := List.pairwise_map.1 ht.distinct
  rw [namesIn, List.nodup_reverse, List.Nodup, List.pairwise_filterMap, below, List.pairwise_map]
  refine (hentries.filter _).imp_of_mem fun {p q} hp hq hne name hname other hother => ?_
  obtain ⟨rest, hrest⟩ := isWithin_iff.1 (Bool.and_eq_true_iff.1 (List.mem_filter.1 hp).2).1
  obtain ⟨rest', hrest'⟩ := isWithin_iff.1 (Bool.and_eq_true_iff.1 (List.mem_filter.1 hq).2).1
  rintro rfl
  refine hne ?_
  simp only [hrest, hrest', List.drop_left] at hname hother ⊢
  split at hname
  · split at hother
    · cases hname
      cases hother
      rfl
    · cases hother
  · cases hname

/-- What is above an entry is a directory. -/
theorem WellFormed.get?_above (hwf : WellFormed t) {rest : Location} (hrest : rest ≠ [])
    (h : t.get? (loc ++ rest) ≠ none) : t.get? loc = some .dir := by
  by_contra hdir
  exact h (hwf.get?_below hdir hrest)

/-! ### Putting an entry -/

theorem map_putEntry (loc : Location) (e : Entry) (entries : List (Location × Entry)) :
    (putEntry loc e entries).map (·.1) =
      if loc ∈ entries.map (·.1) then entries.map (·.1) else entries.map (·.1) ++ [loc] := by
  induction entries with
  | nil => simp [putEntry]
  | cons p rest ih =>
    obtain ⟨l, known⟩ := p
    rw [putEntry]
    by_cases hl : l = loc
    · simp [hl]
    · rw [if_neg hl, List.map_cons, ih]
      by_cases hmem : loc ∈ rest.map (·.1)
      · simp only [hmem, if_true, List.map_cons, List.mem_cons, or_true]
      · simp only [hmem, if_false, List.map_cons, List.mem_cons, Ne.symm hl, or_self,
          List.cons_append]

theorem Proper.put (ht : Proper t) {name : String} (hdir : t.get? loc = some .dir)
    (hc : IsComponent name) (hfree : t.get? (loc ++ [name]) ≠ some .dir) :
    Proper (t.put (loc ++ [name]) e) where
  wellFormed := wellFormed_put ht.wellFormed hdir hfree
  named := by
    intro l other hne
    rw [get?_put _ _ _ _ (by simp)] at hne
    split at hne
    · next heq =>
      obtain ⟨-, hname⟩ := List.append_inj' heq rfl
      exact List.singleton_inj.1 hname ▸ hc
    · exact ht.named l other hne
  distinct := by
    rw [FileTree.put, map_putEntry]
    split
    · exact ht.distinct
    · next hnew => exact List.nodup_append_comm.1 (List.nodup_cons.2 ⟨hnew, ht.distinct⟩)

/-- The names that are followed on a path are components, but for dots. -/
theorem isComponent_of_mem_steps {path name : String} (h : name ∈ steps path) (hdot : name ≠ ".")
    (hup : name ≠ "..") : IsComponent name := by
  rcases List.mem_append.1 h with h | h
  · exact isComponent_of_mem_names h hup
  · split at h
    · exact absurd (List.mem_singleton.1 h) hdot
    · cases h

/-- Where names lead to a free place, it is that of a component in a directory. -/
theorem Proper.parent_of_walk_free (ht : Proper t) {follow : Bool} {links : Nat} {here : Location}
    (hhere : t.get? here = some .dir) {names : List String}
    (hnames : ∀ name ∈ names, name ≠ "." → name ≠ ".." → IsComponent name)
    (h : t.walk follow links here names = .ok (.free loc)) :
    ∃ front name, loc = front ++ [name] ∧ t.get? front = some .dir ∧ IsComponent name := by
  induction links, here, names using t.walk_induction with
  | nil links here =>
    rw [walk_nil] at h
    cases h
  | cons links here name rest ih =>
    rcases walk_cons_eq_ok_iff.1 h with hp | ⟨-, s, hs, h⟩
    · obtain ⟨-, hdot, hup, -, ⟨-, hfree⟩ | ⟨e, -, -, heq, -⟩⟩ := ending?_eq_some hp
      · cases hfree
        exact ⟨here, name, rfl, hhere, hnames name List.mem_cons_self hdot hup⟩
      · cases heq
    · refine ih s hs (ht.wellFormed.onward_dir hhere hs) (fun other hother => ?_) h
      rcases mem_of_onward hs hother with hrest | ⟨target, htarget⟩
      · exact hnames other (List.mem_cons_of_mem _ hrest)
      · exact isComponent_of_mem_steps htarget

/-- A file that is written keeps the tree proper. -/
theorem Proper.put_file (ht : Proper t) {path : String} (h : t.TakesFile path loc)
    {bytes : ByteArray} {executable : Bool} : Proper (t.put loc (.file bytes executable)) := by
  rcases h with hfree | ⟨known, x, hfound⟩
  · obtain ⟨-, hwalk⟩ := resolve_eq_ok_iff.1 hfree
    obtain ⟨front, name, rfl, hdir, hc⟩ := ht.parent_of_walk_free rfl
      (fun name => isComponent_of_mem_steps) hwalk
    exact ht.put hdir hc (by simp [(get?_of_walk_free hwalk).2])
  · have hget := get?_of_resolve hfound (by simp)
    obtain ⟨front, name, rfl⟩ :=
      (List.eq_nil_or_concat loc).resolve_left (ne_nil_of_get? hget (by simp))
    rw [List.concat_eq_append] at hget ⊢
    have hne : t.get? (front ++ [name]) ≠ none := by simp [hget]
    exact ht.put (ht.wellFormed front name hne) (ht.named front name hne) (by simp [hget])

/-! ### Moving a file -/

theorem nodup_relocate (h : (t.entries.map (·.1)).Nodup) (source target : Location) :
    ((t.relocate source target).entries.map (·.1)).Nodup := by
  rw [relocate, List.map_append, List.nodup_append]
  refine ⟨h.sublist (List.filter_sublist.map _), ?_, fun x hx y hy => ?_⟩
  · rw [List.map_map, List.Nodup, List.pairwise_map]
    refine ((List.pairwise_map.1 h).filter _).imp_of_mem fun {p q} hp hq hne heq => hne ?_
    obtain ⟨rest, hrest⟩ := isWithin_iff.1 (List.mem_filter.1 hp).2
    obtain ⟨rest', hrest'⟩ := isWithin_iff.1 (List.mem_filter.1 hq).2
    rw [Function.comp_apply, Function.comp_apply, hrest, hrest', List.drop_left, List.drop_left]
      at heq
    rw [hrest, hrest', List.append_cancel_left heq]
  · -- only what has been moved stands within the target
    obtain ⟨p, hp, rfl⟩ := List.mem_map.1 hx
    obtain ⟨q, hq, rfl⟩ := List.mem_map.1 hy
    obtain ⟨r, -, rfl⟩ := List.mem_map.1 hq
    intro heq
    have hwithin := (List.mem_filter.1 hp).2
    rw [heq] at hwithin
    simp at hwithin

theorem Proper.relocate_leaf (ht : Proper t) {out : Location} {name : String}
    (hleaf : t.get? loc = some e) (he : e ≠ .dir) (hout : t.get? out = some .dir)
    (hc : IsComponent name) (hdest : t.get? (out ++ [name]) ≠ some .dir) :
    Proper (t.relocate loc (out ++ [name])) where
  wellFormed := wellFormed_relocate_leaf ht.wellFormed hleaf he hout hdest
  named := by
    intro l other hne
    rw [get?_relocate_leaf ht.wellFormed hleaf he hdest (by simp)] at hne
    split at hne
    · next heq =>
      obtain ⟨-, hname⟩ := List.append_inj' heq rfl
      exact List.singleton_inj.1 hname ▸ hc
    · split at hne
      · exact absurd rfl hne
      · exact ht.named l other hne
  distinct := nodup_relocate ht.distinct loc (out ++ [name])

/-! ### Walks -/

theorem mem_walkBelow {p : Location × Entry} (h : p ∈ t.walkBelow bound top) :
    p.1 ≠ [] ∧ t.get? (top ++ p.1) = some p.2 := by
  induction bound generalizing top p with
  | zero => simp [walkBelow] at h
  | succ bound ih =>
    rw [walkBelow, List.mem_flatMap] at h
    obtain ⟨name, -, hp⟩ := h
    split at hp
    · cases hp
    next e hget =>
      rcases List.mem_cons.1 hp with rfl | hp
      · exact ⟨by simp, hget⟩
      · split at hp
        · obtain ⟨q, hq, rfl⟩ := List.mem_map.1 hp
          refine ⟨by simp, ?_⟩
          have hbelow := (ih hq).2
          rwa [List.append_assoc, List.singleton_append] at hbelow
        · cases hp

theorem mem_walkBelow_of_get? (hwf : WellFormed t) (hnames : names ≠ [])
    (hbound : names.length ≤ bound) (hget : t.get? (top ++ names) = some e) :
    (names, e) ∈ t.walkBelow bound top := by
  induction bound generalizing top names with
  | zero => exact absurd (List.length_eq_zero_iff.1 (Nat.le_zero.1 hbound)) hnames
  | succ bound ih =>
    cases names with
    | nil => exact absurd rfl hnames
    | cons name rest =>
      rw [walkBelow, List.mem_flatMap]
      rcases List.eq_nil_or_concat rest with rfl | hrest
      · refine ⟨name, mem_namesIn.2 (by simp [hget]), ?_⟩
        simp [hget]
      · have hne : rest ≠ [] := by
          obtain ⟨front, last, rfl⟩ := hrest
          simp
        have hget' : t.get? (top ++ [name] ++ rest) = some e := by simpa using hget
        have hdir := hwf.get?_above hne (Option.ne_none_iff_exists'.2 ⟨e, hget'⟩)
        refine ⟨name, mem_namesIn.2 (by simp [hdir]), ?_⟩
        rw [hdir]
        refine List.mem_cons_of_mem _ ?_
        rw [if_pos rfl, List.mem_map]
        exact ⟨(rest, e), ih hne (by simpa using hbound) hget', rfl⟩

/-- A location is no longer than there are entries, as all that is above it stands in the tree too. -/
theorem WellFormed.length_le (hwf : WellFormed t) (hget : t.get? loc ≠ none) :
    loc.length ≤ t.entries.length := by
  let above := (List.range loc.length).map fun i => loc.take (i + 1)
  have hnodup : above.Nodup := by
    refine List.Nodup.map_on (fun i hi j hj heq => ?_) List.nodup_range
    have hlength := congrArg List.length heq
    rw [List.mem_range] at hi hj
    simp only [List.length_take] at hlength
    omega
  have hsubset : above ⊆ t.entries.map (·.1) := by
    intro l hl
    obtain ⟨i, hi, rfl⟩ := List.mem_map.1 hl
    rw [List.mem_range] at hi
    have hstands : t.get? (loc.take (i + 1)) ≠ none := by
      by_cases hdrop : loc.drop (i + 1) = []
      · rwa [List.take_of_length_le (List.drop_eq_nil_iff.1 hdrop)]
      · rw [← List.take_append_drop (i + 1) loc] at hget
        rw [hwf.get?_above hdrop hget]
        simp
    have hne : loc.take (i + 1) ≠ [] := by
      intro hnil
      have hlength := congrArg List.length hnil
      simp only [List.length_take, List.length_nil] at hlength
      omega
    obtain ⟨e, he⟩ := (get?_isSome_iff t hne).1 (Option.isSome_iff_ne_none.2 hstands)
    exact List.mem_map.2 ⟨_, he, rfl⟩
  have hlength := hnodup.length_le_of_subset hsubset
  simpa [above] using hlength

theorem get?_of_mem_entriesBelow {path : String} (hfind : t.find? path = some (loc, .dir))
    {p : Location × Entry} (h : p ∈ t.entriesBelow path) :
    p.1 ≠ [] ∧ t.get? (loc ++ p.1) = some p.2 := by
  rw [entriesBelow, hfind] at h
  exact mem_walkBelow h

/-- A walk through a directory comes by all that stands below it. -/
theorem mem_entriesBelow_iff (hwf : WellFormed t) {path : String}
    (hfind : t.find? path = some (loc, .dir)) {p : Location × Entry} :
    p ∈ t.entriesBelow path ↔ p.1 ≠ [] ∧ t.get? (loc ++ p.1) = some p.2 := by
  refine ⟨get?_of_mem_entriesBelow hfind, fun ⟨hne, hget⟩ => ?_⟩
  rw [entriesBelow, hfind]
  refine mem_walkBelow_of_get? hwf hne ?_ hget
  have hstands : t.get? (loc ++ p.1) ≠ none := by simp [hget]
  have hlength := hwf.length_le hstands
  rw [List.length_append] at hlength
  omega

theorem mem_listedBelow_iff {path : String} {p : Location × Entry} :
    p ∈ t.listedBelow path ↔ p ∈ t.entriesBelow path ∧ isListed path p.1 = true :=
  List.mem_filter

/-- What a walk comes by under one name of a directory. -/
def walkUnder (t : FileTree) (bound : Nat) (top : Location) (name : String) :
    List (Location × Entry) :=
  match t.get? (top ++ [name]) with
  | none => []
  | some e =>
    ([name], e) ::
      if e = .dir then (t.walkBelow bound (top ++ [name])).map fun p => (name :: p.1, p.2) else []

theorem walkBelow_succ (t : FileTree) (bound : Nat) (top : Location) :
    t.walkBelow (bound + 1) top = (t.namesIn top).flatMap (t.walkUnder bound top) := rfl

theorem eq_cons_of_mem_walkUnder {name : String} {p : Location × Entry}
    (h : p ∈ t.walkUnder bound top name) : ∃ rest, p.1 = name :: rest := by
  rw [walkUnder] at h
  split at h
  · cases h
  · rcases List.mem_cons.1 h with rfl | h
    · exact ⟨[], rfl⟩
    · split at h
      · obtain ⟨q, -, rfl⟩ := List.mem_map.1 h
        exact ⟨q.1, rfl⟩
      · cases h

/-- A walk comes by a directory before it comes by what that holds. -/
theorem Proper.pairwise_walkBelow (ht : Proper t) (bound : Nat) (top : Location) :
    (t.walkBelow bound top).Pairwise fun p q => q.1 ≠ p.1.dropLast := by
  induction bound generalizing top with
  | zero => exact List.Pairwise.nil
  | succ bound ih =>
    rw [walkBelow_succ, List.pairwise_flatMap]
    constructor
    · intro name _
      rw [walkUnder]
      split
      · exact List.Pairwise.nil
      rw [List.pairwise_cons]
      split
      · refine ⟨fun q hq => ?_, ?_⟩
        · obtain ⟨r, -, rfl⟩ := List.mem_map.1 hq
          simp
        · rw [List.pairwise_map]
          refine (ih (top ++ [name])).imp_of_mem fun {p q} hp _ hne heq => hne ?_
          rw [List.dropLast_cons_of_ne_nil (mem_walkBelow hp).1] at heq
          exact (List.cons_eq_cons.1 heq).2
      · exact ⟨fun q hq => absurd hq List.not_mem_nil, List.Pairwise.nil⟩
    · -- what stands under one name is not above what stands under another
      refine (ht.nodup_namesIn top).imp fun {a b} hne p hp q hq heq => ?_
      obtain ⟨rest, hrest⟩ := eq_cons_of_mem_walkUnder hp
      obtain ⟨rest', hrest'⟩ := eq_cons_of_mem_walkUnder hq
      rw [hrest, hrest'] at heq
      cases rest with
      | nil => simp at heq
      | cons first rest =>
        rw [List.dropLast_cons_cons] at heq
        exact hne (List.cons_eq_cons.1 heq).1.symm

end BitcodeReplay.FileTree
