import BitcodeReplay.Proofs.FileTree.Walk
import BitcodeReplay.Proofs.Path

/-!
Where a path to an entry of a directory leads, once it is known where the path of the directory
leads.
-/

namespace BitcodeReplay.FileTree

open Path

/-- A path that can lead somewhere. -/
structure IsResolvable (path : String) : Prop where
  noNul : path.toList.contains '\x00' = false
  ne_empty : path ≠ ""
  short : path.utf8ByteSize ≤ maxPath

instance (path : String) : Decidable (IsResolvable path) :=
  decidable_of_iff
    (path.toList.contains '\x00' = false ∧ path ≠ "" ∧ path.utf8ByteSize ≤ maxPath)
    ⟨fun ⟨hnul, hempty, hshort⟩ => ⟨hnul, hempty, hshort⟩,
      fun ⟨hnul, hempty, hshort⟩ => ⟨hnul, hempty, hshort⟩⟩

theorem isResolvable_slashed {n : Nat} {path : String} (h : IsResolvable path)
    (hshort : n + path.utf8ByteSize ≤ maxPath) : IsResolvable (slashed n path) where
  noNul := by simpa [slashed, List.mem_replicate] using h.noNul
  ne_empty := by simp [slashed, h.ne_empty]
  short := by rwa [utf8ByteSize_slashed]

variable {t t' : FileTree} {follow : Bool} {path base name : String} {left : Nat} {loc : Location}

theorem resolve_of_isResolvable (h : IsResolvable path) :
    t.resolve follow path = t.walk follow maxLinks [] (steps path) := by
  have hshort : ¬ maxPath < path.utf8ByteSize := Nat.not_lt.2 h.short
  rw [resolve, h.noNul, if_neg Bool.false_ne_true, if_neg h.ne_empty, if_neg hshort]

/-- Only a path that can lead somewhere does. -/
theorem resolve_eq_ok_iff {p : Place} : t.resolve follow path = .ok p ↔
    IsResolvable path ∧ t.walk follow maxLinks [] (steps path) = .ok p := by
  constructor
  · intro h
    rw [resolve] at h
    split at h
    · cases h
    next hnul =>
      split at h
      · cases h
      next hempty =>
        split at h
        · cases h
        next hlong => exact ⟨⟨by simpa using hnul, hempty, Nat.not_lt.1 hlong⟩, h⟩
  · rintro ⟨hpath, h⟩
    rw [resolve_of_isResolvable hpath, h]

theorem IsResolvable.of_append {more : String} (h : IsResolvable (path ++ more))
    (hpath : path ≠ "") : IsResolvable path where
  noNul := by
    have hnul := h.noNul
    simp only [String.toList_append, List.contains_eq_mem, List.mem_append, decide_eq_false_iff_not,
      not_or] at hnul ⊢
    exact hnul.1
  ne_empty := hpath
  short := by
    have hshort := h.short
    rw [String.utf8ByteSize_append] at hshort
    omega

theorem find?_eq_some_iff {e : Entry} :
    t.find? path = some (loc, e) ↔ t.resolve true path = .ok (.found loc e) := by
  rw [find?]
  split
  · next l e' h => simp [h]
  · next h =>
    constructor
    · intro he
      cases he
    · exact fun he => absurd he (h loc e)

theorem steps_join (base : String) (h : IsComponent name) :
    steps (join base name) = names base ++ [name] := by
  rw [steps, names_join base h, wantsDirectory_join base h]
  simp

/-- A dot that is joined to a path is followed from where the path leads, as two dots are. -/
theorem steps_join_dots (base : String) (hdots : name = "." ∨ name = "..") :
    steps (join base name) = names base ++ [name] := by
  rcases hdots with rfl | rfl
  · have hwants : wantsDirectory (join base ".") = true := by
      rw [join, if_neg (by decide)]
      split
      · next hbase =>
        rcases hbase with rfl | hslash
        · decide
        · obtain ⟨front, hfront⟩ := List.isSuffixOf_iff_suffix.1 hslash
          simp [wantsDirectory, ← hfront]
      · simp [wantsDirectory]
    rw [steps, names_join_of_relative base (by decide), hwants, if_pos rfl, List.append_assoc]
    rfl
  · have hwants : wantsDirectory (join base "..") = false := by
      rw [join, if_neg (by decide)]
      split <;> simp [wantsDirectory]
    rw [steps, names_join_of_relative base (by decide), hwants, if_neg Bool.false_ne_true,
      List.append_nil]
    rfl

/-- A directory that is found where no link is followed is found anyway. -/
theorem find?_of_resolve_dir (h : t.resolve false path = .ok (.found loc .dir)) :
    t.find? path = some (loc, .dir) := by
  obtain ⟨hpath, hwalk⟩ := resolve_eq_ok_iff.1 h
  exact find?_eq_some_iff.2 (resolve_eq_ok_iff.2 ⟨hpath, walk_true_of_false (by simp) hwalk⟩)

/-- The names of a path lead to a directory. -/
def LeadsTo (t : FileTree) (path : String) (left : Nat) (loc : Location) : Prop :=
  t.passage maxLinks [] (names path) = .ok (left, loc)

theorem leadsTo_of_find? (h : t.find? path = some (loc, .dir)) : ∃ left, t.LeadsTo path left loc := by
  rw [find?_eq_some_iff, resolve_eq_ok_iff, walk_eq_dir_iff, steps] at h
  obtain ⟨-, left, h⟩ := h
  obtain ⟨p, hpass, h⟩ := passage_append_eq_ok_iff.1 h
  refine ⟨left, hpass.trans ?_⟩
  -- a dot behind the names leads nowhere else
  have hdot : t.passage p.1 p.2 ["."] = .ok (p.1, p.2) := by
    simp [passage_cons, onward, Except.bind]
  split at h
  · exact hdot.symm.trans h
  · exact (passage_nil ..).symm.trans h

theorem LeadsTo.find?_eq (h : t.LeadsTo path left loc) (hpath : IsResolvable path) :
    t.find? path = some (loc, .dir) := by
  have hdot : t.passage left loc ["."] = .ok (left, loc) := by
    simp [passage_cons, onward, Except.bind]
  rw [find?_eq_some_iff, resolve_eq_ok_iff, walk_eq_dir_iff, steps, passage_append, h]
  refine ⟨hpath, left, ?_⟩
  split
  · exact hdot
  · exact passage_nil ..

theorem LeadsTo.of_keepsWays (h : t.LeadsTo path left loc) (hways : KeepsWays t t') :
    t'.LeadsTo path left loc := passage_of_keepsWays hways h

theorem LeadsTo.of_losesWays {left' : Nat} {loc' : Location} (h : t.LeadsTo path left loc)
    (hways : LosesWays t t') (h' : t'.LeadsTo path left' loc') : left' = left ∧ loc' = loc := by
  have heq := passage_of_losesWays hways h h'
  exact Prod.mk.inj heq

/-- A path to an entry leads through the directory. -/
theorem leadsTo_of_resolve_join (hc : IsComponent name) {p : Place}
    (h : t.resolve follow (join base name) = .ok p) :
    ∃ left loc, t.LeadsTo base left loc ∧ t.walk follow left loc [name] = .ok p := by
  rw [resolve_eq_ok_iff, steps_join base hc] at h
  obtain ⟨r, hpass, hwalk⟩ := (walk_append_eq_ok_iff (by simp)).1 h.2
  exact ⟨r.1, r.2, hpass, hwalk⟩

theorem IsResolvable.of_join (h : IsResolvable (join base name)) (hc : IsComponent name)
    (hbase : base ≠ "") : IsResolvable base := by
  rw [join, isAbsolute_of_isComponent hc, if_neg Bool.false_ne_true] at h
  split at h
  · exact h.of_append hbase
  · rw [String.append_assoc] at h
    exact h.of_append hbase

/-- What stands at a path below another stands in a directory. -/
theorem isDir_of_isPresent_join (hc : IsComponent name) (hbase : base ≠ "")
    (h : t.isPresent (join base name) = true) : t.isDir base = true := by
  obtain ⟨⟨m, e⟩, hfind⟩ := Option.isSome_iff_exists.1 h
  rw [find?_eq_some_iff] at hfind
  obtain ⟨left, loc, hlead, -⟩ := leadsTo_of_resolve_join hc hfind
  have hpath := (resolve_eq_ok_iff.1 hfind).1.of_join hc hbase
  rw [isDir, hlead.find?_eq hpath]

theorem resolve_join (hlead : t.LeadsTo base left loc) (hc : IsComponent name)
    (hpath : IsResolvable (join base name)) :
    t.resolve follow (join base name) = t.walk follow left loc [name] := by
  rw [resolve_of_isResolvable hpath, steps_join base hc, walk_append _ _ (by simp), hlead]
  rfl

/-- A path of one name leads to the directory of that name. -/
theorem leadsTo_of_names (hnames : names path = [name]) (hc : IsComponent name)
    (hshort : ¬ maxName < name.utf8ByteSize) (hdir : t.get? [name] = some .dir) :
    t.LeadsTo path maxLinks [name] := by
  rw [LeadsTo, hnames, passage_cons, onward, if_neg hc.ne_dot, if_neg hc.ne_dots, if_neg hshort,
    List.nil_append, hdir]
  simp [Except.bind]

theorem LeadsTo.unique {left' : Nat} {loc' : Location} (h : t.LeadsTo path left loc)
    (h' : t.LeadsTo path left' loc') : left' = left ∧ loc' = loc := by
  rw [LeadsTo, h] at h'
  cases h'
  exact ⟨rfl, rfl⟩

/-! ### The last name -/

/-- What stands in a directory under a name. -/
def placeIn (t : FileTree) (loc : Location) (name : String) : Place :=
  match t.get? (loc ++ [name]) with
  | none => .free (loc ++ [name])
  | some e => .found (loc ++ [name]) e

theorem placeIn_of_none (h : t.get? (loc ++ [name]) = none) :
    t.placeIn loc name = .free (loc ++ [name]) := by rw [placeIn, h]

theorem placeIn_of_some {e : Entry} (h : t.get? (loc ++ [name]) = some e) :
    t.placeIn loc name = .found (loc ++ [name]) e := by rw [placeIn, h]

theorem placeIn_eq_found_iff {l : Location} {e : Entry} :
    t.placeIn loc name = .found l e ↔ l = loc ++ [name] ∧ t.get? l = some e := by
  cases hget : t.get? (loc ++ [name]) with
  | none =>
    rw [placeIn_of_none hget]
    simp +contextual [hget]
  | some e' =>
    rw [placeIn_of_some hget, Place.found.injEq, eq_comm]
    refine and_congr_right ?_
    rintro rfl
    rw [hget, Option.some.injEq]

theorem placeIn_eq_free_iff {l : Location} :
    t.placeIn loc name = .free l ↔ l = loc ++ [name] ∧ t.get? l = none := by
  cases hget : t.get? (loc ++ [name]) with
  | none =>
    rw [placeIn_of_none hget, Place.free.injEq, eq_comm]
    exact ⟨fun h => ⟨h, h ▸ hget⟩, fun h => h.1⟩
  | some e =>
    rw [placeIn_of_some hget]
    simp +contextual [hget]

theorem walk_name (hc : IsComponent name) (hlink : follow = true →
      ∀ target, t.get? (loc ++ [name]) ≠ some (.link target)) :
    t.walk follow left loc [name] =
      if maxName < name.utf8ByteSize then .error .nameTooLong else .ok (t.placeIn loc name) := by
  rw [walk_cons, ending?, onward, if_neg hc.ne_dot, if_neg hc.ne_dots, placeIn]
  by_cases hlong : maxName < name.utf8ByteSize
  · simp [hlong, Except.bind]
  · simp only [hlong, hc.ne_dot, hc.ne_dots, ne_eq, not_true_eq_false, or_self, if_false]
    cases hget : t.get? (loc ++ [name]) with
    | none => rfl
    | some e =>
      cases e with
      | dir => simp [Except.bind]
      | file b x => rfl
      | special k => rfl
      | link target =>
        cases follow with
        | false => rfl
        | true => exact absurd hget (hlink rfl target)

/-- A name that leads somewhere is not too long. -/
theorem short_of_walk (hc : IsComponent name) {p : Place}
    (h : t.walk follow left loc [name] = .ok p) : ¬ maxName < name.utf8ByteSize := by
  rcases walk_cons_eq_ok_iff.1 h with hend | ⟨-, s, hs, -⟩
  · exact Nat.not_lt.2 (ending?_eq_some hend).2.2.2.1
  · cases onward_eq_ok_iff.1 hs with
    | dot hdot => exact absurd hdot hc.ne_dot
    | up hup => exact absurd hup hc.ne_dots
    | dir _ _ hshort => exact Nat.not_lt.2 hshort
    | link _ _ hshort => exact Nat.not_lt.2 hshort

theorem placeIn_of_walk (hc : IsComponent name) {p : Place}
    (h : t.walk false left loc [name] = .ok p) : p = t.placeIn loc name := by
  have hshort := short_of_walk hc h
  rw [walk_name hc (by simp), if_neg hshort] at h
  exact (Except.ok.inj h).symm

/-- A path to an entry leads to what stands there, unless that is a link which is followed. -/
theorem LeadsTo.place_eq (hlead : t.LeadsTo base left loc) (hc : IsComponent name)
    (hlink : follow = true → ∀ target, t.get? (loc ++ [name]) ≠ some (.link target)) {p : Place}
    (h : t.resolve follow (join base name) = .ok p) : p = t.placeIn loc name := by
  have hwalk := (resolve_join hlead hc (resolve_eq_ok_iff.1 h).1).symm.trans h
  have hshort := short_of_walk hc hwalk
  rw [walk_name hc hlink, if_neg hshort] at hwalk
  exact (Except.ok.inj hwalk).symm

/-- Something stands under a name that leads to an entry. -/
theorem get?_of_walk_found (hc : IsComponent name) {l : Location} {e : Entry}
    (h : t.walk follow left loc [name] = .ok (.found l e)) : t.get? (loc ++ [name]) ≠ none := by
  intro hnone
  have hshort := short_of_walk hc h
  rw [walk_name hc (by simp [hnone]), if_neg hshort, placeIn_of_none hnone] at h
  cases h

/-- A path leads to what stands in a directory under its last name, unless that is a link. -/
theorem resolve_join_of_get? (hlead : t.LeadsTo base left loc) (hc : IsComponent name)
    (hpath : IsResolvable (join base name)) (hshort : ¬ maxName < name.utf8ByteSize) {e : Entry}
    (hget : t.get? (loc ++ [name]) = some e) (hlink : ∀ target, e ≠ .link target) :
    t.resolve follow (join base name) = .ok (.found (loc ++ [name]) e) := by
  have hnolink : ∀ target, t.get? (loc ++ [name]) ≠ some (.link target) := by
    intro target he
    rw [hget] at he
    exact hlink target (Option.some.inj he)
  rw [resolve_join hlead hc hpath, walk_name hc fun _ => hnolink, if_neg hshort,
    placeIn_of_some hget]

/-- At a path where nothing is present only a link can stand under the last name. -/
theorem link_of_not_isPresent (hlead : t.LeadsTo base left loc) (hc : IsComponent name) {p : Place}
    (hplace : t.resolve follow (join base name) = .ok p)
    (habsent : t.isPresent (join base name) = false) {e : Entry}
    (hget : t.get? (loc ++ [name]) = some e) : ∃ target, e = .link target := by
  have hpath := (resolve_eq_ok_iff.1 hplace).1
  have hshort := short_of_walk hc ((resolve_join hlead hc hpath).symm.trans hplace)
  by_contra hlink
  have hfound : t.resolve true (join base name) = .ok (.found (loc ++ [name]) e) :=
    resolve_join_of_get? hlead hc hpath hshort hget fun target he => hlink ⟨target, he⟩
  rw [isPresent, find?_eq_some_iff.2 hfound] at habsent
  cases habsent

theorem resolve_join_of_none (hlead : t.LeadsTo base left loc) (hc : IsComponent name)
    (hpath : IsResolvable (join base name)) (hshort : ¬ maxName < name.utf8ByteSize)
    (hget : t.get? (loc ++ [name]) = none) :
    t.resolve follow (join base name) = .ok (.free (loc ++ [name])) := by
  rw [resolve_join hlead hc hpath, walk_name hc (by simp [hget]), if_neg hshort,
    placeIn_of_none hget]

/-! ### What is no directory -/

theorem get?_of_resolve {e : Entry} (h : t.resolve follow path = .ok (.found loc e))
    (hdir : e ≠ .dir) : t.get? loc = some e :=
  get?_of_walk (resolve_eq_ok_iff.1 h).2 hdir

theorem resolve_of_keepsWays (hways : KeepsWays t t') {e : Entry}
    (h : t.resolve follow path = .ok (.found loc e)) (he : e ≠ .dir → t'.get? loc = some e) :
    t'.resolve follow path = .ok (.found loc e) := by
  rw [resolve_eq_ok_iff] at h ⊢
  exact ⟨h.1, walk_of_keepsWays hways h.2 he⟩

theorem isFile_iff : t.isFile path = true ↔
    ∃ loc bytes executable, t.resolve true path = .ok (.found loc (.file bytes executable)) := by
  rw [isFile]
  constructor
  · intro h
    split at h
    · next loc b x hfind => exact ⟨loc, b, x, find?_eq_some_iff.1 hfind⟩
    · cases h
  · rintro ⟨loc, b, x, h⟩
    rw [find?_eq_some_iff.2 h]

/-- A file at whose path no link stands is found there without following one. -/
theorem resolve_false_of_isFile (hfile : t.isFile path = true)
    (hlink : ∀ loc target, t.resolve false path ≠ .ok (.found loc (.link target))) :
    ∃ loc bytes executable, t.resolve false path = .ok (.found loc (.file bytes executable)) := by
  obtain ⟨loc, b, x, h⟩ := isFile_iff.1 hfile
  obtain ⟨hpath, hwalk⟩ := resolve_eq_ok_iff.1 h
  rcases walk_false_of_true (by simp) hwalk with hfalse | ⟨l, target, hfalse⟩
  · exact ⟨loc, b, x, resolve_eq_ok_iff.2 ⟨hpath, hfalse⟩⟩
  · exact absurd (resolve_eq_ok_iff.2 ⟨hpath, hfalse⟩) (hlink l target)

theorem isFile_of_resolve_false {bytes : ByteArray} {executable : Bool}
    (h : t.resolve false path = .ok (.found loc (.file bytes executable))) :
    t.isFile path = true := by
  obtain ⟨hpath, hwalk⟩ := resolve_eq_ok_iff.1 h
  exact isFile_iff.2 ⟨loc, bytes, executable,
    resolve_eq_ok_iff.2 ⟨hpath, walk_true_of_false (by simp) hwalk⟩⟩

end BitcodeReplay.FileTree
