import BitcodeReplay.FileTree.Edit
import BitcodeReplay.Proofs.FileTree.Resolve
import Mathlib.Data.List.Induction

/-!
Moving and copying files. In a tree where only directories hold something, a file that is moved or
copied changes what stands at its old and its new place, and nothing else. Making a directory that
is there changes nothing at all.
-/

namespace BitcodeReplay.FileTree

open Path

/-- Only directories hold entries. -/
def WellFormed (t : FileTree) : Prop :=
  ∀ loc name, t.get? (loc ++ [name]) ≠ none → t.get? loc = some .dir

variable {t t' : FileTree} {loc dest l : Location} {e : Entry} {bytes : ByteArray}
  {executable : Bool}

/-- It is enough to look at the entries that the tree lists. -/
theorem wellFormed_of_entries
    (h : ∀ p ∈ t.entries, t.get? p.1.dropLast = some .dir) : WellFormed t := by
  intro loc name hne
  obtain ⟨e, he⟩ := (get?_isSome_iff t (by simp)).1 (Option.isSome_iff_ne_none.2 hne)
  simpa using h _ he

/-- Nothing stands below what is no directory. -/
theorem WellFormed.get?_below (hwf : WellFormed t) (hloc : t.get? loc ≠ some .dir)
    {rest : Location} (hrest : rest ≠ []) : t.get? (loc ++ rest) = none := by
  induction rest using List.reverseRecOn with
  | nil => exact absurd rfl hrest
  | append_singleton front name ih =>
    by_contra hne
    rw [← List.append_assoc] at hne
    have hdir := hwf _ _ hne
    by_cases hfront : front = []
    · subst hfront
      rw [List.append_nil] at hdir
      exact hloc hdir
    · rw [ih hfront] at hdir
      cases hdir

/-- A tree stays well formed if its directories stay and what is new is in one of them. -/
theorem WellFormed.of_keepsDirs (hwf : WellFormed t)
    (hdirs : ∀ l, t.get? l = some .dir → t'.get? l = some .dir)
    (hnew : ∀ l name, t'.get? (l ++ [name]) ≠ none →
      t.get? (l ++ [name]) ≠ none ∨ t.get? l = some .dir) : WellFormed t' := by
  intro l name hne
  rcases hnew l name hne with hold | hdir
  · exact hdirs l (hwf l name hold)
  · exact hdirs l hdir

/-- A name that is followed from a directory leads to one. -/
theorem WellFormed.onward_dir (hwf : WellFormed t) {links : Nat} {here : Location} {name : String}
    {rest : List String} {s : Nat × Location × List String} (hhere : t.get? here = some .dir)
    (hs : t.onward links here name rest = .ok s) : t.get? s.2.1 = some .dir := by
  cases onward_eq_ok_iff.1 hs with
  | dot => exact hhere
  | up =>
    -- one level up stands the directory that holds this one
    rcases List.eq_nil_or_concat here with rfl | ⟨front, last, rfl⟩
    · rfl
    · rw [List.concat_eq_append] at hhere ⊢
      rw [List.dropLast_concat]
      exact hwf front last (by simp [hhere])
  | dir _ _ _ hget => exact hget
  | link =>
    simp only
    split
    · rfl
    · exact hhere

/-- Names that are followed from a directory lead to one. -/
theorem WellFormed.passage_dir (hwf : WellFormed t) {links left : Nat} {here : Location}
    {names : List String} (hhere : t.get? here = some .dir)
    (h : t.passage links here names = .ok (left, loc)) : t.get? loc = some .dir :=
  passage_invariant (P := fun _ loc => t.get? loc = some .dir)
    (fun _ _ _ _ _ hs hdir => hwf.onward_dir hdir hs) h hhere

theorem LeadsTo.get?_eq_dir {path : String} {left : Nat} (h : t.LeadsTo path left loc)
    (hwf : WellFormed t) : t.get? loc = some .dir := hwf.passage_dir rfl h

/-- What holds nothing is removed alone. -/
theorem get?_erase_leaf (hloc : loc ≠ []) (hleaf : ∀ rest, rest ≠ [] → t.get? (loc ++ rest) = none)
    (l : Location) : (t.erase loc).get? l = if l = loc then none else t.get? l := by
  by_cases hl : l = []
  · subst hl
    rw [if_neg hloc.symm]
    rfl
  · rw [get?_erase t hl]
    by_cases hwithin : isWithin l loc = true
    · obtain ⟨rest, rfl⟩ := isWithin_iff.1 hwithin
      rw [if_pos hwithin]
      by_cases hrest : rest = []
      · simp [hrest]
      · rw [hleaf rest hrest, ite_self]
    · have hne : l ≠ loc := by
        rintro rfl
        simp at hwithin
      rw [if_neg hwithin, if_neg hne]

theorem ne_nil_of_get? {e : Entry} (h : t.get? loc = some e) (he : e ≠ .dir) : loc ≠ [] := by
  rintro rfl
  exact he (Option.some.inj h).symm

theorem readDir_of_find? {path : String} (h : t.find? path = some (loc, .dir)) :
    t.readDir path = .ok (t.namesIn loc) := by
  simp [readDir, find?_eq_some_iff.1 h, bind, Except.bind, pure, Except.pure]

/-- Only a directory can be listed. -/
theorem readDir_eq_ok {path : String} {names : List String} (h : t.readDir path = .ok names) :
    ∃ loc, t.find? path = some (loc, .dir) ∧ t.namesIn loc = names := by
  obtain ⟨p, hplace, h⟩ := bind_eq_ok_iff.1 h
  cases p with
  | free loc => cases h
  | found loc e =>
    cases e with
    | dir => exact ⟨loc, find?_eq_some_iff.2 hplace, Except.ok.inj h⟩
    | file _ _ => cases h
    | special _ => cases h
    | link _ => cases h

/-! ### Putting a file -/

theorem wellFormed_put (hwf : WellFormed t) {name : String} {e : Entry}
    (hdir : t.get? loc = some .dir) (hfree : t.get? (loc ++ [name]) ≠ some .dir) :
    WellFormed (t.put (loc ++ [name]) e) := by
  refine hwf.of_keepsDirs (fun l hl => ?_) fun l other hne => ?_
  · rw [get?_put _ _ _ _ (by simp), if_neg, hl]
    rintro rfl
    exact hfree hl
  · rw [get?_put _ _ _ _ (by simp)] at hne
    split at hne
    · next heq =>
      obtain ⟨rfl, -⟩ := List.append_inj' heq rfl
      exact .inr hdir
    · exact .inl hne

theorem keepsWays_put_file (hfree : ∀ e, t.get? dest = some e → ¬ e.IsWay) (hd : dest ≠ []) :
    KeepsWays t (t.put dest (.file bytes executable)) := by
  intro l e he hway
  rw [get?_put _ _ _ _ hd, if_neg, he]
  rintro rfl
  exact hfree e he hway

/-! ### Moving a file -/

/-- What is no directory stands, when it has been moved, at its new place, not at its old one, and
nothing else changes. -/
theorem get?_relocate_leaf (hwf : WellFormed t) (hleaf : t.get? loc = some e) (he : e ≠ .dir)
    (hdest : t.get? dest ≠ some .dir) (hd : dest ≠ []) (l : Location) :
    (t.relocate loc dest).get? l =
      if l = dest then some e else if l = loc then none else t.get? l := by
  have hl := ne_nil_of_get? hleaf he
  have hnodir : t.get? loc ≠ some .dir := by simpa [hleaf] using he
  by_cases hwithin : isWithin l dest = true
  · obtain ⟨rest, rfl⟩ := isWithin_iff.1 hwithin
    rw [get?_relocate_target t hl hd]
    by_cases hrest : rest = []
    · simp [hrest, hleaf]
    · rw [if_neg (by simpa using hrest), hwf.get?_below hnodir hrest, hwf.get?_below hdest hrest,
        ite_self]
  · rw [Bool.not_eq_true] at hwithin
    have hne : l ≠ dest := by
      rintro rfl
      simp at hwithin
    rw [if_neg hne]
    by_cases hnil : l = []
    · subst hnil
      rw [if_neg hl.symm]
      rfl
    · rw [get?_relocate_of_not_within t hnil loc hwithin]
      by_cases hsource : isWithin l loc = true
      · obtain ⟨rest, rfl⟩ := isWithin_iff.1 hsource
        rw [if_pos hsource]
        by_cases hrest : rest = []
        · simp [hrest]
        · rw [if_neg (by simpa using hrest), hwf.get?_below hnodir hrest]
      · have hne' : l ≠ loc := by
          rintro rfl
          simp at hsource
        rw [if_neg hsource, if_neg hne']

theorem wellFormed_relocate_leaf (hwf : WellFormed t) (hleaf : t.get? loc = some e)
    (he : e ≠ .dir) {name : String} {out : Location} (hout : t.get? out = some .dir)
    (hdest : t.get? (out ++ [name]) ≠ some .dir) :
    WellFormed (t.relocate loc (out ++ [name])) := by
  have hget := get?_relocate_leaf hwf hleaf he hdest (by simp)
  refine hwf.of_keepsDirs (fun l hl => ?_) fun l other hne => ?_
  · rw [hget, if_neg, if_neg, hl]
    · rintro rfl
      rw [hl] at hleaf
      exact he (Option.some.inj hleaf).symm
    · rintro rfl
      exact hdest hl
  · rw [hget] at hne
    split at hne
    · next heq =>
      obtain ⟨rfl, -⟩ := List.append_inj' heq rfl
      exact .inr hout
    · split at hne
      · exact absurd rfl hne
      · exact .inl hne

/-- Moving a file makes no ways. -/
theorem keepsWays_of_relocate_file (hwf : WellFormed t)
    (hfile : t.get? loc = some (.file bytes executable)) (hdest : t.get? dest ≠ some .dir)
    (hd : dest ≠ []) : KeepsWays (t.relocate loc dest) t := by
  intro l e he hway
  rw [get?_relocate_leaf hwf hfile (by simp) hdest hd] at he
  split at he
  · cases he
    exact hway.elim
  · split at he
    · cases he
    · exact he

/-- What is no directory is moved to a free place. -/
theorem rename_free {source target : String}
    (hsource : t.resolve false source = .ok (.found loc e)) (he : e ≠ .dir)
    (htarget : t.resolve false target = .ok (.free dest)) :
    t.rename source target = .ok (t.relocate loc dest) := by
  cases e with
  | dir => exact absurd rfl he
  | _ => simp [rename, hsource, htarget, bind, Except.bind, pure, Except.pure]

/-- What is no directory is moved over what is none either. -/
theorem rename_found {source target : String} {e' : Entry}
    (hsource : t.resolve false source = .ok (.found loc e)) (he : e ≠ .dir)
    (htarget : t.resolve false target = .ok (.found dest e')) (he' : e' ≠ .dir) :
    t.rename source target = .ok (if dest = loc then t else t.relocate loc dest) := by
  rw [apply_ite Except.ok]
  cases e with
  | dir => exact absurd rfl he
  | _ =>
    cases e' with
    | dir => exact absurd rfl he'
    | _ =>
      simp only [rename, hsource, htarget, bind, Except.bind, pure, Except.pure]

/-- What is no directory is moved to a name of a directory, if none stands under it. -/
theorem rename_leaf {source target : String} {name : String} {out : Location}
    (hsource : t.resolve false source = .ok (.found loc e)) (he : e ≠ .dir)
    (htarget : t.resolve false target = .ok (t.placeIn out name))
    (hdest : t.get? (out ++ [name]) ≠ some .dir) : t.rename source target =
      .ok (if out ++ [name] = loc then t else t.relocate loc (out ++ [name])) := by
  cases hget : t.get? (out ++ [name]) with
  | none =>
    rw [placeIn_of_none hget] at htarget
    rw [rename_free hsource he htarget, if_neg]
    rintro rfl
    rw [get?_of_resolve hsource he] at hget
    cases hget
  | some e' =>
    rw [placeIn_of_some hget] at htarget
    refine rename_found hsource he htarget ?_
    rintro rfl
    exact hdest hget

/-- What is no directory can be renamed only to a path that leads somewhere. -/
theorem resolve_of_rename_leaf {source target : String} {moved : FileTree}
    (hsource : t.resolve false source = .ok (.found loc e)) (he : e ≠ .dir)
    (h : t.rename source target = .ok moved) : ∃ p, t.resolve false target = .ok p := by
  cases htarget : t.resolve false target with
  | ok p => exact ⟨p, rfl⟩
  | error err =>
    cases e with
    | dir => exact absurd rfl he
    | _ => simp [rename, hsource, htarget, bind, Except.bind] at h

/-- What is no directory is moved to a free place, or over what is none either. -/
theorem rename_leaf_cases {source target : String} {moved : FileTree}
    (hsource : t.resolve false source = .ok (.found loc e)) (he : e ≠ .dir)
    (h : t.rename source target = .ok moved) :
    (∃ dest, t.resolve false target = .ok (.free dest) ∧ moved = t.relocate loc dest) ∨
      ∃ dest e', t.resolve false target = .ok (.found dest e') ∧ e' ≠ .dir ∧
        moved = if dest = loc then t else t.relocate loc dest := by
  obtain ⟨p, htarget⟩ := resolve_of_rename_leaf hsource he h
  cases p with
  | free dest =>
    rw [rename_free hsource he htarget] at h
    exact .inl ⟨dest, htarget, (Except.ok.inj h).symm⟩
  | found dest e' =>
    have he' : e' ≠ .dir := by
      rintro rfl
      cases e with
      | dir => exact he rfl
      | _ => simp [rename, hsource, htarget, bind, Except.bind] at h
    rw [rename_found hsource he htarget he'] at h
    exact .inr ⟨dest, e', htarget, he', (Except.ok.inj h).symm⟩

/-- A directory is moved to a free place that is not below it, or over a directory that holds
nothing, unless it is there already. -/
theorem rename_dir_cases {source target : String} {moved : FileTree}
    (hsource : t.resolve false source = .ok (.found loc .dir))
    (h : t.rename source target = .ok moved) :
    target.toList.contains '\x00' = false ∧ target.utf8ByteSize ≤ maxPath ∧
      ∃ dest, (t.walk false maxLinks [] (Path.names target) = .ok (.free dest) ∧
          isWithin dest loc = false ∧ moved = t.relocate loc dest) ∨
        (t.walk false maxLinks [] (Path.names target) = .ok (.found dest .dir) ∧
          (dest = loc ∧ moved = t ∨
            isWithin dest loc = false ∧ t.namesIn dest = [] ∧ moved = t.relocate loc dest)) := by
  simp only [rename, hsource, bind, Except.bind] at h
  split at h
  · cases h
  next hnul =>
  split at h
  · cases h
  next hlong =>
  refine ⟨by simpa using hnul, Nat.not_lt.1 hlong, ?_⟩
  cases hwalk : t.walk false maxLinks [] (Path.names target) with
  | error e =>
    rw [hwalk] at h
    cases h
  | ok p =>
    simp only [hwalk] at h
    split at h
    · next dest =>
      split at h
      · cases h
      next hwithin =>
        exact ⟨dest, .inl ⟨rfl, by simpa using hwithin, (Except.ok.inj h).symm⟩⟩
    · next dest =>
      split at h
      next hsame => exact ⟨dest, .inr ⟨rfl, .inl ⟨hsame, (Except.ok.inj h).symm⟩⟩⟩
      split at h
      · cases h
      next hwithin =>
      split at h
      · cases h
      next hempty =>
        exact ⟨dest, .inr ⟨rfl, .inr ⟨by simpa using hwithin, not_not.1 hempty,
          (Except.ok.inj h).symm⟩⟩⟩
    · cases h

/-- What is renamed has been found. -/
theorem found_of_rename {source target : String} {moved : FileTree}
    (h : t.rename source target = .ok moved) :
    ∃ loc e, t.resolve false source = .ok (.found loc e) := by
  obtain ⟨p, hsource, h⟩ := bind_eq_ok_iff.1 h
  cases p with
  | found loc e => exact ⟨loc, e, hsource⟩
  | free loc => cases h

/-! ### Removing a file -/

theorem removeFile_of_resolve {path : String} {e : Entry}
    (h : t.resolve false path = .ok (.found loc e)) (he : e ≠ .dir) :
    t.removeFile path = .ok (t.erase loc) := by
  cases e with
  | dir => exact absurd rfl he
  | file b x => simp [removeFile, h, bind, Except.bind, pure, Except.pure]
  | special k => simp [removeFile, h, bind, Except.bind, pure, Except.pure]
  | link target => simp [removeFile, h, bind, Except.bind, pure, Except.pure]

/-! ### Writing a file -/

/-- A file can be written to a place: a file stands there, or nothing. -/
def TakesFile (t : FileTree) (path : String) (loc : Location) : Prop :=
  t.resolve true path = .ok (.free loc) ∨
    ∃ bytes executable, t.resolve true path = .ok (.found loc (.file bytes executable))

/-- What a special entry takes is not kept. -/
theorem eq_of_refusal? {kind : Special}
    (h : (refusal? kind bytes).elim (pure t) throw = (.ok t' : Except FileError FileTree)) :
    t' = t := by
  cases hrefusal : refusal? kind bytes <;> rw [hrefusal] at h <;> cases h
  rfl

/-- What is written stands at the place to which the path leads, unless a special entry takes it. -/
theorem writeFile_eq_ok {path : String} (h : t.writeFile path bytes = .ok t') :
    (∃ loc executable, t.TakesFile path loc ∧ t' = t.put loc (.file bytes executable)) ∨
      ((∃ loc kind, t.resolve true path = .ok (.found loc (.special kind))) ∧ t' = t) := by
  obtain ⟨p, hplace, h⟩ := bind_eq_ok_iff.1 h
  cases p with
  | free loc =>
    cases h
    exact .inl ⟨loc, false, .inl hplace, rfl⟩
  | found loc e =>
    cases e with
    | file known x =>
      cases h
      exact .inl ⟨loc, x, .inr ⟨known, x, hplace⟩, rfl⟩
    | special kind => exact .inr ⟨⟨loc, kind, hplace⟩, eq_of_refusal? h⟩
    | dir => cases h
    | link target => cases h

theorem TakesFile.get? {path : String} (h : t.TakesFile path loc) :
    loc ≠ [] ∧ ∀ e, t.get? loc = some e → ¬ e.IsWay := by
  rcases h with hfree | ⟨b, x, hfound⟩
  · obtain ⟨hne, hnone⟩ := get?_of_walk_free (resolve_eq_ok_iff.1 hfree).2
    exact ⟨hne, fun e he => by simp [hnone] at he⟩
  · have hget := get?_of_resolve hfound (by simp)
    refine ⟨ne_nil_of_get? hget (by simp), fun e he hway => ?_⟩
    rw [hget] at he
    cases he
    exact hway

theorem TakesFile.keepsWays {path : String} (h : t.TakesFile path loc) :
    KeepsWays t (t.put loc (.file bytes executable)) :=
  keepsWays_put_file h.get?.2 h.get?.1

/-- What has been written is found. -/
theorem TakesFile.resolve_put {path : String} (h : t.TakesFile path loc) :
    (t.put loc (.file bytes executable)).resolve true path =
      .ok (.found loc (.file bytes executable)) := by
  have hplaced : ∃ p, t.resolve true path = .ok p ∧
      (p = .free loc ∨ ∃ known x, p = .found loc (.file known x)) := by
    rcases h with hfree | ⟨b, x, hfound⟩
    · exact ⟨_, hfree, .inl rfl⟩
    · exact ⟨_, hfound, .inr ⟨b, x, rfl⟩⟩
  obtain ⟨p, hp, hplace⟩ := hplaced
  obtain ⟨hpath, hwalk⟩ := resolve_eq_ok_iff.1 hp
  have hget : (t.put loc (.file bytes executable)).get? loc = some (.file bytes executable) := by
    rw [get?_put _ _ _ _ h.get?.1, if_pos rfl]
  exact resolve_eq_ok_iff.2 ⟨hpath, walk_of_placed h.keepsWays hwalk hplace hget⟩

theorem readFile_of_resolve {path : String}
    (h : t.resolve true path = .ok (.found loc (.file bytes executable))) :
    t.readFile path = .ok bytes := by
  simp [readFile, h, bind, Except.bind, pure, Except.pure]

/-- What has been written is read. -/
theorem TakesFile.readFile_put {path : String} (h : t.TakesFile path loc) :
    (t.put loc (.file bytes executable)).readFile path = .ok bytes :=
  readFile_of_resolve h.resolve_put

/-- A file is copied from the place to which one path leads to the place to which the other one leads,
unless a special entry takes it. -/
theorem copyFile_cases {source target : String} (h : t.copyFile source target = .ok t') :
    ∃ loc bytes executable, t.resolve true source = .ok (.found loc (.file bytes executable)) ∧
      ((∃ dest, t.TakesFile target dest ∧
        t' = t.put dest (.file (if dest = loc then .empty else bytes) executable)) ∨
      (∃ dest kind, t.resolve true target = .ok (.found dest (.special kind))) ∧ t' = t) := by
  obtain ⟨p, hsource, h⟩ := bind_eq_ok_iff.1 h
  cases p with
  | free loc => cases h
  | found loc e =>
    cases e with
    | dir => cases h
    | link _ => cases h
    | special _ => cases h
    | file bytes x =>
      refine ⟨loc, bytes, x, hsource, ?_⟩
      obtain ⟨q, htarget, h⟩ := bind_eq_ok_iff.1 h
      cases q with
      | free dest =>
        -- the source is not free
        have hne : dest ≠ loc := by
          rintro rfl
          have hnone := (get?_of_walk_free (resolve_eq_ok_iff.1 htarget).2).2
          rw [get?_of_resolve hsource (by simp)] at hnone
          cases hnone
        cases h
        exact .inl ⟨dest, .inl htarget, by rw [if_neg hne]⟩
      | found dest e' =>
        cases e' with
        | file known y =>
          cases h
          exact .inl ⟨dest, .inr ⟨known, y, htarget⟩, rfl⟩
        | special kind => exact .inr ⟨⟨dest, kind, htarget⟩, eq_of_refusal? h⟩
        | dir => cases h
        | link _ => cases h

/-- A file can be copied only to a path that leads somewhere. -/
theorem resolve_of_copyFile {source target : String} (h : t.copyFile source target = .ok t') :
    ∃ p, t.resolve true target = .ok p := by
  obtain ⟨-, -, -, -, ⟨dest, htakes, -⟩ | ⟨⟨dest, kind, htarget⟩, -⟩⟩ := copyFile_cases h
  · rcases htakes with hfree | ⟨b, x, hfound⟩
    · exact ⟨_, hfree⟩
    · exact ⟨_, hfound⟩
  · exact ⟨_, htarget⟩

theorem copyFile_eq_ok {source target : String} (h : t.copyFile source target = .ok t') :
    (∃ loc bytes executable, t.TakesFile target loc ∧ t' = t.put loc (.file bytes executable)) ∨
      t' = t := by
  obtain ⟨loc, bytes, x, -, ⟨dest, htakes, rfl⟩ | ⟨-, rfl⟩⟩ := copyFile_cases h
  · exact .inl ⟨dest, _, x, htakes, rfl⟩
  · exact .inr rfl

/-! ### Making directories that are there -/

/-- Names lead from a directory through directories only, each to the one of that name. -/
def Stands (t : FileTree) : Location → List String → Prop
  | _, [] => True
  | here, name :: rest =>
    (name ≠ "." ∧ name ≠ ".." ∧ name.utf8ByteSize ≤ maxName) ∧
      t.get? (here ++ [name]) = some .dir ∧ Stands t (here ++ [name]) rest

instance (t : FileTree) : ∀ here names, Decidable (t.Stands here names)
  | _, [] => .isTrue trivial
  | here, name :: rest =>
    have : Decidable (t.Stands (here ++ [name]) rest) := instDecidableStands t (here ++ [name]) rest
    inferInstanceAs (Decidable (_ ∧ _ ∧ _))

variable {here : Location} {names : List String} {path : String}

theorem Stands.walk_eq (h : t.Stands here names) (follow : Bool) (links : Nat) :
    t.walk follow links here names = .ok (.found (here ++ names) .dir) := by
  induction names generalizing here with
  | nil => rw [walk, List.append_nil]
  | cons name rest ih =>
    obtain ⟨⟨hdot, hup, hlength⟩, hdir, hrest⟩ := h
    rw [walk, if_neg hdot, if_neg hup, if_neg (Nat.not_lt.2 hlength), hdir]
    simp only
    rw [ih hrest, List.append_assoc, List.singleton_append]

theorem Stands.passage_eq (h : t.Stands here names) (links : Nat) :
    t.passage links here names = .ok (links, here ++ names) := by
  induction names generalizing here with
  | nil => rw [passage_nil, List.append_nil]
  | cons name rest ih =>
    obtain ⟨⟨hdot, hup, hlength⟩, hdir, hrest⟩ := h
    have hon : t.onward links here name rest = .ok (links, here ++ [name], rest) := by
      rw [onward, if_neg hdot, if_neg hup, if_neg (Nat.not_lt.2 hlength), hdir]
    rw [passage_of_onward hon, ih hrest, List.append_assoc, List.singleton_append]

theorem find?_of_stands (hpath : IsResolvable path) (h : t.Stands [] (Path.names path)) :
    t.find? path = some (Path.names path, .dir) :=
  LeadsTo.find?_eq (h.passage_eq maxLinks) hpath

/-- A path leads to what stands under its last name, if directories stand under the others. -/
theorem resolve_of_stands {follow : Bool} {name : String} (hpath : IsResolvable path)
    (hsteps : steps path = names ++ [name]) (h : t.Stands [] names) (hc : IsComponent name)
    (hshort : name.utf8ByteSize ≤ maxName)
    (hlink : follow = true → ∀ target, t.get? (names ++ [name]) ≠ some (.link target)) :
    t.resolve follow path = .ok (t.placeIn names name) := by
  rw [resolve_of_isResolvable hpath, hsteps, walk_append _ _ (by simp), h.passage_eq, Except.bind,
    List.nil_append, walk_name hc hlink, if_neg (Nat.not_lt.2 hshort)]

theorem stands_append {more : List String} :
    t.Stands here (names ++ more) ↔ t.Stands here names ∧ t.Stands (here ++ names) more := by
  induction names generalizing here with
  | nil => simp [Stands]
  | cons name rest ih =>
    rw [List.cons_append, Stands, Stands, ih, List.append_assoc, List.singleton_append]
    tauto

/-- A place that is reached through directories only. -/
theorem Stands.onward (hhere : t.Stands [] here) {s : Nat × Location × List String}
    (hs : t.onward links here name rest = .ok s) : t.Stands [] s.2.1 := by
  cases onward_eq_ok_iff.1 hs with
  | dot => exact hhere
  | up =>
    rcases List.eq_nil_or_concat here with rfl | ⟨front, last, rfl⟩
    · exact hhere
    · rw [List.concat_eq_append] at hhere ⊢
      rw [List.dropLast_concat]
      exact (stands_append.1 hhere).1
  | dir hdot hup hshort hget =>
    exact stands_append.2 ⟨hhere, ⟨hdot, hup, hshort⟩, hget, trivial⟩
  | link =>
    simp only
    split
    · trivial
    · exact hhere

theorem Stands.passage {left : Nat} {loc : Location} (hhere : t.Stands [] here)
    (h : t.passage links here names = .ok (left, loc)) : t.Stands [] loc :=
  passage_invariant (P := fun _ loc => t.Stands [] loc)
    (fun _ _ _ _ _ hs hstands => hstands.onward hs) h hhere

theorem makeDirs_of_stands (h : t.Stands [] names) : t.makeDirs names.reverse = (t, .ok ()) := by
  cases hnames : names.reverse with
  | nil => rfl
  | cons name above =>
    have hreverse : (name :: above).reverse = names := by rw [← hnames, List.reverse_reverse]
    have hmake : t.makeDir names = .error .alreadyExists := by
      rw [makeDir, h.walk_eq]
      rfl
    have hdir : t.hasDir names = true := by rw [hasDir, h.walk_eq]
    rw [makeDirs, hreverse, hmake]
    simp [hdir]

/-- A path leads through directories only, and can be made. -/
structure HasDirectory (t : FileTree) (path : String) : Prop where
  noNul : path.toList.contains '\x00' = false
  short : path.utf8ByteSize ≤ maxPath
  named : Path.endsInDot path = false
  stands : t.Stands [] (Path.names path)

instance (t : FileTree) (path : String) : Decidable (t.HasDirectory path) :=
  decidable_of_iff (_ ∧ _ ∧ _ ∧ _)
    ⟨fun ⟨hnul, hshort, hdot, hstands⟩ => ⟨hnul, hshort, hdot, hstands⟩,
      fun ⟨hnul, hshort, hdot, hstands⟩ => ⟨hnul, hshort, hdot, hstands⟩⟩

/-- Making a directory that is there changes nothing. -/
theorem HasDirectory.createDirAll_eq (h : t.HasDirectory path) :
    t.createDirAll path = (t, .ok ()) := by
  rw [createDirAll, h.noNul, if_neg Bool.false_ne_true, if_neg (Nat.not_lt.2 h.short), h.named,
    if_neg Bool.false_ne_true]
  exact makeDirs_of_stands h.stands

end BitcodeReplay.FileTree
