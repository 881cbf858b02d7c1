import BitcodeReplay.Proofs.FileTree.Edit

/-!
Directories that hold regular files only. Such a directory is known by what stands under each name;
copying a file to it changes one name, and moving it to a free name changes nothing in it.
-/

namespace BitcodeReplay.FileTree

open Path

/-- What stands under each name of a directory. -/
abbrev Contents := String → Option Entry

def contents (t : FileTree) (loc : Location) : Contents := fun name => t.get? (loc ++ [name])

namespace Contents

/-- Nothing but regular files, under names that lead to them. -/
def AreFiles (c : Contents) : Prop :=
  ∀ name e, c name = some e → IsComponent name ∧ ∃ bytes executable, e = .file bytes executable

/-- Some contents put over others: under a name that both have stands what the first one has. -/
def onto (above below : Contents) : Contents := fun name => above name <|> below name

theorem onto_of_none {above below : Contents} {name : String} (h : above name = none) :
    above.onto below name = below name := by rw [onto, h]; rfl

theorem onto_of_some {above below : Contents} {name : String} {e : Entry}
    (h : above name = some e) : above.onto below name = some e := by rw [onto, h]; rfl

theorem AreFiles.onto {above below : Contents} (ha : above.AreFiles) (hb : below.AreFiles) :
    (above.onto below).AreFiles := by
  intro name e he
  cases h : above name with
  | none =>
    rw [onto_of_none h] at he
    exact hb name e he
  | some e' =>
    rw [onto_of_some h] at he
    exact ha name e (h.trans he)

end Contents

/-- A directory holds exactly some entries, none of which holds anything. -/
structure Holds (t : FileTree) (loc : Location) (c : Contents) : Prop where
  dir : t.get? loc = some .dir
  entries : t.contents loc = c
  flat : ∀ name rest, rest ≠ [] → t.get? (loc ++ name :: rest) = none

variable {t t' moved : FileTree} {loc out dest : Location} {c : Contents} {name base : String}
  {left : Nat} {bytes : ByteArray} {executable : Bool}

theorem holds_contents (hwf : WellFormed t) (hdir : t.get? loc = some .dir)
    (hfiles : (t.contents loc).AreFiles) : t.Holds loc (t.contents loc) where
  dir := hdir
  entries := rfl
  flat := by
    intro name rest hrest
    have hnodir : t.get? (loc ++ [name]) ≠ some .dir := by
      intro h
      obtain ⟨-, b, x, he⟩ := hfiles name .dir h
      cases he
    have hbelow := hwf.get?_below hnodir hrest
    rwa [List.append_assoc] at hbelow

theorem Holds.congr (h : t.Holds loc c)
    (hsame : ∀ l, isWithin l loc = true → t'.get? l = t.get? l) : t'.Holds loc c where
  dir := by rw [hsame loc (isWithin_self loc), h.dir]
  entries := by
    rw [← h.entries]
    funext name
    exact hsame _ (isWithin_append loc [name])
  flat := by
    intro name rest hrest
    rw [hsame _ (isWithin_append loc (name :: rest)), h.flat name rest hrest]

/-- Entries of different directories stand at different places. -/
theorem append_ne (h : loc ≠ out) (a b : String) : loc ++ [a] ≠ out ++ [b] :=
  fun he => h (List.append_inj' he rfl).1

/-! ### Copying a file -/

/-- A file that is copied between two directories of files takes the place of the file of its name.
-/
theorem copyFile_eq {source target : String} {left' : Nat} {copied : FileTree}
    (hs : t.LeadsTo source left loc) (ht : t.LeadsTo target left' out) (hc : IsComponent name)
    (hfile : t.get? (loc ++ [name]) = some (.file bytes executable)) (hne : loc ≠ out)
    (hout : (t.contents out).AreFiles)
    (h : t.copyFile (join source name) (join target name) = .ok copied) :
    copied = t.put (out ++ [name]) (.file bytes executable) := by
  have hlink : ∀ l, t.get? (out ++ [name]) ≠ some (.link l) := by
    intro l hl
    obtain ⟨-, b, x, he⟩ := hout name _ hl
    cases he
  obtain ⟨here, bytes', x, hsource, htarget⟩ := copyFile_cases h
  obtain ⟨rfl, hget⟩ :=
    placeIn_eq_found_iff.1 (hs.place_eq hc (by simp [hfile]) hsource).symm
  obtain ⟨rfl, rfl⟩ := Entry.file.inj (Option.some.inj (hget.symm.trans hfile))
  rcases htarget with ⟨dest, htakes, rfl⟩ | ⟨⟨dest, kind, hspecial⟩, -⟩
  · have hdest : dest = out ++ [name] := by
      rcases htakes with hfree | ⟨b, y, hfound⟩
      · exact (placeIn_eq_free_iff.1 (ht.place_eq hc (fun _ => hlink) hfree).symm).1
      · exact (placeIn_eq_found_iff.1 (ht.place_eq hc (fun _ => hlink) hfound).symm).1
    rw [hdest, if_neg (append_ne hne.symm name name)]
  · obtain ⟨rfl, hget'⟩ := placeIn_eq_found_iff.1 (ht.place_eq hc (fun _ => hlink) hspecial).symm
    obtain ⟨-, b, y, he⟩ := hout name _ hget'
    cases he

theorem copyFile_of_free {source target : String}
    (hsource : t.resolve true source = .ok (.found loc (.file bytes executable)))
    (htarget : t.resolve true target = .ok (.free dest)) :
    t.copyFile source target = .ok (t.put dest (.file bytes executable)) := by
  simp [copyFile, hsource, htarget, bind, Except.bind, pure, Except.pure]

theorem Contents.AreFiles.not_isWay (h : (t.contents out).AreFiles) :
    ∀ e, t.get? (out ++ [name]) = some e → ¬ e.IsWay := by
  intro e he
  obtain ⟨-, b, x, rfl⟩ := h name e he
  exact fun hway => hway

theorem contents_put_of_ne (h : loc ≠ out) (e : Entry) :
    (t.put (out ++ [name]) e).contents loc = t.contents loc := by
  funext other
  rw [contents, get?_put _ _ _ _ (by simp), if_neg (append_ne h other name)]
  rfl

theorem Contents.AreFiles.put (h : (t.contents out).AreFiles) (hc : IsComponent name) :
    ((t.put (out ++ [name]) (.file bytes executable)).contents out).AreFiles := by
  intro other e he
  rw [contents, get?_put _ _ _ _ (by simp)] at he
  split at he
  · next heq =>
    obtain ⟨-, hname⟩ := List.append_inj' heq rfl
    cases hname
    cases he
    exact ⟨hc, bytes, executable, rfl⟩
  · exact h other e he

/-- Below a directory of files stand the files under their names. -/
theorem mem_entriesBelow {path : String} (hfind : t.find? path = some (loc, .dir))
    (hfiles : (t.contents loc).AreFiles) {q : Location × Entry} :
    q ∈ t.entriesBelow path ↔ ∃ name, q.1 = [name] ∧ t.contents loc name = some q.2 := by
  rw [entriesBelow, hfind]
  simp only [walkBelow, List.mem_flatMap, mem_namesIn]
  constructor
  · rintro ⟨name, hname, hq⟩
    obtain ⟨e, he⟩ := Option.isSome_iff_exists.1 hname
    obtain ⟨-, b, x, rfl⟩ := hfiles name e he
    rw [he] at hq
    obtain rfl : q = ([name], .file b x) := by simpa using hq
    exact ⟨name, rfl, he⟩
  · obtain ⟨names, e⟩ := q
    rintro ⟨name, rfl, he⟩
    have hget : t.get? (loc ++ [name]) = some e := he
    refine ⟨name, by simp [hget], ?_⟩
    rw [hget]
    exact List.mem_cons_self

/-- What stands directly in a directory that a path leads to is listed. -/
theorem isListed_of_find? {path : String} {e : Entry} (hfind : t.find? path = some (loc, e))
    (name : String) : isListed path [name] = true := by
  exact decide_eq_true (resolve_eq_ok_iff.1 (find?_eq_some_iff.1 hfind)).1.short

/-- All that is below a directory of files is listed. -/
theorem listedBelow_eq {path : String} (hfind : t.find? path = some (loc, .dir))
    (hfiles : (t.contents loc).AreFiles) : t.listedBelow path = t.entriesBelow path := by
  refine List.filter_eq_self.2 fun q hq => ?_
  obtain ⟨name, hname, -⟩ := (mem_entriesBelow hfind hfiles).1 hq
  rw [hname]
  exact isListed_of_find? hfind name

/-! ### Moving a directory -/

/-- A directory that is moved to a path where nothing is present goes to a free name. -/
theorem rename_dir {source : String} (hsource : t.resolve false source = .ok (.found loc .dir))
    (hlead : t.LeadsTo base left out) (hc : IsComponent name)
    (habsent : t.isPresent (join base name) = false)
    (h : t.rename source (join base name) = .ok moved) :
    t.get? (out ++ [name]) = none ∧ isWithin (out ++ [name]) loc = false ∧
      moved = t.relocate loc (out ++ [name]) := by
  obtain ⟨hnul, hsize, dest, hcases⟩ := rename_dir_cases hsource h
  have hpath : IsResolvable (join base name) := ⟨hnul, join_ne_empty base hc.ne_empty, hsize⟩
  rw [names_join base hc, walk_append _ _ (by simp), hlead] at hcases
  simp only [Except.bind] at hcases
  rcases hcases with ⟨hwalk, hwithin, rfl⟩ | ⟨hwalk, -⟩
  · obtain ⟨rfl, hfree⟩ := placeIn_eq_free_iff.1 (placeIn_of_walk hc hwalk).symm
    exact ⟨hfree, hwithin, rfl⟩
  · -- a directory that stands there would be present
    obtain ⟨rfl, hdir⟩ := placeIn_eq_found_iff.1 (placeIn_of_walk hc hwalk).symm
    obtain ⟨target, hlink⟩ := link_of_not_isPresent hlead hc
      ((resolve_join hlead hc hpath).trans hwalk) habsent hdir
    cases hlink

theorem rename_dir_of_free {source : String}
    (hsource : t.resolve false source = .ok (.found loc .dir)) (hlead : t.LeadsTo base left out)
    (hc : IsComponent name) (hpath : IsResolvable (join base name))
    (hshort : ¬ maxName < name.utf8ByteSize) (hfree : t.get? (out ++ [name]) = none)
    (hwithin : isWithin (out ++ [name]) loc = false) :
    t.rename source (join base name) = .ok (t.relocate loc (out ++ [name])) := by
  have hwalk : t.walk false maxLinks [] (names (join base name)) = .ok (.free (out ++ [name])) := by
    rw [names_join base hc, walk_append _ _ (by simp), hlead]
    simp only [Except.bind]
    rw [walk_name hc (by simp), if_neg hshort, placeIn_of_none hfree]
  have hsize : ¬ maxPath < (join base name).utf8ByteSize := Nat.not_lt.2 hpath.short
  have hnul : '\x00' ∉ (join base name).toList := by simpa using hpath.noNul
  simp [rename, hsource, hnul, hsize, hwalk, hwithin, bind, Except.bind, pure, Except.pure]

/-- Where the root of a tree of directories leads, its dots lead as well. -/
theorem isPresent_dots (hlead : t.LeadsTo base left out) (hdots : name = "." ∨ name = "..")
    (hpath : IsResolvable (join base name)) : t.isPresent (join base name) = true := by
  have hwalk : ∃ loc, t.walk true left out [name] = .ok (.found loc .dir) := by
    have hending : t.ending? true out name [] = none := by
      rcases hdots with rfl | rfl <;> simp [ending?]
    rw [walk_cons, hending]
    rcases hdots with rfl | rfl
    · exact ⟨out, by simp [onward, Except.bind]⟩
    · exact ⟨out.dropLast, by simp [onward, Except.bind]⟩
  obtain ⟨loc, hwalk⟩ := hwalk
  have hfound : t.resolve true (join base name) = .ok (.found loc .dir) := by
    rw [resolve_of_isResolvable hpath, steps_join_dots base hdots, walk_append _ _ (by simp), hlead]
    exact hwalk
  rw [isPresent, find?_eq_some_iff.2 hfound]
  rfl

/-! ### What a moved directory leaves -/

/-- A tree stays well formed where something is moved to a free place in one of its directories. -/
theorem wellFormed_relocate (hwf : WellFormed t) (hloc : loc ≠ [])
    (hdir : t.get? out = some .dir) (hfree : t.get? (out ++ [name]) = none)
    (hout : isWithin out loc = false) : WellFormed (t.relocate loc (out ++ [name])) := by
  have hne : out ++ [name] ≠ [] := by simp
  have hkeep : ∀ l, t.get? l = some .dir → isWithin l loc = false →
      (t.relocate loc (out ++ [name])).get? l = some .dir := by
    intro l hl hwithin
    by_cases hnil : l = []
    · rw [hnil, get?_nil]
    · have hnot : isWithin l (out ++ [name]) = false := by
        by_contra htop
        rw [Bool.not_eq_false] at htop
        obtain ⟨rest, rfl⟩ := isWithin_iff.1 htop
        cases rest with
        | nil => simp [hfree] at hl
        | cons first rest =>
          rw [hwf.get?_below (by simp [hfree]) (by simp)] at hl
          cases hl
      rw [get?_relocate_of_not_within t hnil loc hnot, hwithin, hl]
      rfl
  intro l other hother
  by_cases hwithin : isWithin (l ++ [other]) (out ++ [name]) = true
  · obtain ⟨rest, hrest⟩ := isWithin_iff.1 hwithin
    rcases List.eq_nil_or_concat rest with rfl | ⟨front, last, rfl⟩
    · obtain ⟨rfl, -⟩ := List.append_inj' (hrest.trans (List.append_nil _)) rfl
      exact hkeep l hdir hout
    · rw [List.concat_eq_append, ← List.append_assoc] at hrest
      obtain ⟨rfl, hlast⟩ := List.append_inj' hrest rfl
      rw [List.append_assoc, get?_relocate_target t hloc hne, ← List.append_assoc] at hother
      rw [get?_relocate_target t hloc hne]
      exact hwf _ _ hother
  · rw [Bool.not_eq_true] at hwithin
    rw [get?_relocate_of_not_within t (by simp) loc hwithin] at hother
    split at hother
    · exact absurd rfl hother
    next houtside =>
      refine hkeep l (hwf l other hother) ?_
      by_contra hl
      rw [Bool.not_eq_false] at hl
      exact houtside (isWithin_trans (isWithin_append l [other]) hl)

/-- Ways are gone from where something has been moved away, and no other ways are lost. -/
theorem losesWays_relocate (hwf : WellFormed t) (hfree : t.get? dest = none) :
    LosesWays t (t.relocate loc dest) := by
  intro l e e' he hway he' hway'
  have hnot : isWithin l dest = false := by
    by_contra hwithin
    rw [Bool.not_eq_false] at hwithin
    obtain ⟨rest, rfl⟩ := isWithin_iff.1 hwithin
    cases rest with
    | nil =>
      rw [List.append_nil, hfree] at he
      cases he
    | cons first rest =>
      rw [hwf.get?_below (by simp [hfree]) (by simp)] at he
      cases he
  by_cases hnil : l = []
  · subst hnil
    rw [get?_nil] at he he'
    exact Option.some.inj (he'.symm.trans he)
  · rw [get?_relocate_of_not_within t hnil loc hnot] at he'
    split at he'
    · cases he'
    · exact Option.some.inj (he'.symm.trans he)

theorem Holds.relocate (h : t.Holds loc c) (hloc : loc ≠ []) (hd : dest ≠ []) :
    (t.relocate loc dest).Holds dest c where
  dir := by
    have hget := get?_relocate_target t hloc hd []
    rwa [List.append_nil, List.append_nil, h.dir] at hget
  entries := by
    rw [← h.entries]
    funext name
    exact get?_relocate_target t hloc hd [name]
  flat := by
    intro name rest hrest
    rw [get?_relocate_target t hloc hd, h.flat name rest hrest]

end BitcodeReplay.FileTree
