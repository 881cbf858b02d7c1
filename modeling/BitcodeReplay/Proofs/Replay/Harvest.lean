import BitcodeReplay.Replay.Harvest
import BitcodeReplay.Proofs.List
import BitcodeReplay.Proofs.Replay.Name

/-!
Taking the files of one compiler run. What is taken is written down as a list of gains, and the tree
after the run is described by it: the product directory has the gains and all it had before, and
every file that is taken is gone from its old place.
-/

namespace BitcodeReplay.Replay

open Path FileTree

/-- A file that is taken: the path it is found by, its place, what is in it, the name it should have
and the name it gets. -/
structure Gain where
  source : String
  loc : Location
  bytes : ByteArray
  executable : Bool
  kept : String
  name : String

/-- The entry of the file. -/
def Gain.entry (g : Gain) : Entry := .file g.bytes g.executable

/-- Nothing stands at a place but perhaps a link. -/
def Vacant (t : FileTree) (loc : Location) : Prop :=
  t.get? loc = none ∨ ∃ target, t.get? loc = some (.link target)

/-- A directory has gained some files and is otherwise as it was. -/
structure Adds (before after : FileTree) (out : Location) (gains : List Gain) : Prop where
  vacant : ∀ g ∈ gains, Vacant before (out ++ [g.name])
  names : (gains.map (·.name)).Nodup
  placed : ∀ g ∈ gains, after.get? (out ++ [g.name]) = some g.entry
  frame : ∀ l, isWithin l out = true → (∀ g ∈ gains, l ≠ out ++ [g.name]) →
    after.get? l = before.get? l

/-- Every gain has the name it should have, or that name was taken, by what was there before or by an
earlier gain, and has got a number. -/
def Named (before : FileTree) (out : Location) (gains : List Gain) : Prop :=
  ∀ front g rest, gains = front ++ g :: rest → g.name = g.kept ∨
    ((before.get? (out ++ [g.kept]) ≠ none ∨ g.kept ∈ front.map (·.name)) ∧
      ∃ n, g.name = numberedName g.kept (n + 1))

/-- What the directory of products has nothing to do with: a path that leads to the same place
whatever the directory holds, and at which no link stands. -/
structure IsApart (t : FileTree) (out : Location) (path : String) : Prop where
  avoids : ∀ (follow : Bool) (t' : FileTree),
    (∀ l, (isWithin l out = true → l = out) → t'.get? l = t.get? l) →
      t'.resolve follow path = t.resolve follow path
  noLink : ∀ loc target, t.resolve false path ≠ .ok (.found loc (.link target))

/-- The paths at which a compiler run may have left bitcode: of clang those of the files in the
working directory with the extension of bitcode, of a Swift compiler those in its output file map. -/
inductive Leaves (t : FileTree) (s : Site) (i : Invocation) : String → Prop
  | temporary {directory : Location} {name : String} : i.compiler = .clang →
      t.find? s.work = some (directory, .dir) → t.get? (directory ++ [name]) ≠ none →
      isBitcode name = true → Leaves t s i (join s.work name)
  | mapped {map path : String} {paths : List String} : i.compiler = .swiftc →
      i.outputFileMap = some map → OutputFileMap.bitcodePaths t (join s.base map) = .ok paths →
      path ∈ paths → Leaves t s i (join s.base path)

/-- All files that a compiler run has left have been taken, each once, and they are gone from
there. -/
structure Takes (s : Site) (i : Invocation) (before after : FileTree) (gains : List Gain) :
    Prop where
  sources : ∀ g ∈ gains, Leaves before s i g.source ∧
    keptName? i.compiler g.source = some g.kept ∧
    before.resolve false g.source = .ok (.found g.loc g.entry)
  places : (gains.map (·.loc)).Nodup
  gone : ∀ g ∈ gains, after.get? g.loc = none
  all : ∀ source, Leaves before s i source → before.isFile source = true →
    ∃ g ∈ gains, before.resolve false source = .ok (.found g.loc g.entry)

variable {t before middle after : FileTree} {out : Location} {compiler : Compiler}
  {gains more : List Gain} {output source name : String} {left : Nat}

theorem Vacant.ne_some {loc : Location} (h : Vacant t loc) {e : Entry}
    (hlink : ∀ target, e ≠ .link target) : t.get? loc ≠ some e := by
  rcases h with hnone | ⟨target, htarget⟩
  · simp [hnone]
  · rw [htarget]
    exact fun he => hlink target (Option.some.inj he).symm

/-! ### Gains one after the other -/

theorem Adds.nil (t : FileTree) (out : Location) : Adds t t out [] :=
  ⟨by simp, List.nodup_nil, by simp, fun _ _ _ => rfl⟩

/-- Where a file has been placed is no vacant place. -/
theorem Adds.name_ne (h : Adds before middle out gains) {g g' : Gain} (hg : g ∈ gains)
    (hvacant : Vacant middle (out ++ [g'.name])) : g.name ≠ g'.name := by
  intro he
  refine hvacant.ne_some (e := g.entry) (by simp [Gain.entry]) ?_
  rw [← he, h.placed g hg]

theorem Adds.append (h : Adds before middle out gains) (h' : Adds middle after out more) :
    Adds before after out (gains ++ more) where
  vacant := by
    intro g hg
    rcases List.mem_append.1 hg with hg | hg
    · exact h.vacant g hg
    · have hvacant := h'.vacant g hg
      have hne : ∀ g' ∈ gains, out ++ [g.name] ≠ out ++ [g'.name] := by
        intro g' hg' he
        exact h.name_ne hg' hvacant (List.singleton_inj.1 (List.append_cancel_left he)).symm
      rwa [Vacant, h.frame _ (isWithin_append _ _) hne] at hvacant
  names := by
    rw [List.map_append, List.nodup_append]
    refine ⟨h.names, h'.names, ?_⟩
    intro x hx y hy
    obtain ⟨g, hg, rfl⟩ := List.mem_map.1 hx
    obtain ⟨g', hg', rfl⟩ := List.mem_map.1 hy
    exact h.name_ne hg (h'.vacant g' hg')
  placed := by
    intro g hg
    rcases List.mem_append.1 hg with hg | hg
    · have hne : ∀ g' ∈ more, out ++ [g.name] ≠ out ++ [g'.name] := by
        intro g' hg' he
        exact h.name_ne hg (h'.vacant g' hg') (List.singleton_inj.1 (List.append_cancel_left he))
      rw [h'.frame _ (isWithin_append _ _) hne]
      exact h.placed g hg
    · exact h'.placed g hg
  frame := by
    intro l hl hne
    rw [h'.frame l hl fun g hg => hne g (List.mem_append_right _ hg)]
    exact h.frame l hl fun g hg => hne g (List.mem_append_left _ hg)

/-- What was there before, or has been gained, is still there. -/
theorem Adds.taken (h : Adds before middle out gains) {name : String}
    (hname : middle.get? (out ++ [name]) ≠ none) :
    before.get? (out ++ [name]) ≠ none ∨ name ∈ gains.map (·.name) := by
  by_cases hgained : name ∈ gains.map (·.name)
  · exact .inr hgained
  · have hne : ∀ g ∈ gains, out ++ [name] ≠ out ++ [g.name] := by
      intro g hg he
      exact hgained (List.mem_map.2
        ⟨g, hg, (List.singleton_inj.1 (List.append_cancel_left he)).symm⟩)
    rw [h.frame _ (isWithin_append _ _) hne] at hname
    exact .inl hname

theorem Named.append (h : Named before out gains) (hadds : Adds before middle out gains)
    (h' : Named middle out more) : Named before out (gains ++ more) := by
  intro front g rest heq
  rcases split_append heq with ⟨mid, hgains, -⟩ | ⟨mid, rfl, hmore⟩
  · exact h front g mid hgains
  · rcases h' mid g rest hmore with hkept | ⟨htaken, hnumber⟩
    · exact .inl hkept
    · refine .inr ⟨?_, hnumber⟩
      rw [List.map_append, List.mem_append]
      rcases htaken with hthere | hearlier
      · exact (hadds.taken hthere).imp_right .inl
      · exact .inr (.inr hearlier)

/-! ### Moving one file -/

/-- A file that is moved goes to a place that only a link can have taken. -/
theorem moveFile_eq {loc : Location} {bytes : ByteArray} {executable : Bool}
    (hleads : ∀ left o, t.LeadsTo output left o → o = out) (hc : IsComponent name)
    (hfree : ∀ left, t.LeadsTo output left out → isFree t output name = true)
    (hsource : t.resolve false source = .ok (.found loc (.file bytes executable)))
    (houtside : isWithin loc out = false)
    (h : moveFile t source (join output name) = (after, .ok ())) :
    after = t.relocate loc (out ++ [name]) ∧ Vacant t (out ++ [name]) := by
  have htarget : ∃ follow p, t.resolve follow (join output name) = .ok p := by
    rw [moveFile] at h
    split at h
    · next moved hrename =>
      exact ⟨false, resolve_of_rename_leaf hsource (by simp) hrename⟩
    · split at h
      · cases h
      · next copied hcopy => exact ⟨true, resolve_of_copyFile hcopy⟩
  obtain ⟨follow, p, hp⟩ := htarget
  obtain ⟨left, o, hlead, hwalk⟩ := leadsTo_of_resolve_join hc hp
  obtain rfl := hleads left o hlead
  have hpath := (resolve_eq_ok_iff.1 hp).1
  have hshort := short_of_walk hc hwalk
  have hvacant : Vacant t (o ++ [name]) := by
    by_contra hnot
    rw [Vacant, not_or, not_exists] at hnot
    obtain ⟨e, he⟩ := Option.ne_none_iff_exists'.1 hnot.1
    obtain ⟨target, rfl⟩ :=
      link_of_not_isPresent hlead hc hp (by simpa [isFree] using hfree left hlead) he
    exact hnot.2 target he
  have hplace : t.resolve false (join output name) = .ok (t.placeIn o name) := by
    rw [resolve_join hlead hc hpath, walk_name hc (by simp), if_neg hshort]
  have hnodir : t.get? (o ++ [name]) ≠ some .dir := hvacant.ne_some (by simp)
  have hne : loc ≠ o ++ [name] := by
    rintro rfl
    simp at houtside
  rw [moveFile, rename_leaf hsource (by simp) hplace hnodir, if_neg hne.symm] at h
  cases h
  exact ⟨rfl, hvacant⟩

/-! ### The course of a harvest -/

/-- How far the files of a compiler run have been taken. -/
structure Progress (compiler : Compiler) (output : String) (out : Location)
    (before t : FileTree) (gains : List Gain) : Prop where
  wellFormed : WellFormed t
  leads : ∀ left o, t.LeadsTo output left o → o = out
  isDir : t.get? out = some .dir
  adds : Adds before t out gains
  named : Named before out gains
  sources : ∀ g ∈ gains, keptName? compiler g.source = some g.kept ∧
    before.resolve false g.source = .ok (.found g.loc g.entry)
  places : (gains.map (·.loc)).Nodup
  outside : ∀ g ∈ gains, isWithin g.loc out = false
  gone : ∀ g ∈ gains, t.get? g.loc = none
  frame : ∀ l, isWithin l out = false → (∀ g ∈ gains, l ≠ g.loc) → t.get? l = before.get? l

theorem Progress.start (hwf : WellFormed before)
    (hleads : ∀ left o, before.LeadsTo output left o → o = out)
    (hdir : before.get? out = some .dir) : Progress compiler output out before before [] :=
  ⟨hwf, hleads, hdir, .nil before out, fun front g rest h => by simp at h, by simp,
    List.nodup_nil, by simp, by simp, fun _ _ _ => rfl⟩

/-- The files that have been taken, put back to where they were. -/
def restore (t : FileTree) (gains : List Gain) : FileTree :=
  gains.foldr (fun g t => t.put g.loc g.entry) t

theorem get?_restore (hentries : ∀ g ∈ gains, before.get? g.loc = some g.entry) (l : Location) :
    (restore t gains).get? l = if l ∈ gains.map (·.loc) then before.get? l else t.get? l := by
  induction gains with
  | nil => rfl
  | cons g rest ih =>
    have hg := hentries g List.mem_cons_self
    have ih := ih fun g' hg' => hentries g' (List.mem_cons_of_mem _ hg')
    rw [restore, List.foldr_cons, get?_put _ _ _ _ (ne_nil_of_get? hg (by simp [Gain.entry])),
      ← restore, ih]
    by_cases hl : l = g.loc
    · simp [hl, hg]
    · simp [hl]

variable {files : List String}

theorem Progress.get?_loc (h : Progress compiler output out before t gains) :
    ∀ g ∈ gains, before.get? g.loc = some g.entry :=
  fun g hg => get?_of_resolve (h.sources g hg).2 (by simp [Gain.entry])

theorem Progress.isDir_before (h : Progress compiler output out before t gains) :
    before.get? out = some .dir := by
  rw [← h.isDir]
  exact (h.adds.frame out (isWithin_self out) fun g _ he => by simp at he).symm

theorem Progress.keepsWays_restore (h : Progress compiler output out before t gains) :
    KeepsWays t (restore t gains) ∧ KeepsWays (restore t gains) t := by
  constructor
  · intro l e he hway
    rw [get?_restore h.get?_loc, if_neg, he]
    intro hl
    obtain ⟨g, hg, rfl⟩ := List.mem_map.1 hl
    rw [h.gone g hg] at he
    cases he
  · intro l e he hway
    rw [get?_restore h.get?_loc] at he
    split at he
    · next hl =>
      obtain ⟨g, hg, rfl⟩ := List.mem_map.1 hl
      rw [h.get?_loc g hg] at he
      cases he
      exact hway.elim
    · exact he

/-- A path apart from the product directory leads, with all files put back, to where it led. -/
theorem Progress.resolve_restore (h : Progress compiler output out before t gains)
    (hapart : IsApart before out source) (follow : Bool) :
    (restore t gains).resolve follow source = before.resolve follow source := by
  refine hapart.avoids follow _ fun l hl => ?_
  rw [get?_restore h.get?_loc]
  split
  · rfl
  · next hmem =>
    by_cases hwithin : isWithin l out = true
    · obtain rfl := hl hwithin
      rw [h.isDir, h.isDir_before]
    · refine h.frame l (by simpa using hwithin) fun g hg he => hmem ?_
      exact List.mem_map.2 ⟨g, hg, he.symm⟩

/-- A file at a path apart from the product directory does not stand in it. -/
theorem IsApart.outside (hapart : IsApart before out source) {loc : Location} {e : Entry}
    (hdir : before.get? out = some .dir) (hne : e ≠ .dir)
    (h : before.resolve false source = .ok (.found loc e)) : isWithin loc out = false := by
  by_contra hwithin
  rw [Bool.not_eq_false] at hwithin
  have hout : loc ≠ out := by
    rintro rfl
    rw [get?_of_resolve h hne] at hdir
    exact hne (Option.some.inj hdir)
  -- the tree in which the product directory is empty
  let emptied : FileTree :=
    ⟨before.entries.filter fun p => !(isWithin p.1 out && p.1 != out)⟩
  have hget : ∀ l, l ≠ [] → emptied.get? l =
      if !(isWithin l out && l != out) then before.get? l else none := by
    intro l hl
    rw [get?_of_ne_nil _ hl, get?_of_ne_nil _ hl]
    exact lookup_filter_location (fun l => !(isWithin l out && l != out)) l before.entries
  have hsame := hapart.avoids false emptied fun l hl => by
    by_cases hnil : l = []
    · rw [hnil]
      rfl
    · rw [hget l hnil, if_pos]
      by_cases hw : isWithin l out = true
      · simp [hl hw]
      · simp [hw]
  rw [h] at hsame
  have hloc := get?_of_resolve hsame hne
  rw [hget loc (ne_nil_of_get? hloc hne), if_neg (by simp [hwithin, hout])] at hloc
  cases hloc

/-- Of the files at paths apart from the product directory, those not yet taken are found where
they were. -/
theorem Progress.resolve_of_isFile (h : Progress compiler output out before t gains)
    (hapart : IsApart before out source) (hfile : t.isFile source = true) :
    ∃ loc bytes executable,
      before.resolve false source = .ok (.found loc (.file bytes executable)) ∧
      t.resolve false source = .ok (.found loc (.file bytes executable)) := by
  obtain ⟨hto, hback⟩ := h.keepsWays_restore
  obtain ⟨loc, b, x, htrue⟩ := isFile_iff.1 hfile
  have hget := get?_of_resolve htrue (by simp)
  have hnew : loc ∉ gains.map (·.loc) := by
    intro hmem
    obtain ⟨g, hg, rfl⟩ := List.mem_map.1 hmem
    rw [h.gone g hg] at hget
    cases hget
  have hrestored := resolve_of_keepsWays hto htrue fun _ => by
    rw [get?_restore h.get?_loc, if_neg hnew, hget]
  rw [h.resolve_restore hapart] at hrestored
  have hbefore : before.isFile source = true := isFile_iff.2 ⟨loc, b, x, hrestored⟩
  obtain ⟨loc', b', x', hfalse⟩ := resolve_false_of_isFile hbefore hapart.noLink
  obtain ⟨hpath, hwalk⟩ := resolve_eq_ok_iff.1 hfalse
  have hsame : before.resolve true source = .ok (.found loc' (.file b' x')) :=
    resolve_eq_ok_iff.2 ⟨hpath, walk_true_of_false (by simp) hwalk⟩
  rw [hrestored] at hsame
  cases hsame
  refine ⟨loc, b, x, hfalse, ?_⟩
  rw [← h.resolve_restore hapart] at hfalse
  exact resolve_of_keepsWays hback hfalse fun _ => hget

/-- A file of another place that is moved to a vacant one of the directory is a gain. -/
theorem adds_relocate (hwf : WellFormed t) {g : Gain} (hloc : t.get? g.loc = some g.entry)
    (houtside : isWithin g.loc out = false) (hvacant : Vacant t (out ++ [g.name])) :
    Adds t (t.relocate g.loc (out ++ [g.name])) out [g] := by
  have hget := get?_relocate_leaf hwf hloc (by simp [Gain.entry]) (hvacant.ne_some (by simp))
    (by simp)
  refine ⟨by simpa using hvacant, by simp, fun g' hg' => ?_, fun l hl hgain => ?_⟩
  · rw [List.mem_singleton.1 hg', hget, if_pos rfl]
  · rw [hget, if_neg (hgain g List.mem_cons_self), if_neg]
    rintro rfl
    rw [houtside] at hl
    cases hl

/-- A free name is the one that a file should have, or that one was taken. -/
theorem named_freeName (hleads : ∀ left o, t.LeadsTo output left o → o = out) {g : Gain}
    (hc : IsComponent g.kept) (hname : g.name = freeName t output g.kept) : Named t out [g] := by
  intro front g' rest heq
  obtain ⟨rfl, rfl, rfl⟩ : front = [] ∧ g' = g ∧ rest = [] := by
    cases front with
    | nil => simpa [eq_comm] using heq
    | cons x front => simp at heq
  rcases freeName_cases t output g'.kept with ⟨-, hfree⟩ | ⟨htaken, n, hnumber⟩
  · exact .inl (hname.trans hfree)
  · refine .inr ⟨.inl fun hnone => ?_, n, hname.trans hnumber⟩
    obtain ⟨left, o, hlead⟩ := leadsTo_of_not_isFree hc htaken
    obtain rfl := hleads left o hlead
    exact get?_of_not_isFree hlead hc htaken hnone

/-- Taking one more file. -/
theorem Progress.take (h : Progress compiler output out before t gains) {g : Gain}
    (hkept : keptName? compiler g.source = some g.kept)
    (hbefore : before.resolve false g.source = .ok (.found g.loc g.entry))
    (hnow : t.resolve false g.source = .ok (.found g.loc g.entry))
    (houtside : isWithin g.loc out = false)
    (hname : g.name = freeName t output g.kept)
    (hmove : moveFile t g.source (join output g.name) = (after, .ok ())) :
    Progress compiler output out before after (gains ++ [g]) := by
  have hc := isComponent_keptName? hkept
  have hcname : IsComponent g.name := hname ▸ isComponent_freeName hc
  obtain ⟨rfl, hvacant⟩ := moveFile_eq h.leads hcname
    (fun left _ => hname ▸ isFree_freeName hc) hnow houtside hmove
  have hloc : t.get? g.loc = some g.entry := get?_of_resolve hnow (by simp [Gain.entry])
  have hnodir : t.get? (out ++ [g.name]) ≠ some .dir := hvacant.ne_some (by simp)
  have hget := get?_relocate_leaf h.wellFormed hloc (by simp [Gain.entry]) hnodir (by simp)
  have hne : ∀ l, isWithin l out = true → l ≠ g.loc := by
    rintro l hl rfl
    rw [houtside] at hl
    cases hl
  have hgone : ∀ g' ∈ gains, g'.loc ≠ g.loc := by
    intro g' hg' he
    rw [← he, h.gone g' hg'] at hloc
    cases hloc
  exact {
    wellFormed := wellFormed_relocate_leaf h.wellFormed hloc (by simp [Gain.entry]) h.isDir hnodir
    -- the ways after the move were there before
    leads := fun left o hlead => h.leads left o
      (hlead.of_keepsWays (keepsWays_of_relocate_file h.wellFormed hloc hnodir (by simp)))
    isDir := by
      rw [hget, if_neg (by simp), if_neg (hne out (isWithin_self out)), h.isDir]
    adds := h.adds.append (adds_relocate h.wellFormed hloc houtside hvacant)
    named := h.named.append h.adds (named_freeName h.leads hc hname)
    sources := by
      intro g' hg'
      rcases List.mem_append.1 hg' with hg' | hg'
      · exact h.sources g' hg'
      · rw [List.mem_singleton.1 hg']
        exact ⟨hkept, hbefore⟩
    places := by
      rw [List.map_append, List.nodup_append]
      refine ⟨h.places, by simp, fun x hx y hy => ?_⟩
      obtain ⟨g', hg', rfl⟩ := List.mem_map.1 hx
      rw [List.map_singleton, List.mem_singleton] at hy
      exact hy ▸ hgone g' hg'
    outside := by
      intro g' hg'
      rcases List.mem_append.1 hg' with hg' | hg'
      · exact h.outside g' hg'
      · rw [List.mem_singleton.1 hg']
        exact houtside
    gone := by
      intro g' hg'
      rcases List.mem_append.1 hg' with hg' | hg'
      · have hplace : g'.loc ≠ out ++ [g.name] := by
          intro he
          have hout := h.outside g' hg'
          rw [he, isWithin_append] at hout
          cases hout
        rw [hget, if_neg hplace, if_neg (hgone g' hg'), h.gone g' hg']
      · have hplace : g.loc ≠ out ++ [g.name] := (hne _ (isWithin_append _ _)).symm
        rw [List.mem_singleton.1 hg', hget, if_neg hplace, if_pos rfl]
    frame := by
      intro l hl hgain
      have hplace : l ≠ out ++ [g.name] := by
        rintro rfl
        simp at hl
      rw [hget, if_neg hplace, if_neg (hgain g (by simp))]
      exact h.frame l hl fun g' hg' => hgain g' (List.mem_append_left _ hg') }

variable {s : Site} {i : Invocation}

/-- A working directory that can be listed is there. -/
theorem dir_of_temporaries (h : temporaries t s.work = .ok files) :
    ∃ directory, t.find? s.work = some (directory, .dir) := by
  rw [temporaries] at h
  split at h
  · cases h
  next names hlist =>
    obtain ⟨directory, hfind, -⟩ := readDir_eq_ok hlist
    exact ⟨directory, hfind⟩

theorem mem_temporaries {directory : Location} (hdir : t.find? s.work = some (directory, .dir))
    (h : temporaries t s.work = .ok files) : source ∈ files ↔
      ∃ name, t.get? (directory ++ [name]) ≠ none ∧ isBitcode name = true ∧
        source = join s.work name := by
  rw [temporaries, readDir_of_find? hdir] at h
  cases h
  simp only [List.mem_map, List.mem_mergeSort, List.mem_filter, mem_namesIn,
    Option.isSome_iff_ne_none]
  constructor
  · rintro ⟨name, ⟨hname, hbitcode⟩, rfl⟩
    exact ⟨name, hname, hbitcode, rfl⟩
  · rintro ⟨name, hname, hbitcode, rfl⟩
    exact ⟨name, ⟨hname, hbitcode⟩, rfl⟩

/-- A Swift compiler leaves bitcode at the paths of its output file map. -/
theorem leaves_swiftc_iff (hcompiler : i.compiler = .swiftc) {map : String} {paths : List String}
    (hmap : i.outputFileMap = some map)
    (hpaths : OutputFileMap.bitcodePaths t (join s.base map) = .ok paths) :
    Leaves t s i source ↔ ∃ path ∈ paths, join s.base path = source := by
  constructor
  · intro hleaves
    cases hleaves with
    | temporary hclang => simp [hcompiler] at hclang
    | mapped _ hmap' hpaths' hpath =>
      rw [hmap] at hmap'
      cases hmap'
      rw [hpaths] at hpaths'
      cases hpaths'
      exact ⟨_, hpath, rfl⟩
  · rintro ⟨path, hpath, rfl⟩
    exact .mapped hcompiler hmap hpaths hpath

/-- What is looked for are the paths at which bitcode may have been left. -/
theorem mem_produced (h : produced t s i = .ok files) : source ∈ files ↔ Leaves t s i source := by
  rw [produced] at h
  cases hcompiler : i.compiler with
  | clang =>
    simp only [hcompiler, Compiler.usesOutputFileMap, Bool.false_eq_true, if_false] at h
    obtain ⟨directory, hdir⟩ := dir_of_temporaries h
    rw [mem_temporaries hdir h]
    constructor
    · rintro ⟨name, hname, hbitcode, rfl⟩
      exact .temporary hcompiler hdir hname hbitcode
    · intro hleaves
      cases hleaves with
      | temporary _ hdir' hname hbitcode =>
        rw [hdir] at hdir'
        cases hdir'
        exact ⟨_, hname, hbitcode, rfl⟩
      | mapped hswift => simp [hcompiler] at hswift
  | swiftc =>
    rw [hcompiler] at h
    simp only [Compiler.usesOutputFileMap, if_true] at h
    cases hmap : i.outputFileMap with
    | none =>
      rw [hmap] at h
      cases h
      constructor
      · intro hmem
        cases hmem
      · intro hleaves
        cases hleaves with
        | temporary hclang => simp [hcompiler] at hclang
        | mapped _ hmap' => simp [hmap] at hmap'
    | some map =>
      rw [hmap] at h
      simp only at h
      cases hpaths : OutputFileMap.bitcodePaths t (join s.base map) with
      | error e =>
        rw [hpaths] at h
        cases h
      | ok paths =>
        rw [hpaths] at h
        cases h
        rw [List.mem_map, leaves_swiftc_iff hcompiler hmap hpaths]

end BitcodeReplay.Replay
