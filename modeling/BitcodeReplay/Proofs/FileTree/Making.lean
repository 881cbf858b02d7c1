import BitcodeReplay.Proofs.FileTree.Local
import BitcodeReplay.Proofs.FileTree.Proper

/-!
Making directories, and paths into a directory below which no link stands. What is made stands on the
way to a directory: the first names of its path lead there. Where no link stands, names lead to the
places of those names and nowhere else.
-/

namespace BitcodeReplay.FileTree

open Path

/-- A directory to which the first of some names lead. -/
def IsOnWay (t : FileTree) (names : List String) (l : Location) : Prop :=
  ∃ front left, front <+: names ∧ t.passage maxLinks [] front = .ok (left, l)

/-- Some directories have been made on the way that one of some lists of names leads, and nothing else
has changed. -/
def Makes (ways : List String → Prop) (t t' : FileTree) : Prop :=
  ∀ l, t'.get? l = t.get? l ∨
    t.get? l = none ∧ t'.get? l = some .dir ∧ ∃ names, ways names ∧ t'.IsOnWay names l

/-- Below a directory stands no link. -/
def LinkFree (t : FileTree) (top : Location) : Prop :=
  ∀ name rest target, t.get? (top ++ name :: rest) ≠ some (.link target)

variable {t t' t'' : FileTree} {V : Location → Prop} {links left : Nat} {here loc top l : Location}
  {names more front : List String} {name path base : String} {follow : Bool}
  {ways ways' : List String → Prop}

/-! ### Making directories -/

theorem IsOnWay.mono (h : t.IsOnWay names l) (hnames : names <+: more) : t.IsOnWay more l := by
  obtain ⟨front, left, hfront, hlead⟩ := h
  exact ⟨front, left, hfront.trans hnames, hlead⟩

theorem IsOnWay.of_keepsWays (h : t.IsOnWay names l) (hways : KeepsWays t t') :
    t'.IsOnWay names l := by
  obtain ⟨front, left, hfront, hlead⟩ := h
  exact ⟨front, left, hfront, passage_of_keepsWays hways hlead⟩

theorem Makes.refl (ways : List String → Prop) (t : FileTree) : Makes ways t t := fun _ => .inl rfl

theorem Makes.keepsWays (h : Makes ways t t') : KeepsWays t t' := by
  intro l e he _
  rcases h l with hsame | ⟨hnone, -⟩
  · rw [hsame, he]
  · rw [hnone] at he
    cases he

theorem Makes.trans (h : Makes ways t t') (h' : Makes ways t' t'') : Makes ways t t'' := by
  intro l
  rcases h l with hsame | ⟨hnone, hdir, names, hnames, hway⟩
  · rw [← hsame]
    exact h' l
  · exact .inr ⟨hnone, h'.keepsWays l _ hdir trivial, names, hnames, hway.of_keepsWays h'.keepsWays⟩

theorem Makes.mono (h : Makes ways t t')
    (hways : ∀ names, ways names → ∃ more, ways' more ∧ names <+: more) : Makes ways' t t' := by
  intro l
  rcases h l with hsame | ⟨hnone, hdir, names, hnames, hway⟩
  · exact .inl hsame
  · obtain ⟨more, hmore, hprefix⟩ := hways names hnames
    exact .inr ⟨hnone, hdir, more, hmore, hway.mono hprefix⟩

/-- A name that leads to a free place is that of the place. -/
theorem free_of_walk (h : t.walk false links here [name] = .ok (.free loc)) :
    loc = here ++ [name] ∧ name ≠ "." ∧ name ≠ ".." ∧ name.utf8ByteSize ≤ maxName ∧
      t.get? (here ++ [name]) = none := by
  rcases walk_cons_eq_ok_iff.1 h with hp | ⟨hp, s, hs, h⟩
  · obtain ⟨-, hdot, hup, hshort, ⟨hget, hfree⟩ | ⟨e, -, -, hfound, -⟩⟩ := ending?_eq_some hp
    · cases hfree
      exact ⟨rfl, hdot, hup, hshort, hget⟩
    · cases hfound
  · -- what is followed leads to a directory
    cases onward_eq_ok_iff.1 hs with
    | dot => simp at h
    | up => simp at h
    | dir => simp at h
    | link hdot hup hshort hget => simp [ending?, hdot, hup, Nat.not_lt.2 hshort, hget] at hp

theorem makeDir_eq_ok (h : t.makeDir (front ++ [name]) = .ok t') :
    ∃ left here, t.passage maxLinks [] front = .ok (left, here) ∧ name ≠ ".." ∧
      t.get? (here ++ [name]) = none ∧ t' = t.put (here ++ [name]) .dir ∧
      t'.passage maxLinks [] (front ++ [name]) = .ok (left, here ++ [name]) := by
  obtain ⟨p, hwalk, hput⟩ := bind_eq_ok_iff.1 h
  cases p with
  | found l e => cases hput
  | free loc =>
    cases hput
    obtain ⟨⟨left, here⟩, hpass, hlast⟩ := (walk_append_eq_ok_iff (by simp)).1 hwalk
    obtain ⟨rfl, hdot, hup, hshort, hnone⟩ := free_of_walk hlast
    have hmade : (t.put (here ++ [name]) .dir).get? (here ++ [name]) = some .dir := by
      rw [get?_put _ _ _ _ (by simp), if_pos rfl]
    have hways : KeepsWays t (t.put (here ++ [name]) .dir) := by
      intro l e he _
      rw [get?_put _ _ _ _ (by simp), if_neg, he]
      rintro rfl
      rw [hnone] at he
      cases he
    refine ⟨left, here, hpass, hup, hnone, rfl, ?_⟩
    refine passage_append_eq_ok_iff.2 ⟨_, passage_of_keepsWays hways hpass, ?_⟩
    exact passage_cons_eq_ok_iff.2 ⟨_, onward_eq_ok_iff.2 (.dir hdot hup hshort hmade), passage_nil ..⟩

theorem makes_makeDir (h : t.makeDir names = .ok t') : Makes (· = names) t t' := by
  rcases List.eq_nil_or_concat names with rfl | ⟨front, name, rfl⟩
  · rw [makeDir, walk_nil] at h
    cases h
  rw [List.concat_eq_append] at h ⊢
  obtain ⟨left, here, -, -, hnone, rfl, hlead⟩ := makeDir_eq_ok h
  intro l
  rw [get?_put _ _ _ _ (by simp)]
  split
  · next heq =>
    exact .inr ⟨heq ▸ hnone, rfl, front ++ [name], rfl, _, left, List.prefix_rfl, heq ▸ hlead⟩
  · exact .inl rfl

/-- A directory is made after those above it. -/
theorem makes_makeDirs (t : FileTree) (above : List String) :
    Makes (· = above.reverse) t (t.makeDirs above).1 := by
  induction above generalizing t with
  | nil => exact Makes.refl _ _
  | cons name above ih =>
    have hfront : above.reverse <+: (name :: above).reverse := by simp
    rw [makeDirs]
    split
    · next made hmake => exact makes_makeDir hmake
    · next hmake =>
      have habove : Makes (· = (name :: above).reverse) t (t.makeDirs above).1 :=
        (ih t).mono fun names hnames => ⟨_, rfl, hnames ▸ hfront⟩
      split
      · next made e hmade => rwa [hmade] at habove
      · next made hmade =>
        rw [hmade] at habove
        split
        · next done hdone => exact habove.trans (makes_makeDir hdone)
        · exact habove
    · exact Makes.refl _ _

theorem makes_createDirAll (t : FileTree) (path : String) :
    Makes (· = Path.names path) t (t.createDirAll path).1 := by
  have hall : Makes (· = Path.names path) t (t.makeDirs (Path.names path).reverse).1 :=
    (makes_makeDirs t _).mono fun names hnames => ⟨_, rfl, by simp [hnames]⟩
  have habove : Makes (· = Path.names path) t (t.makeDirs (Path.names path).dropLast.reverse).1 :=
    (makes_makeDirs t _).mono fun names hnames =>
      ⟨_, rfl, by rw [hnames, List.reverse_reverse]; exact List.dropLast_prefix _⟩
  simp only [createDirAll]
  split
  · exact Makes.refl _ _
  split
  · exact Makes.refl _ _
  split
  · split
    · split
      · next made hmade => rwa [hmade] at habove
      · exact habove
    · exact Makes.refl _ _
  · exact hall

theorem proper_makeDir (ht : t.Proper) (hnames : ∀ name ∈ names, name ≠ ".." → IsComponent name)
    (h : t.makeDir names = .ok t') : t'.Proper := by
  rcases List.eq_nil_or_concat names with rfl | ⟨front, name, rfl⟩
  · rw [makeDir, walk_nil] at h
    cases h
  rw [List.concat_eq_append] at h hnames
  obtain ⟨left, here, hlead, hup, hnone, rfl, -⟩ := makeDir_eq_ok h
  exact ht.put (ht.wellFormed.passage_dir rfl hlead) (hnames name (by simp) hup) (by simp [hnone])

theorem proper_makeDirs (ht : t.Proper) {above : List String}
    (hnames : ∀ name ∈ above, name ≠ ".." → IsComponent name) : (t.makeDirs above).1.Proper := by
  induction above generalizing t with
  | nil => exact ht
  | cons name above ih =>
    have hall : ∀ n ∈ (name :: above).reverse, n ≠ ".." → IsComponent n :=
      fun n hn => hnames n (List.mem_reverse.1 hn)
    have habove := ih ht fun n hn => hnames n (List.mem_cons_of_mem _ hn)
    rw [makeDirs]
    split
    · next made hmake => exact proper_makeDir ht hall hmake
    · split
      · next made e hmade => rwa [hmade] at habove
      · next made hmade =>
        rw [hmade] at habove
        split
        · next done hdone => exact proper_makeDir habove hall hdone
        · exact habove
    · exact ht

theorem proper_createDirAll (ht : t.Proper) (path : String) : (t.createDirAll path).1.Proper := by
  have hall : (t.makeDirs (Path.names path).reverse).1.Proper := by
    refine proper_makeDirs ht fun name hname => ?_
    exact isComponent_of_mem_names (List.mem_reverse.1 hname)
  have habove : (t.makeDirs (Path.names path).dropLast.reverse).1.Proper := by
    refine proper_makeDirs ht fun name hname => ?_
    exact isComponent_of_mem_names (List.dropLast_subset _ (List.mem_reverse.1 hname))
  simp only [createDirAll]
  split
  · exact ht
  split
  · exact ht
  split
  · split
    · split
      · next made hmade => rwa [hmade] at habove
      · exact habove
    · exact ht
  · exact hall

/-! ### Directories below which no link stands -/

theorem LinkFree.below (h : t.LinkFree top) (rest : Location) : t.LinkFree (top ++ rest) := by
  intro name more target
  cases rest with
  | nil => simpa using h name more target
  | cons first rest => simpa using h first (rest ++ name :: more) target

theorem LinkFree.passage_eq (h : t.LinkFree here) (hc : ∀ name ∈ names, IsComponent name)
    (hlead : t.passage links here names = .ok (left, loc)) : loc = here ++ names := by
  induction names generalizing here links with
  | nil =>
    rw [passage_nil] at hlead
    cases hlead
    simp
  | cons name rest ih =>
    obtain ⟨s, hs, hlead⟩ := passage_cons_eq_ok_iff.1 hlead
    obtain rfl := onward_of_no_link (hc name List.mem_cons_self) (h name []) hs
    rw [ih (h.below [name]) (fun n hn => hc n (List.mem_cons_of_mem _ hn)) hlead,
      List.append_assoc, List.singleton_append]

theorem LinkFree.walk_loc (h : t.LinkFree here) (hc : ∀ name ∈ names, IsComponent name) {p : Place}
    (hwalk : t.walk follow links here names = .ok p) : p.loc = here ++ names := by
  rcases List.eq_nil_or_concat names with rfl | ⟨front, name, rfl⟩
  · rw [walk_nil] at hwalk
    cases hwalk
    simp [Place.loc]
  rw [List.concat_eq_append] at hwalk hc ⊢
  obtain ⟨s, hpass, hlast⟩ := (walk_append_eq_ok_iff (by simp)).1 hwalk
  have hname : IsComponent name := hc name (by simp)
  have hs : s.2 = here ++ front := h.passage_eq (fun n hn => hc n (by simp [hn])) hpass
  rw [walk_name hname fun _ => hs ▸ h.below front name [], hs] at hlast
  split at hlast
  · cases hlast
  · cases hlast
    rw [placeIn_loc, List.append_assoc]

section LeadsThrough

variable (h : LeadsThrough t V base top) (hfree : t.LinkFree top)
include h hfree

theorem LeadsThrough.walk_below (hmore : more ≠ []) (hc : ∀ name ∈ more, IsComponent name)
    {p : Place} (hwalk : t.walk follow maxLinks [] (Path.names base ++ more) = .ok p) :
    p.loc = top ++ more := by
  obtain ⟨s, hpass, hwalk⟩ := (walk_append_eq_ok_iff hmore).1 hwalk
  obtain rfl := h.leads s.1 s.2 hpass
  exact hfree.walk_loc hc hwalk

/-- A path into the directory leads to the place of its names there. -/
theorem LeadsThrough.resolve_below (hnames : Path.names path = Path.names base ++ more)
    (hmore : more ≠ []) (hc : ∀ name ∈ more, IsComponent name) {p : Place}
    (hplace : t.resolve follow path = .ok p) : p.loc = top ++ more := by
  rw [resolve_eq_ok_iff, steps, hnames] at hplace
  obtain ⟨-, hwalk⟩ := hplace
  split at hwalk
  · -- a dot behind the names leads nowhere else
    obtain ⟨r, hpass, hwalk⟩ := (walk_append_eq_ok_iff (by simp)).1 hwalk
    obtain ⟨s, hbase, hbelow⟩ := passage_append_eq_ok_iff.1 hpass
    obtain rfl := h.leads s.1 s.2 hbase
    have hr : r.2 = s.2 ++ more := hfree.passage_eq hc hbelow
    simp [walk_cons, ending?, onward, Except.bind] at hwalk
    rw [← hwalk, Place.loc, hr]
  · rw [List.append_nil] at hwalk
    exact h.walk_below hfree hmore hc hwalk

theorem LeadsThrough.takesFile_below (hnames : Path.names path = Path.names base ++ more)
    (hmore : more ≠ []) (hc : ∀ name ∈ more, IsComponent name) (htakes : t.TakesFile path loc) :
    loc = top ++ more := by
  rcases htakes with hplace | ⟨bytes, executable, hplace⟩
  · exact h.resolve_below hfree hnames hmore hc hplace
  · exact h.resolve_below hfree hnames hmore hc hplace

/-- On the way into the directory stands what is on the way to it, or in it. -/
theorem LeadsThrough.isOnWay_below (hc : ∀ name ∈ more, IsComponent name)
    (hway : t.IsOnWay (Path.names base ++ more) l) :
    t.IsOnWay (Path.names base) l ∨ ∃ name rest, l = top ++ name :: rest := by
  obtain ⟨front, left, hfront, hlead⟩ := hway
  rcases List.prefix_or_prefix_of_prefix hfront (List.prefix_append _ more) with hbase | hbase
  · exact .inl ⟨front, left, hbase, hlead⟩
  · obtain ⟨rest, rfl⟩ := hbase
    have hrest := (List.prefix_append_right_inj _).1 hfront
    obtain ⟨s, hpass, hlead⟩ := passage_append_eq_ok_iff.1 hlead
    obtain rfl := h.leads s.1 s.2 hpass
    have hl := hfree.passage_eq (fun n hn => hc n (hrest.subset hn)) hlead
    cases rest with
    | nil => exact .inl ⟨_, s.1, List.prefix_rfl, by rw [hpass, hl, List.append_nil]⟩
    | cons name rest => exact .inr ⟨name, rest, hl⟩

end LeadsThrough

/-! ### Directories that are found -/

theorem find?_of_isDir (h : t.isDir path = true) : ∃ loc, t.find? path = some (loc, .dir) := by
  rw [isDir] at h
  split at h
  next loc hfind => exact ⟨loc, hfind⟩
  next => cases h

theorem isDir_iff : t.isDir path = true ↔
    IsResolvable path ∧ ∃ left loc, t.LeadsTo path left loc := by
  constructor
  · intro h
    obtain ⟨loc, hfind⟩ := find?_of_isDir h
    obtain ⟨left, hlead⟩ := leadsTo_of_find? hfind
    exact ⟨(resolve_eq_ok_iff.1 (find?_eq_some_iff.1 hfind)).1, left, loc, hlead⟩
  · rintro ⟨hpath, left, loc, hlead⟩
    rw [isDir, hlead.find?_eq hpath]

theorem hasDir_iff : t.hasDir names = true ↔
    ∃ left loc, t.passage maxLinks [] names = .ok (left, loc) := by
  rw [hasDir]
  constructor
  · intro h
    split at h
    next loc hwalk =>
      obtain ⟨left, hpass⟩ := walk_eq_dir_iff.1 hwalk
      exact ⟨left, loc, hpass⟩
    next => cases h
  · rintro ⟨left, loc, hpass⟩
    rw [walk_eq_dir_iff.2 ⟨left, hpass⟩]

theorem hasDir_of_makeDir (h : t.makeDir names = .ok t') : t'.hasDir names = true := by
  rcases List.eq_nil_or_concat names with rfl | ⟨front, name, rfl⟩
  · rw [hasDir, walk_nil]
  · rw [List.concat_eq_append] at h ⊢
    obtain ⟨left, here, -, -, -, -, hpass⟩ := makeDir_eq_ok h
    exact hasDir_iff.2 ⟨left, _, hpass⟩

/-- What has been made is there. -/
theorem hasDir_of_makeDirs (h : t.makeDirs above = (made, .ok ())) :
    made.hasDir above.reverse = true := by
  cases above with
  | nil => rw [List.reverse_nil, hasDir, walk_nil]
  | cons name above =>
    rw [makeDirs] at h
    split at h
    next done hmake =>
      cases h
      exact hasDir_of_makeDir hmake
    next =>
      split at h
      · cases h
      next made' _ =>
        split at h
        next done hmake =>
          cases h
          exact hasDir_of_makeDir hmake
        next e _ =>
          by_cases hdir : made'.hasDir (name :: above).reverse = true
          · rw [if_pos hdir] at h
            cases h
            exact hdir
          · rw [if_neg hdir] at h
            cases h
    next e _ _ =>
      by_cases hdir : t.hasDir (name :: above).reverse = true
      · rw [if_pos hdir] at h
        cases h
        exact hdir
      · rw [if_neg hdir] at h
        cases h

theorem isDir_of_checkDir (h : t.checkDir path = .ok ()) : t.isDir path = true := by
  obtain ⟨p, hplace, h⟩ := bind_eq_ok_iff.1 h
  cases p with
  | free loc => cases h
  | found loc e =>
    cases e with
    | dir => rw [isDir, find?_eq_some_iff.2 hplace]
    | _ => cases h

/-- A directory that could be made is found at its path. -/
theorem isDir_of_createDirAll (hpath : path ≠ "") (h : t.createDirAll path = (made, .ok ())) :
    made.isDir path = true := by
  rw [createDirAll] at h
  split at h
  · cases h
  next hnul =>
    split at h
    · cases h
    next hlong =>
      split at h
      · split at h
        · split at h
          next made' _ =>
            obtain ⟨rfl, hcheck⟩ := Prod.mk.inj h
            exact isDir_of_checkDir hcheck
          next hfailed => exact absurd h (hfailed made)
        · obtain ⟨rfl, hcheck⟩ := Prod.mk.inj h
          exact isDir_of_checkDir hcheck
      · have hdir := hasDir_of_makeDirs h
        rw [List.reverse_reverse] at hdir
        exact isDir_iff.2 ⟨⟨by simpa using hnul, hpath, Nat.not_lt.1 hlong⟩, hasDir_iff.1 hdir⟩

theorem createDirAll_join (hc : IsComponent name) (hpath : IsResolvable (join base name)) :
    t.createDirAll (join base name) = t.makeDirs (name :: (Path.names base).reverse) := by
  rw [createDirAll, hpath.noNul, if_neg Bool.false_ne_true, if_neg (Nat.not_lt.2 hpath.short),
    endsInDot_of_wantsDirectory (wantsDirectory_join base hc), if_neg Bool.false_ne_true,
    names_join base hc, List.reverse_append, List.reverse_singleton, List.singleton_append]

/-- Names that lead to a directory lead to one or to a link if the last of them is not followed. -/
theorem walk_false_of_passage {r : Nat × Location} (h : t.passage links here names = .ok r) :
    ∃ loc e, t.walk false links here names = .ok (.found loc e) := by
  induction links, here, names using t.walk_induction with
  | nil links here => exact ⟨here, .dir, walk_nil ..⟩
  | cons links here name rest ih =>
    obtain ⟨s, hs, h⟩ := passage_cons_eq_ok_iff.1 h
    cases hp : t.ending? false here name rest with
    | none =>
      rw [walk_of_onward hs hp]
      exact ih s hs h
    | some place =>
      rw [walk_cons, hp]
      obtain ⟨-, hdot, hup, -, ⟨hnone, -⟩ | ⟨e, -, -, rfl, -⟩⟩ := ending?_eq_some hp
      · obtain ⟨e, he, -⟩ := way_of_onward hdot hup hs
        rw [hnone] at he
        cases he
      · exact ⟨_, e, rfl⟩

/-- Making a directory that is found changes nothing. -/
theorem createDirAll_of_isDir (hc : IsComponent name) (h : t.isDir (join base name) = true) :
    t.createDirAll (join base name) = (t, .ok ()) := by
  obtain ⟨hpath, left, loc, hlead⟩ := isDir_iff.1 h
  rw [LeadsTo, names_join base hc] at hlead
  obtain ⟨l, e, hwalk⟩ := walk_false_of_passage hlead
  have hdir : t.hasDir (Path.names base ++ [name]) = true := hasDir_iff.2 ⟨left, loc, hlead⟩
  rw [createDirAll_join hc hpath, makeDirs, List.reverse_cons, List.reverse_reverse, makeDir, hwalk]
  simp only [bind, Except.bind, hdir, if_true]
  rfl

/-! ### A directory in a directory -/

theorem LeadsTo.leadsThrough (h : t.LeadsTo base left loc) :
    t.LeadsThrough (fun _ => True) base loc where
  stays := stays_everywhere _ _ _ _
  leads := fun _ _ h' => (h.unique h').2

/-- On the way to where a path leads there are directories already. -/
theorem LeadsTo.get?_of_isOnWay (h : t.LeadsTo base left loc) (hwf : WellFormed t)
    (hways : KeepsWays t t') (hway : t'.IsOnWay (Path.names base) l) : t.get? l = some .dir := by
  obtain ⟨front, left', ⟨rest, hrest⟩, hlead⟩ := hway
  rw [LeadsTo, ← hrest] at h
  obtain ⟨s, hpass, -⟩ := passage_append_eq_ok_iff.1 h
  have hsame := passage_of_keepsWays hways hpass
  rw [hlead] at hsame
  cases hsame
  exact hwf.passage_dir rfl hpass

/-- Making a directory of some name in a directory makes that one, if anything. -/
theorem LeadsTo.get?_createDirAll (h : t.LeadsTo base left loc) (hwf : WellFormed t)
    (hc : IsComponent name) (hlink : ∀ target, t.get? (loc ++ [name]) ≠ some (.link target))
    (l : Location) : (t.createDirAll (join base name)).1.get? l = t.get? l ∨
      l = loc ++ [name] ∧ t.get? l = none ∧
        (t.createDirAll (join base name)).1.get? l = some .dir := by
  have hmakes := makes_createDirAll t (join base name)
  generalize (t.createDirAll (join base name)).1 = made at hmakes ⊢
  have hlead := h.of_keepsWays hmakes.keepsWays
  have hnolink : ∀ target, made.get? (loc ++ [name]) ≠ some (.link target) := by
    intro target htarget
    rcases hmakes (loc ++ [name]) with hsame | ⟨-, hdir, -⟩
    · exact hlink target (hsame ▸ htarget)
    · rw [hdir] at htarget
      cases htarget
  rcases hmakes l with hsame | ⟨hnone, hdir, _, rfl, front, left', hfront, hpass⟩
  · exact .inl hsame
  · refine .inr ⟨?_, hnone, hdir⟩
    rw [names_join base hc, List.prefix_concat_iff] at hfront
    rcases hfront with rfl | hfront
    · rw [← names_join base hc] at hpass
      exact (hlead.leadsThrough.join hc trivial hnolink).leads left' l hpass
    · have hthere := h.get?_of_isOnWay hwf hmakes.keepsWays ⟨front, left', hfront, hpass⟩
      rw [hnone] at hthere
      cases hthere

theorem LinkFree.of_makes (h : t.LinkFree top) (hmakes : Makes ways t t') : t'.LinkFree top := by
  intro name rest target
  rcases hmakes (top ++ name :: rest) with hsame | ⟨-, hdir, -⟩
  · rw [hsame]
    exact h name rest target
  · simp [hdir]

/-- Where no link stands below a directory, directories that are made on a path into it are made
below it. -/
theorem LeadsTo.get?_createDirAll_below (h : t.LeadsTo base left loc) (hwf : WellFormed t)
    (hfree : t.LinkFree loc) (hpath : Path.names path = Path.names base ++ more)
    (hc : ∀ name ∈ more, IsComponent name) (l : Location) :
    (t.createDirAll path).1.get? l = t.get? l ∨
      (∃ name rest, l = loc ++ name :: rest) ∧ t.get? l = none ∧
        (t.createDirAll path).1.get? l = some .dir := by
  have hmakes := makes_createDirAll t path
  generalize (t.createDirAll path).1 = made at hmakes ⊢
  rcases hmakes l with hsame | ⟨hnone, hdir, _, rfl, hway⟩
  · exact .inl hsame
  rw [hpath] at hway
  have hlead := (h.of_keepsWays hmakes.keepsWays).leadsThrough
  rcases hlead.isOnWay_below (hfree.of_makes hmakes) hc hway with hbase | hbelow
  · have hthere := h.get?_of_isOnWay hwf hmakes.keepsWays hbase
    rw [hnone] at hthere
    cases hthere
  · exact .inr ⟨hbelow, hnone, hdir⟩

/-- The path of a directory in a directory leads to it. -/
theorem LeadsTo.join_dir (h : t.LeadsTo base left loc) (hc : IsComponent name)
    (hshort : ¬ maxName < name.utf8ByteSize) (hdir : t.get? (loc ++ [name]) = some .dir) :
    t.LeadsTo (join base name) left (loc ++ [name]) := by
  rw [LeadsTo, names_join base hc, passage_append, h]
  simp only [Except.bind, passage_cons, onward, hc.ne_dot, hc.ne_dots, hshort, if_false, hdir,
    passage_nil]

/-- A directory is made under a free name of a directory. -/
theorem LeadsTo.createDirAll_of_none (h : t.LeadsTo base left loc) (hc : IsComponent name)
    (hpath : IsResolvable (join base name)) (hshort : ¬ maxName < name.utf8ByteSize)
    (hnone : t.get? (loc ++ [name]) = none) :
    t.createDirAll (join base name) = (t.put (loc ++ [name]) .dir, .ok ()) := by
  have hwalk : t.walk false maxLinks [] (Path.names base ++ [name]) =
      .ok (.free (loc ++ [name])) := by
    rw [walk_append _ _ (by simp), h, Except.bind, walk_name hc (by simp), if_neg hshort,
      placeIn_of_none hnone]
  rw [createDirAll_join hc hpath, makeDirs, List.reverse_cons, List.reverse_reverse, makeDir, hwalk]
  rfl

/-- A directory of some name can be made in a directory if none but a directory has the name. -/
theorem LeadsTo.createDirAll_eq_ok (h : t.LeadsTo base left loc) (hc : IsComponent name)
    (hpath : IsResolvable (join base name)) (hshort : ¬ maxName < name.utf8ByteSize)
    (hget : ∀ e, t.get? (loc ++ [name]) = some e → e = .dir) :
    ∃ made, t.createDirAll (join base name) = (made, .ok ()) ∧
      made.get? (loc ++ [name]) = some .dir := by
  cases hplace : t.get? (loc ++ [name]) with
  | none =>
    exact ⟨_, h.createDirAll_of_none hc hpath hshort hplace,
      by rw [get?_put _ _ _ _ (by simp), if_pos rfl]⟩
  | some e =>
    obtain rfl := hget e hplace
    have hdir : t.isDir (join base name) = true :=
      isDir_iff.2 ⟨hpath, left, _, h.join_dir hc hshort hplace⟩
    exact ⟨t, createDirAll_of_isDir hc hdir, hplace⟩

/-- What is written under a free name of a directory makes a file there. -/
theorem LeadsThrough.writeFile_eq {bytes : ByteArray} (h : LeadsThrough t V base top)
    (hc : IsComponent name) (hnone : t.get? (top ++ [name]) = none)
    (hwrite : t.writeFile (Path.join base name) bytes = .ok t') :
    (∃ left, t.LeadsTo base left top) ∧
      t.resolve true (Path.join base name) = .ok (.free (top ++ [name])) ∧
      t' = t.put (top ++ [name]) (.file bytes false) := by
  obtain ⟨p, hplace, hput⟩ := bind_eq_ok_iff.1 hwrite
  obtain ⟨left, loc, hlead, -⟩ := leadsTo_of_resolve_join hc hplace
  obtain rfl := h.leads left loc hlead
  obtain rfl : p = .free (loc ++ [name]) := by
    rw [hlead.place_eq hc (by simp [hnone]) hplace, placeIn_of_none hnone]
  exact ⟨⟨left, hlead⟩, hplace, (Except.ok.inj hput).symm⟩

end BitcodeReplay.FileTree
