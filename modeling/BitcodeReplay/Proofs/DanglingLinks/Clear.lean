import BitcodeReplay.Proofs.DanglingLinks.Ways

/-!
What is left of a directory that has been cleared. The order in which its links are found does not
matter, and clearing it twice is the same as clearing it once.
-/

namespace BitcodeReplay.DanglingLinks

open FileTree Path

variable {t u after : FileTree} {root : String} {loc : Location} {names : Location}

/-! ### A walk through a directory -/

/-- An order in which a walk can come by the entries below a directory. -/
structure IsWalk (t : FileTree) (root : String) (order : List (Location × Entry)) : Prop where
  perm : order.Perm (t.entriesBelow root)
  above_first : order.Pairwise fun p q => q.1 ≠ p.1.dropLast

theorem isWalk_entriesBelow (ht : t.Proper) (root : String) :
    IsWalk t root (t.entriesBelow root) where
  perm := List.Perm.refl _
  above_first := by
    rw [entriesBelow]
    split
    · exact ht.pairwise_walkBelow _ _
    · exact List.Pairwise.nil

theorem IsWalk.mem_iff {order : List (Location × Entry)} (h : IsWalk t root order)
    (hwf : t.WellFormed) (hroot : t.find? root = some (loc, .dir)) {p : Location × Entry} :
    p ∈ order ↔ p.1 ≠ [] ∧ t.get? (loc ++ p.1) = some p.2 := by
  rw [h.perm.mem_iff, mem_entriesBelow_iff hwf hroot]

/-- A link that a walk examines: the directory that holds it can be opened at its path. -/
structure Examined (t : FileTree) (root : String) (loc names : Location) : Prop where
  below : names ≠ []
  link : ∃ target, t.get? (loc ++ names) = some (.link target)
  opened : t.isDir (pathBelow root names.dropLast) = true

/-- Some of the entries below a directory have been gone through. -/
structure Pruned (t : FileTree) (root : String) (loc : Location) (front : List (Location × Entry))
    (u : FileTree) : Prop where
  gone : ∀ p ∈ front, Examined t root loc p.1 → ¬ Resolves t (loc ++ p.1) →
    u.get? (loc ++ p.1) = none
  same : ∀ l, (∀ p ∈ front, l = loc ++ p.1 → Examined t root loc p.1 → Resolves t l) →
    u.get? l = t.get? l

/-- The directories below the root that have been opened on the way. -/
def IsOpened (t : FileTree) (root : String) (front : List (Location × Entry))
    (opened : List Location) : Prop :=
  ∀ d, d ∈ opened ↔ d = [] ∨ ((d, .dir) ∈ front ∧ t.isDir (pathBelow root d) = true)

variable {front rest order : List (Location × Entry)} {opened : List Location}
  {p : Location × Entry}

theorem Pruned.start (t : FileTree) (root : String) (loc : Location) : Pruned t root loc [] t where
  gone := fun _ hp => absurd hp List.not_mem_nil
  same := fun _ _ => rfl

theorem Pruned.thins (h : Pruned t root loc front u) : Thins t u := by
  intro l
  by_cases hall : ∀ p ∈ front, l = loc ++ p.1 → Examined t root loc p.1 → Resolves t l
  · exact .inl (h.same l hall)
  · push Not at hall
    obtain ⟨p, hp, rfl, hexamined, hnot⟩ := hall
    exact .inr ⟨h.gone p hp hexamined hnot, hexamined.link, hnot⟩

/-- An entry that is no dangling link is passed by. -/
theorem Pruned.pass (h : Pruned t root loc front u)
    (hp : Examined t root loc p.1 → Resolves t (loc ++ p.1)) :
    Pruned t root loc (front ++ [p]) u where
  gone := by
    intro q hq hexamined hnot
    rcases List.mem_append.1 hq with hq | hq
    · exact h.gone q hq hexamined hnot
    · obtain rfl := List.mem_singleton.1 hq
      exact absurd (hp hexamined) hnot
  same := fun l hl => h.same l fun q hq => hl q (List.mem_append_left _ hq)

/-- A dangling link is removed. -/
theorem Pruned.remove (h : Pruned t root loc front u) (hwf : t.WellFormed)
    (hexamined : Examined t root loc p.1) (hnot : ¬ Resolves t (loc ++ p.1)) :
    Pruned t root loc (front ++ [p]) (u.erase (loc ++ p.1)) := by
  obtain ⟨target, hlink⟩ := hexamined.link
  have hne : loc ++ p.1 ≠ [] := ne_nil_of_get? hlink (by simp)
  have hleaf : ∀ rest, rest ≠ [] → u.get? (loc ++ p.1 ++ rest) = none := by
    intro rest hrest
    have hnodir : t.get? (loc ++ p.1) ≠ some .dir := by simp [hlink]
    have hnone := hwf.get?_below hnodir hrest
    rw [h.thins.get?_eq (.inl hnone), hnone]
  have hget := get?_erase_leaf hne hleaf
  constructor
  · intro q hq hexamined' hnot'
    rw [hget]
    rcases List.mem_append.1 hq with hq | hq
    · rw [h.gone q hq hexamined' hnot', ite_self]
    · rw [List.mem_singleton.1 hq, if_pos rfl]
  · intro l hl
    have hl' : l ≠ loc ++ p.1 := by
      rintro rfl
      exact hnot (hl p (by simp) rfl hexamined)
    rw [hget, if_neg hl']
    exact h.same l fun q hq => hl q (List.mem_append_left _ hq)

theorem IsOpened.start (t : FileTree) (root : String) : IsOpened t root [] [[]] := by
  intro d
  simp

/-- An entry that is no directory, or cannot be opened, changes nothing in what has been opened. -/
theorem IsOpened.pass (h : IsOpened t root front opened)
    (hp : p.2 = .dir → t.isDir (pathBelow root p.1) = false) :
    IsOpened t root (front ++ [p]) opened := by
  intro d
  rw [h d, List.mem_append, List.mem_singleton]
  constructor
  · rintro (hd | ⟨hd, hopen⟩)
    · exact .inl hd
    · exact .inr ⟨.inl hd, hopen⟩
  · rintro (hd | ⟨hd | rfl, hopen⟩)
    · exact .inl hd
    · exact .inr ⟨hd, hopen⟩
    · rw [hp rfl] at hopen
      cases hopen

theorem IsOpened.enter (h : IsOpened t root front opened)
    (hopen : t.isDir (pathBelow root names) = true) :
    IsOpened t root (front ++ [(names, .dir)]) (names :: opened) := by
  intro d
  rw [List.mem_cons, h d, List.mem_append, List.mem_singleton]
  constructor
  · rintro (rfl | hd | ⟨hd, hopen'⟩)
    · exact .inr ⟨.inr rfl, hopen⟩
    · exact .inl hd
    · exact .inr ⟨.inl hd, hopen'⟩
  · rintro (hd | ⟨hd | hd, hopen'⟩)
    · exact .inr (.inl hd)
    · exact .inr (.inr ⟨hd, hopen'⟩)
    · exact .inl (Prod.mk.inj hd).1

/-- When a walk comes by an entry, the directory that holds it has been opened if it can be. -/
theorem IsOpened.mem_iff (h : IsOpened t root front opened) (hwf : t.WellFormed)
    (hroot : t.find? root = some (loc, .dir)) (hwalk : IsWalk t root (front ++ p :: rest)) :
    p.1.dropLast ∈ opened ↔ t.isDir (pathBelow root p.1.dropLast) = true := by
  have hmem := fun q => @IsWalk.mem_iff t root loc _ hwalk hwf hroot q
  obtain ⟨hne, hget⟩ := (hmem p).1 (by simp)
  rw [h]
  constructor
  · rintro (hnil | ⟨-, hopen⟩)
    · rw [hnil, pathBelow_nil, isDir, hroot]
    · exact hopen
  · intro hopen
    by_cases hnil : p.1.dropLast = []
    · exact .inl hnil
    have hholder : t.get? (loc ++ p.1.dropLast) = some .dir := by
      rw [← List.dropLast_append_getLast hne, ← List.append_assoc] at hget
      exact hwf _ _ (Option.ne_none_iff_exists'.2 ⟨_, hget⟩)
    have hin := (hmem (p.1.dropLast, .dir)).2 ⟨hnil, hholder⟩
    -- it is not the entry itself, and does not come later
    have hfirst := List.pairwise_cons.1 (List.pairwise_append.1 hwalk.above_first).2.1
    rcases List.mem_append.1 hin with hfront | hrest
    · exact .inr ⟨hfront, hopen⟩
    · rcases List.mem_cons.1 hrest with heq | hrest
      · have hlength := congrArg (fun q => q.1.length) heq
        simp only [List.length_dropLast] at hlength
        have hpos := List.length_pos_iff.2 hne
        omega
      · exact absurd rfl (hfirst.1 _ hrest)

theorem root_ne_empty (hroot : t.find? root = some (loc, .dir)) : root ≠ "" := by
  rw [find?_eq_some_iff] at hroot
  exact (resolve_eq_ok_iff.1 hroot).1.ne_empty

/-- What is removed at the path of an examined link is the link. -/
theorem Examined.removed_eq (ht : t.Proper) (hroot : t.find? root = some (loc, .dir))
    (hu : Thins t u) (hx : Examined t root loc names)
    (h : u.removeFile (pathBelow root names) = .ok after) : after = u.erase (loc ++ names) := by
  obtain ⟨target, hlink⟩ := hx.link
  have hopened := hx.opened
  obtain ⟨front, last, rfl⟩ := (List.eq_nil_or_concat names).resolve_left hx.below
  rw [List.concat_eq_append] at *
  rw [List.dropLast_concat] at hopened
  have hne : t.get? (loc ++ (front ++ [last])) ≠ none := by simp [hlink]
  have hdir : t.get? (loc ++ front) = some .dir := ht.wellFormed _ last (by rwa [List.append_assoc])
  have hfind := find?_below ht hroot hdir hopened
  rw [← hu.find?_eq] at hfind
  rw [← List.append_assoc]
  refine removeFile_below (ht.isComponent hne (by simp)) hfind ?_ h
  rw [List.append_assoc]
  intro hdir'
  rcases hu (loc ++ (front ++ [last])) with heq | ⟨hnone, -⟩
  · rw [heq, hlink] at hdir'
    cases hdir'
  · rw [hnone] at hdir'
    cases hdir'

/-- Every examined link that leads somewhere is present at its path below the root. -/
def ReachesLive (t : FileTree) (root : String) (loc : Location) : Prop :=
  ∀ names, Examined t root loc names → Resolves t (loc ++ names) →
    t.isPresent (pathBelow root names) = true

/-- A walk removes the dangling links that it examines. The induction is on the entries that are left,
and the directories opened so far are those of the entries that have been gone through. -/
theorem pruned_of_prune (ht : t.Proper) (hroot : t.find? root = some (loc, .dir))
    (hreach : ReachesLive t root loc) (hwalk : IsWalk t root (front ++ rest))
    (hopened : IsOpened t root front opened) (hu : Pruned t root loc front u)
    (h : prune root u opened rest = (after, .ok ())) : Pruned t root loc (front ++ rest) after := by
  induction rest generalizing front u opened with
  | nil =>
    cases h
    rwa [List.append_nil]
  | cons p rest ih =>
    obtain ⟨names, e⟩ := p
    have hholder := hopened.mem_iff ht.wellFormed hroot hwalk
    obtain ⟨hnames, hget⟩ := (hwalk.mem_iff ht.wellFormed hroot).1
      (List.mem_append_right front List.mem_cons_self)
    simp only at hholder hnames hget
    have hne : t.get? (loc ++ names) ≠ none := by simp [hget]
    rw [List.append_cons] at hwalk ⊢
    rw [prune.eq_def] at h
    simp only at h
    split at h
    next hclosed =>
      rw [hholder] at hclosed
      refine ih hwalk (hopened.pass fun _ => ?_) (hu.pass fun hx => absurd hx.opened hclosed) h
      by_contra hopen
      rw [Bool.not_eq_false] at hopen
      exact hclosed (isDir_dropLast ht (root_ne_empty hroot) hnames hne hopen)
    next hopen =>
      rw [not_not, hholder] at hopen
      have hpass : (∀ target, e ≠ .link target) → Pruned t root loc (front ++ [(names, e)]) u := by
        intro hnolink
        refine hu.pass fun hx => ?_
        obtain ⟨target, hlink⟩ := hx.link
        rw [hget] at hlink
        exact absurd (Option.some.inj hlink) (hnolink target)
      cases e with
      | file b x => exact ih hwalk (hopened.pass (by simp)) (hpass (by simp)) h
      | special k => exact ih hwalk (hopened.pass (by simp)) (hpass (by simp)) h
      | dir =>
        simp only [hu.thins.isDir_eq] at h
        split at h
        next hdir => exact ih hwalk (hopened.enter hdir) (hpass (by simp)) h
        next hdir =>
          exact ih hwalk (hopened.pass fun _ => by simpa using hdir) (hpass (by simp)) h
      | link target =>
        have hexamined : Examined t root loc names := ⟨hnames, ⟨target, hget⟩, hopen⟩
        simp only [hu.thins.isPresent_eq] at h
        split at h
        next hpresent =>
          have hlive := resolves_of_isPresent ht hroot hnames hne hpresent
          exact ih hwalk (hopened.pass (by simp)) (hu.pass fun _ => hlive) h
        next habsent =>
          have hdead : ¬ Resolves t (loc ++ names) := fun hlive =>
            habsent (hreach names hexamined hlive)
          split at h
          next removed hremoved =>
            obtain rfl := hexamined.removed_eq ht hroot hu.thins hremoved
            exact ih hwalk (hopened.pass (by simp)) (hu.remove ht.wellFormed hexamined hdead) h
          · cases h

/-- A root that is given by its own names reaches all that leads somewhere, if no path is too long. -/
theorem reachesLive_of_names (ht : t.Proper)
    (hpaths : ∀ names, t.get? (Path.names root ++ names) ≠ none →
      IsResolvable (pathBelow root names)) : ReachesLive t root (Path.names root) := by
  intro names hx ⟨m, e, hwalk⟩
  obtain ⟨target, hlink⟩ := hx.link
  have hne : t.get? (Path.names root ++ names) ≠ none := by simp [hlink]
  have hpath := hpaths names hne
  have hc : ∀ name ∈ names, IsComponent name := fun name hname => ht.isComponent hne hname
  obtain ⟨front, last, rfl⟩ := (List.eq_nil_or_concat names).resolve_left hx.below
  rw [List.concat_eq_append] at *
  have hsteps : steps (pathBelow root (front ++ [last])) = Path.names root ++ (front ++ [last]) := by
    rw [pathBelow_concat, steps_join _ (hc last (by simp)),
      names_pathBelow fun name hname => hc name (by simp [hname]), List.append_assoc]
  rw [isPresent, find?_eq_some_iff.2 (resolve_eq_ok_iff.2 ⟨hpath, hsteps ▸ hwalk⟩)]
  rfl

theorem clear_eq (hroot : t.find? root = some (loc, .dir)) (order : List (Location × Entry)) :
    clear t root order = prune root t [[]] order := by
  have hdir : t.isDir root = true := by rw [isDir, hroot]
  rw [clear, if_pos hdir]

/-- A walk that finds every link it examines present removes nothing. -/
theorem prune_of_live (h : ∀ p ∈ order, ∀ target, p.2 = .link target →
      t.isDir (pathBelow root p.1.dropLast) = true → t.isPresent (pathBelow root p.1) = true)
    (hopened : ∀ d ∈ opened, t.isDir (pathBelow root d) = true) :
    prune root t opened order = (t, .ok ()) := by
  induction order generalizing opened with
  | nil => rfl
  | cons p rest ih =>
    obtain ⟨names, e⟩ := p
    have hrest := fun p hp => h p (List.mem_cons_of_mem _ hp)
    rw [prune.eq_def]
    simp only
    split
    · exact ih hrest hopened
    next hholder =>
      rw [not_not] at hholder
      cases e with
      | file b x => exact ih hrest hopened
      | special k => exact ih hrest hopened
      | dir =>
        refine ih hrest fun d hd => ?_
        split at hd
        next hdir =>
          rcases List.mem_cons.1 hd with rfl | hd
          · exact hdir
          · exact hopened d hd
        · exact hopened d hd
      | link target =>
        rw [if_pos (h _ List.mem_cons_self target rfl (hopened _ hholder))]
        exact ih hrest hopened

/-! ### What is left -/

/-- Of the links below a directory, those that a walk examines and that lead nowhere are gone, and
nothing else has changed. What a path leads to is the same, no link is left that a walk would remove,
and another walk, in whatever order, removes nothing. -/
structure Cleared (t : FileTree) (root : String) (loc : Location) (after : FileTree) : Prop where
  gone : ∀ names, Examined t root loc names → ¬ Resolves t (loc ++ names) →
    after.get? (loc ++ names) = none
  same : ∀ l, (∀ names, l = loc ++ names → Examined t root loc names → Resolves t l) →
    after.get? l = t.get? l
  paths : ∀ path, after.find? path = t.find? path
  ways : ∀ l m e, t.walk true maxLinks [] l = .ok (.found m e) →
    after.walk true maxLinks [] l = .ok (.found m e)
  live : ∀ names, Examined after root loc names → Resolves after (loc ++ names)
  idle : ∀ order, IsWalk after root order → clear after root order = (after, .ok ())

theorem Pruned.cleared (ht : t.Proper) (hroot : t.find? root = some (loc, .dir))
    (hreach : ReachesLive t root loc) (hwalk : IsWalk t root order)
    (h : Pruned t root loc order after) : Cleared t root loc after := by
  have hmem : ∀ names, Examined t root loc names → ∃ e, (names, e) ∈ order := by
    intro names hx
    obtain ⟨target, hlink⟩ := hx.link
    exact ⟨_, (hwalk.mem_iff ht.wellFormed hroot).2 ⟨hx.below, hlink⟩⟩
  have hgone : ∀ names, Examined t root loc names → ¬ Resolves t (loc ++ names) →
      after.get? (loc ++ names) = none := by
    intro names hx hdead
    obtain ⟨e, he⟩ := hmem names hx
    exact h.gone _ he hx hdead
  -- a link that is still there was examined before, and leads somewhere
  have hstill : ∀ names, Examined after root loc names →
      Examined t root loc names ∧ Resolves t (loc ++ names) := by
    intro names hx
    obtain ⟨target, hlink⟩ := hx.link
    have hx' : Examined t root loc names := by
      refine ⟨hx.below, ⟨target, ?_⟩, by rw [← h.thins.isDir_eq, hx.opened]⟩
      rcases h.thins (loc ++ names) with heq | ⟨hnone, -⟩
      · rw [← heq, hlink]
      · rw [hnone] at hlink
        cases hlink
    refine ⟨hx', ?_⟩
    by_contra hdead
    rw [hgone names hx' hdead] at hlink
    cases hlink
  have hways : ∀ l m e, t.walk true maxLinks [] l = .ok (.found m e) →
      after.walk true maxLinks [] l = .ok (.found m e) :=
    fun l m e hl => h.thins.walk_eq trivial (Nat.le_refl _) hl
  have hroot' : after.find? root = some (loc, .dir) := by rw [h.thins.find?_eq, hroot]
  refine ⟨hgone, fun l hl => h.same l fun p _ => hl p.1, h.thins.find?_eq, hways, fun names hx => ?_,
    fun order' hwalk' => ?_⟩
  · obtain ⟨m, e, hresolves⟩ := (hstill names hx).2
    exact ⟨m, e, hways _ m e hresolves⟩
  · rw [clear_eq hroot']
    refine prune_of_live (fun p hp target htarget hopen => ?_) fun d hd => ?_
    · obtain ⟨hne, hget⟩ := get?_of_mem_entriesBelow hroot' (hwalk'.perm.mem_iff.1 hp)
      obtain ⟨hx, hlive⟩ := hstill p.1 ⟨hne, ⟨target, htarget ▸ hget⟩, hopen⟩
      rw [h.thins.isPresent_eq]
      exact hreach p.1 hx hlive
    · rw [List.mem_singleton.1 hd, pathBelow_nil, isDir, hroot']

/-- A path that leads to no directory is refused. Clearing a directory, in whatever order a walk goes
through it, removes the links that lead nowhere, as far as the walk can open the directories that hold
them, and does nothing else; provided that each link it examines is present at its path below the root
if it leads somewhere at all. -/
theorem clear_removes_dangling (ht : t.Proper) (root : String) :
    (t.isDir root = false → ∀ order, clear t root order = (t, .error (.missing root))) ∧
    IsWalk t root (t.entriesBelow root) ∧
    ∀ loc order after, t.find? root = some (loc, .dir) → IsWalk t root order →
      ReachesLive t root loc → clear t root order = (after, .ok ()) → Cleared t root loc after := by
  refine ⟨fun hnodir order => ?_, isWalk_entriesBelow ht root,
    fun loc order after hroot hwalk hreach h => ?_⟩
  · rw [clear, if_neg (by simp [hnodir])]
  · rw [clear_eq hroot] at h
    have hwalk' : IsWalk t root ([] ++ order) := hwalk
    have hpruned := pruned_of_prune ht hroot hreach hwalk' (.start t root) (.start t root loc) h
    exact hpruned.cleared ht hroot hreach hwalk

/-- A directory with a file, a link to the file, and a link that leads nowhere. -/
def littered : FileTree :=
  ⟨[(["b"], .dir), (["b", "f"], .file .empty false), (["b", "live"], .link "f"),
    (["b", "gone"], .link "nowhere")]⟩

/-- The directory without the link that leads nowhere. -/
def tidy : FileTree :=
  ⟨[(["b"], .dir), (["b", "f"], .file .empty false), (["b", "live"], .link "f")]⟩

theorem proper_littered : littered.Proper :=
  proper_of_entries (by decide) (by decide) (by decide)

theorem resolve_gone :
    littered.resolve false "/b/gone" = .ok (.found ["b", "gone"] (.link "nowhere")) := by
  have hsteps : steps "/b/gone" = ["b", "gone"] := by decide
  rw [resolve_of_isResolvable ⟨by decide, by decide, by decide⟩, hsteps]
  simp +decide [walk, littered, get?, List.lookup_cons]

theorem isPresent_gone : littered.isPresent "/b/gone" = false := by
  have hsteps : steps "/b/gone" = ["b", "gone"] := by decide
  have htarget : steps "nowhere" = ["nowhere"] := by decide
  rw [isPresent, find?, resolve_of_isResolvable ⟨by decide, by decide, by decide⟩, hsteps]
  simp +decide [walk, littered, get?, List.lookup_cons, maxLinks, htarget]

theorem isPresent_live : tidy.isPresent "/b/live" = true := by
  have hsteps : steps "/b/live" = ["b", "live"] := by decide
  have htarget : steps "f" = ["f"] := by decide
  rw [isPresent, find?, resolve_of_isResolvable ⟨by decide, by decide, by decide⟩, hsteps]
  simp +decide [walk, tidy, get?, List.lookup_cons, maxLinks, htarget]

theorem names_littered : Path.names "/b" = ["b"] := by decide

theorem stands_littered : littered.Stands [] (Path.names "/b") := by decide

theorem find?_littered : littered.find? "/b" = some (["b"], .dir) :=
  find?_of_stands (by decide) stands_littered

theorem clear_littered :
    clear littered "/b" (littered.entriesBelow "/b") = (tidy, .ok ()) := by
  have horder : littered.entriesBelow "/b" =
      [(["gone"], .link "nowhere"), (["live"], .link "f"), (["f"], .file .empty false)] := by
    rw [entriesBelow, find?_littered]
    rfl
  have hgone : pathBelow "/b" ["gone"] = "/b/gone" := by decide
  have hlive : pathBelow "/b" ["live"] = "/b/live" := by decide
  have herase : littered.erase ["b", "gone"] = tidy := rfl
  have hremove := removeFile_of_resolve resolve_gone (by simp)
  rw [clear_eq find?_littered, horder]
  simp [prune.eq_def, hgone, hlive, isPresent_gone, isPresent_live, hremove, herase]

theorem reachesLive_littered : ReachesLive littered "/b" ["b"] := by
  rw [← names_littered]
  refine reachesLive_of_names proper_littered fun names hne => ?_
  rw [names_littered] at hne
  obtain ⟨e, he⟩ := (get?_isSome_iff littered (by simp)).1 (Option.isSome_iff_ne_none.2 hne)
  have hall : ∀ p ∈ littered.entries, IsResolvable (pathBelow "/b" (p.1.drop 1)) := by decide
  exact hall _ he

/-- The link that leads to the file stays, and the other one is gone. -/
theorem clear_removes_dangling_littered :
    littered.Proper ∧ littered.find? "/b" = some (["b"], .dir) ∧
      IsWalk littered "/b" (littered.entriesBelow "/b") ∧ ReachesLive littered "/b" ["b"] ∧
      clear littered "/b" (littered.entriesBelow "/b") = (tidy, .ok ()) ∧
      Cleared littered "/b" ["b"] tidy := by
  obtain ⟨-, hwalk, hcleared⟩ := clear_removes_dangling proper_littered "/b"
  exact ⟨proper_littered, find?_littered, hwalk, reachesLive_littered, clear_littered,
    hcleared _ _ _ find?_littered hwalk reachesLive_littered clear_littered⟩

/-! ### A directory that cannot be opened at its path -/

/-- A path to a directory, with slashes before its name. -/
def farRoot (n : Nat) : String := String.ofList (List.replicate n '/') ++ "r"

/-- A link that leads nowhere, in a directory of some name. -/
def buried (name : String) : FileTree :=
  ⟨[(["r"], .dir), (["r", name], .dir), (["r", name, "l"], .link "nowhere")]⟩

theorem names_farRoot (n : Nat) : Path.names (farRoot n) = ["r"] :=
  (names_slashed n "r").trans (by decide)

theorem utf8ByteSize_farRoot (n : Nat) : (farRoot n).utf8ByteSize = n + 1 :=
  utf8ByteSize_slashed n "r"

theorem find?_farRoot {n : Nat} (hn : n < maxPath) (name : String) :
    (buried name).find? (farRoot n) = some (["r"], .dir) := by
  have hpath : IsResolvable (farRoot n) := by
    refine ⟨by simp [farRoot, List.mem_replicate], by simp [farRoot], ?_⟩
    rw [utf8ByteSize_farRoot]
    exact hn
  have hc : IsComponent "r" := by decide
  exact (leadsTo_of_names (names_farRoot n) hc (by decide) rfl).find?_eq hpath

theorem namesIn_buried (name : String) :
    (buried name).namesIn ["r"] = [name] ∧ (buried name).namesIn ["r", name] = ["l"] := by
  constructor <;> simp [namesIn, below, buried, isWithin]

theorem get?_buried (name : String) : (buried name).get? ["r", name] = some .dir ∧
    (buried name).get? ["r", name, "l"] = some (.link "nowhere") := by
  constructor <;> simp [buried, get?, List.lookup_cons]

theorem isDangling_buried {name : String} (hc : IsComponent name)
    (hshort : name.utf8ByteSize ≤ maxName) : IsDangling (buried name) ["r", name, "l"] := by
  refine ⟨⟨"nowhere", (get?_buried _).2⟩, fun ⟨m, e, hwalk⟩ => ?_⟩
  have htarget : steps "nowhere" = ["nowhere"] := by decide
  simp +decide [walk, buried, get?, List.lookup_cons, hc.ne_dot, hc.ne_dots, Nat.not_lt.2 hshort,
    maxLinks, htarget] at hwalk

theorem isDir_buried {n : Nat} {name : String} (hc : IsComponent name)
    (hlong : maxPath < n + 2 + name.utf8ByteSize) :
    (buried name).isDir (pathBelow (farRoot n) [name]) = false := by
  have hends : ¬ (farRoot n = "" ∨ ['/'].isSuffixOf (farRoot n).toList = true) := by
    simp [farRoot, List.isSuffixOf, List.isPrefixOf]
  have hpath : pathBelow (farRoot n) [name] = farRoot n ++ "/" ++ name := by
    rw [← List.nil_append [name], pathBelow_concat, join, isAbsolute_of_isComponent hc,
      if_neg Bool.false_ne_true, pathBelow_nil, if_neg hends]
  have hsize : maxPath < (farRoot n ++ "/" ++ name).utf8ByteSize := by
    have hslash : "/".utf8ByteSize = 1 := by decide
    rw [String.utf8ByteSize_append, String.utf8ByteSize_append, utf8ByteSize_farRoot, hslash]
    omega
  rw [hpath]
  by_contra hdir
  rw [Bool.not_eq_false, isDir] at hdir
  split at hdir
  next hfind =>
    have hshort := (resolve_eq_ok_iff.1 (find?_eq_some_iff.1 hfind)).1.short
    omega
  · cases hdir

/-- A directory whose path is too long is passed over. -/
theorem repair_buried {n : Nat} {name : String} (hn : n < maxPath) (hc : IsComponent name)
    (hlong : maxPath < n + 2 + name.utf8ByteSize) :
    repair (buried name) (farRoot n) = (buried name, .ok ()) := by
  have horder : (buried name).entriesBelow (farRoot n) =
      [([name], .dir), ([name, "l"], .link "nowhere")] := by
    have hlength : (buried name).entries.length = 3 := rfl
    rw [entriesBelow, find?_farRoot hn, hlength]
    simp [walkBelow, namesIn_buried, get?_buried]
  rw [repair, clear_eq (find?_farRoot hn name), horder]
  simp [prune.eq_def, isDir_buried hc hlong]

/-- The name of a directory, with which a path that is nearly too long is too long. -/
def longName : String := String.ofList (List.replicate 200 'd')

/-- The link that leads nowhere stays, although the repair succeeds. -/
theorem buried_link_stays : (buried longName).Proper ∧
    (buried longName).find? (farRoot 3950) = some (["r"], .dir) ∧
    repair (buried longName) (farRoot 3950) = (buried longName, .ok ()) ∧
    IsDangling (buried longName) ["r", longName, "l"] := by
  have hc : IsComponent longName := isComponent_replicate (by decide) (by decide) (by decide)
  have hsize : longName.utf8ByteSize = 200 := utf8ByteSize_replicate _ (by decide)
  have hproper : (buried longName).Proper := by
    refine proper_of_entries ?_ ?_ ?_
    · simp [buried, get?, List.lookup_cons]
    · simp only [buried, List.mem_cons, forall_eq_or_imp, List.not_mem_nil, false_imp_iff,
        implies_true, and_true, hc, true_and]
      decide
    · simp [buried]
  have hlong : maxPath < 3950 + 2 + longName.utf8ByteSize := by
    rw [hsize]
    decide
  have hshort : longName.utf8ByteSize ≤ maxName := by
    rw [hsize]
    decide
  exact ⟨hproper, find?_farRoot (by decide) _, repair_buried (by decide) hc hlong,
    isDangling_buried hc hshort⟩

end BitcodeReplay.DanglingLinks
