import BitcodeReplay.DanglingLinks
import BitcodeReplay.Proofs.FileTree.Proper

/-!
Trees from which links that lead nowhere have been removed. Such a link is on no way that leads
anywhere, so what leads somewhere leads there whichever of those links are gone.
-/

namespace BitcodeReplay.DanglingLinks

open FileTree Path

/-- Following a location leads to an entry that is no link. -/
def Resolves (t : FileTree) (l : Location) : Prop :=
  ∃ m e, t.walk true maxLinks [] l = .ok (.found m e)

/-- A link that leads nowhere stands at a location. -/
def IsDangling (t : FileTree) (l : Location) : Prop :=
  (∃ target, t.get? l = some (.link target)) ∧ ¬ Resolves t l

/-- A tree from which links that lead nowhere may have been removed. -/
def Thins (t u : FileTree) : Prop :=
  ∀ l, u.get? l = t.get? l ∨ (u.get? l = none ∧ IsDangling t l)

variable {t u after : FileTree} {root : String} {loc l : Location} {names : Location}

/-! ### Ways that stay -/

theorem Thins.get?_eq (h : Thins t u) (hl : t.get? l = none ∨ Resolves t l) :
    u.get? l = t.get? l := by
  rcases h l with heq | ⟨-, ⟨target, hlink⟩, hnot⟩
  · exact heq
  · rcases hl with hnone | hl
    · rw [hlink] at hnone
      cases hnone
    · exact absurd hl hnot

theorem Thins.keepsWays (h : Thins t u) : KeepsWays u t := by
  intro l e he _
  rcases h l with heq | ⟨hnone, -⟩
  · rwa [← heq]
  · rw [hnone] at he
    cases he

/-- The name that is followed first leads somewhere, if all the names do. -/
theorem resolves_of_walk {here : Location} {links : Nat} {name : String} {rest : List String}
    {m : Location} {e : Entry} (hhere : t.Stands [] here) (hlinks : links ≤ maxLinks)
    (h : t.walk true links here (name :: rest) = .ok (.found m e)) : Resolves t (here ++ [name]) := by
  rw [← List.singleton_append] at h
  obtain ⟨m', e', hname⟩ := found_of_append h
  refine ⟨m', e', ?_⟩
  rw [walk_append _ _ (by simp), hhere.passage_eq]
  exact walk_of_le hlinks hname

/-- What leads somewhere leads there without the links that lead nowhere. -/
theorem Thins.walk_eq (h : Thins t u) {here : Location} {links : Nat} {names : List String}
    {m : Location} {e : Entry} (hhere : t.Stands [] here) (hlinks : links ≤ maxLinks)
    (hwalk : t.walk true links here names = .ok (.found m e)) :
    u.walk true links here names = .ok (.found m e) := by
  induction links, here, names using t.walk_induction with
  | nil links here => simpa using hwalk
  | cons links here name rest ih =>
    have hget : u.get? (here ++ [name]) = t.get? (here ++ [name]) :=
      h.get?_eq (.inr (resolves_of_walk hhere hlinks hwalk))
    rw [walk_cons_congr (fun _ _ => hget) fun s hs => ?_, hwalk]
    have hending := ending?_of_onward hs
    rw [walk_of_onward hs hending] at hwalk
    have hle : s.1 ≤ maxLinks := by
      rcases onward_decreases hs with hlt | ⟨heq, -⟩ <;> omega
    rw [ih s hs (hhere.onward hs) hle hwalk, hwalk]

theorem Thins.find?_eq (h : Thins t u) (path : String) : u.find? path = t.find? path := by
  refine Option.ext fun place => ?_
  obtain ⟨m, e⟩ := place
  rw [find?_eq_some_iff, find?_eq_some_iff, resolve_eq_ok_iff, resolve_eq_ok_iff]
  constructor
  · rintro ⟨hpath, hwalk⟩
    refine ⟨hpath, walk_of_keepsWays h.keepsWays hwalk fun hdir => ?_⟩
    have hget := get?_of_walk hwalk hdir
    rcases h m with heq | ⟨hnone, -⟩
    · rwa [← heq]
    · rw [hnone] at hget
      cases hget
  · rintro ⟨hpath, hwalk⟩
    exact ⟨hpath, h.walk_eq trivial (Nat.le_refl _) hwalk⟩

theorem Thins.isDir_eq (h : Thins t u) (path : String) : u.isDir path = t.isDir path := by
  rw [isDir, isDir, h.find?_eq]

theorem Thins.isPresent_eq (h : Thins t u) (path : String) : u.isPresent path = t.isPresent path := by
  rw [isPresent, isPresent, h.find?_eq]

/-! ### Paths below a directory -/

@[simp] theorem pathBelow_nil (root : String) : pathBelow root [] = root := rfl

theorem pathBelow_concat (root : String) (names : Location) (name : String) :
    pathBelow root (names ++ [name]) = join (pathBelow root names) name := by
  rw [pathBelow, List.foldl_append]
  rfl

theorem names_pathBelow (hc : ∀ name ∈ names, IsComponent name) :
    Path.names (pathBelow root names) = Path.names root ++ names := by
  induction names using List.reverseRecOn with
  | nil => rw [pathBelow_nil, List.append_nil]
  | append_singleton front name ih =>
    rw [pathBelow_concat, names_join _ (hc name (by simp)), ih fun n hn => hc n (by simp [hn]),
      List.append_assoc]

/-- Below a directory, the names of entries lead to where they stand. -/
theorem passage_below (hwf : t.WellFormed) {here : Location} {links : Nat} {s : Nat × Location}
    (hc : ∀ name ∈ names, IsComponent name) (hdir : t.get? (here ++ names) = some .dir)
    (h : t.passage links here names = .ok s) : s = (links, here ++ names) := by
  induction names generalizing here with
  | nil =>
    rw [passage_nil] at h
    rw [List.append_nil]
    exact (Except.ok.inj h).symm
  | cons name rest ih =>
    have hname := hc name List.mem_cons_self
    have hdir' : t.get? (here ++ [name] ++ rest) = some .dir := by simpa using hdir
    have hfirst : t.get? (here ++ [name]) = some .dir := by
      by_cases hrest : rest = []
      · rwa [hrest, List.append_nil] at hdir'
      · exact hwf.get?_above hrest (Option.ne_none_iff_exists'.2 ⟨_, hdir'⟩)
    rw [passage_cons, onward, if_neg hname.ne_dot, if_neg hname.ne_dots, hfirst] at h
    split at h
    · cases h
    · rw [ih (fun n hn => hc n (List.mem_cons_of_mem _ hn)) hdir' h, List.append_assoc]
      rfl

/-- A directory below the root that can be opened at its path is the one that stands there. -/
theorem find?_below (ht : t.Proper) (hroot : t.find? root = some (loc, .dir))
    (hdir : t.get? (loc ++ names) = some .dir) (hopen : t.isDir (pathBelow root names) = true) :
    t.find? (pathBelow root names) = some (loc ++ names, .dir) := by
  have hne : t.get? (loc ++ names) ≠ none := by simp [hdir]
  have hc : ∀ name ∈ names, IsComponent name := fun name hname => ht.isComponent hne hname
  obtain ⟨left, hlead⟩ := leadsTo_of_find? hroot
  rw [isDir] at hopen
  split at hopen
  next m hfind =>
    obtain ⟨left', hlead'⟩ := leadsTo_of_find? hfind
    rw [LeadsTo, names_pathBelow hc, passage_append, hlead] at hlead'
    cases passage_below ht.wellFormed hc hdir hlead'
    exact hfind
  · cases hopen

theorem pathBelow_ne_empty (hroot : root ≠ "") (hc : ∀ name ∈ names, IsComponent name) :
    pathBelow root names ≠ "" := by
  induction names using List.reverseRecOn with
  | nil => exact hroot
  | append_singleton front name _ =>
    rw [pathBelow_concat]
    exact join_ne_empty _ (hc name (by simp)).ne_empty

/-- A directory that can be opened at its path stands in one that can. -/
theorem isDir_dropLast (ht : t.Proper) (hroot : root ≠ "") (hnames : names ≠ [])
    (hget : t.get? (loc ++ names) ≠ none) (hopen : t.isDir (pathBelow root names) = true) :
    t.isDir (pathBelow root names.dropLast) = true := by
  have hc : ∀ name ∈ names, IsComponent name := fun name hname => ht.isComponent hget hname
  obtain ⟨front, last, rfl⟩ := (List.eq_nil_or_concat names).resolve_left hnames
  rw [List.concat_eq_append] at *
  rw [List.dropLast_concat]
  rw [pathBelow_concat] at hopen
  refine isDir_of_isPresent_join (hc last (by simp))
    (pathBelow_ne_empty hroot fun name hname => hc name (by simp [hname])) ?_
  rw [isDir] at hopen
  rw [isPresent]
  split at hopen
  next hfind => rw [hfind]; rfl
  · cases hopen

/-- What is present at a path below the root leads somewhere from where it stands. -/
theorem resolves_of_isPresent (ht : t.Proper) (hroot : t.find? root = some (loc, .dir))
    (hnames : names ≠ []) (hget : t.get? (loc ++ names) ≠ none)
    (hpresent : t.isPresent (pathBelow root names) = true) : Resolves t (loc ++ names) := by
  have hc : ∀ name ∈ names, IsComponent name := fun name hname => ht.isComponent hget hname
  obtain ⟨left, hlead⟩ := leadsTo_of_find? hroot
  obtain ⟨⟨m, e⟩, hfind⟩ := Option.isSome_iff_exists.1 hpresent
  rw [find?_eq_some_iff, resolve_eq_ok_iff] at hfind
  obtain ⟨front, last, rfl⟩ := List.eq_nil_or_concat names |>.resolve_left hnames
  rw [List.concat_eq_append] at *
  have hlast := hc last (by simp)
  have hfront : ∀ name ∈ front, IsComponent name := fun name hname => hc name (by simp [hname])
  rw [pathBelow_concat, steps_join _ hlast, names_pathBelow hfront, List.append_assoc,
    walk_append _ _ (by simp), hlead] at hfind
  have hstart : t.Stands [] [] := trivial
  refine ⟨m, e, ?_⟩
  rw [walk_append _ _ (by simp), (hstart.passage hlead).passage_eq]
  exact walk_of_le (passage_le hlead) hfind.2

/-- What is removed at its path is what stands there. -/
theorem removeFile_below {name : String} (hc : IsComponent name)
    (hfind : t.find? (pathBelow root names) = some (loc, .dir))
    (hdir : t.get? (loc ++ [name]) ≠ some .dir)
    (h : t.removeFile (pathBelow root (names ++ [name])) = .ok after) :
    after = t.erase (loc ++ [name]) := by
  obtain ⟨left, hlead⟩ := leadsTo_of_find? hfind
  rw [pathBelow_concat] at h
  cases hplace : t.resolve false (join (pathBelow root names) name) with
  | error e => simp [removeFile, hplace, bind, Except.bind] at h
  | ok p =>
    rw [hlead.place_eq hc (by simp) hplace] at hplace
    cases hget : t.get? (loc ++ [name]) with
    | none =>
      rw [placeIn_of_none hget] at hplace
      simp [removeFile, hplace, bind, Except.bind] at h
    | some e =>
      rw [placeIn_of_some hget] at hplace
      have he : e ≠ .dir := fun heq => hdir (heq ▸ hget)
      rw [removeFile_of_resolve hplace he] at h
      exact (Except.ok.inj h).symm

end BitcodeReplay.DanglingLinks
