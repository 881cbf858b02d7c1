import BitcodeReplay.Proofs.FileTree.Edit

/-!
Paths that look at some places only. In trees that agree there they lead to the same, whatever else
has happened to the trees.
-/

namespace BitcodeReplay

/-- Where a place is. -/
def Place.loc : Place → Location
  | .found loc _ => loc
  | .free loc => loc

namespace FileTree

open Path

/-- Two trees have the same at some places. -/
def Agree (V : Location → Prop) (t t' : FileTree) : Prop := ∀ l, V l → t'.get? l = t.get? l

/-- Following names, and links, one looks at some places only. -/
inductive Stays (t : FileTree) (V : Location → Prop) : Nat → Location → List String → Prop
  | nil (links : Nat) (here : Location) : Stays t V links here []
  | cons {links : Nat} {here : Location} {name : String} {rest : List String} :
      (name ≠ "." → name ≠ ".." → V (here ++ [name])) →
      (∀ s, t.onward links here name rest = .ok s → Stays t V s.1 s.2.1 s.2.2) →
      Stays t V links here (name :: rest)

variable {t t' t'' : FileTree} {V V' O : Location → Prop} {links : Nat} {here loc : Location}
  {names last : List String} {follow : Bool} {path base name : String}

theorem Agree.refl (V : Location → Prop) (t : FileTree) : Agree V t t := fun _ _ => rfl

theorem Agree.trans (h : Agree V t t') (h' : Agree V t' t'') : Agree V t t'' :=
  fun l hl => (h' l hl).trans (h l hl)

theorem Stays.mono (h : Stays t V links here names) (hV : ∀ l, V l → V' l) :
    Stays t V' links here names := by
  induction h with
  | nil links here => exact .nil links here
  | cons hname _ ih => exact .cons (fun hdot hup => hV _ (hname hdot hup)) ih

/-- One who looks everywhere stays there. -/
theorem stays_everywhere (t : FileTree) (links : Nat) (here : Location) (names : List String) :
    Stays t (fun _ => True) links here names := by
  induction links, here, names using t.walk_induction with
  | nil links here => exact .nil links here
  | cons links here name rest ih => exact .cons (fun _ _ => trivial) ih

/-- Names lead to the same in trees that agree where one looks. -/
theorem Stays.walk_eq (h : Stays t V links here names) (ha : Agree V t t') (follow : Bool) :
    t'.walk follow links here names = t.walk follow links here names := by
  induction h with
  | nil links here => simp
  | cons hname _ ih => exact walk_cons_congr (fun hdot hup => ha _ (hname hdot hup)) ih

theorem onward_of_agree {rest : List String} (hname : name ≠ "." → name ≠ ".." → V (here ++ [name]))
    (ha : Agree V t t') : t'.onward links here name rest = t.onward links here name rest := by
  by_cases hdots : name = "." ∨ name = ".."
  · exact onward_dots hdots
  · obtain ⟨hdot, hup⟩ := not_or.1 hdots
    exact onward_of_get? (ha _ (hname hdot hup))

theorem Stays.passage_eq (h : Stays t V links here names) (ha : Agree V t t') :
    t'.passage links here names = t.passage links here names := by
  induction h with
  | nil links here => simp
  | @cons links here name rest hname _ ih =>
    rw [passage_cons, passage_cons, onward_of_agree hname ha]
    cases hs : t.onward links here name rest with
    | error e => rfl
    | ok s => exact ih s hs

theorem Stays.of_agree (h : Stays t V links here names) (ha : Agree V t t') :
    Stays t' V links here names := by
  induction h with
  | nil links here => exact .nil links here
  | cons hname _ ih => exact .cons hname fun s hs => ih s (onward_of_agree hname ha ▸ hs)

/-- The last names are followed from where those before them lead. -/
theorem Stays.append (h : Stays t V links here names)
    (hnext : ∀ left loc, t.passage links here names = .ok (left, loc) → Stays t V left loc last) :
    Stays t V links here (names ++ last) := by
  induction h with
  | nil links here => exact hnext links here (passage_nil ..)
  | @cons links here name rest hname hrest ih =>
    rw [List.cons_append]
    refine .cons hname fun s hs => ?_
    rw [onward_append] at hs
    cases hon : t.onward links here name rest with
    | error e =>
      rw [hon] at hs
      cases hs
    | ok r =>
      rw [hon] at hs
      cases hs
      refine ih r hon fun left loc hpass => hnext left loc ?_
      rw [passage_of_onward hon, hpass]

/-- Whether the last name is followed does not matter where no link stands at the end. -/
theorem walk_true_eq_false
    (h : ∀ loc target, t.walk false links here names ≠ .ok (.found loc (.link target))) :
    t.walk true links here names = t.walk false links here names := by
  induction links, here, names using t.walk_induction with
  | nil links here => simp
  | cons links here name rest ih =>
    cases hp : t.ending? false here name rest with
    | none =>
      cases hs : t.onward links here name rest with
      | error e =>
        rw [walk_cons, walk_cons, ending?_true hp, hp, hs]
        rfl
      | ok s =>
        rw [walk_of_onward hs hp] at h
        rw [walk_of_onward hs hp, walk_of_onward hs (ending?_true hp)]
        exact ih s hs h
    | some p =>
      rw [walk_cons, hp] at h
      obtain ⟨rfl, hdot, hup, hlong, hplace⟩ := ending?_eq_some hp
      have hcond : ¬ (([] : List String) ≠ [] ∨ name = "." ∨ name = ".." ∨
          maxName < name.utf8ByteSize) := by simp [hdot, hup, hlong]
      rw [walk_cons, walk_cons, hp, ending?, if_neg hcond]
      rcases hplace with ⟨hget, rfl⟩ | ⟨e, hget, hne, rfl, -⟩
      · rw [hget]
      · rw [hget]
        cases e with
        | dir => exact absurd rfl hne
        | link target => exact absurd rfl (h _ target)
        | file b x => rfl
        | special k => rfl

/-- What is renamed goes to where the new path leads, unless it is there already. -/
theorem rename_eq_ok {source target : String} (h : t.rename source target = .ok t') :
    ∃ loc e p, t.resolve false source = .ok (.found loc e) ∧
      (t.walk false maxLinks [] (Path.names target) = .ok p ∨ t.resolve false target = .ok p) ∧
      (p.loc = loc ∧ t' = t ∨ t' = t.relocate loc p.loc) := by
  obtain ⟨loc, e, hsource⟩ := found_of_rename h
  by_cases he : e = .dir
  · subst he
    obtain ⟨-, -, dest, ⟨hwalk, -, rfl⟩ | ⟨hwalk, hmoved⟩⟩ := rename_dir_cases hsource h
    · exact ⟨loc, .dir, _, hsource, .inl hwalk, .inr rfl⟩
    · refine ⟨loc, .dir, _, hsource, .inl hwalk, ?_⟩
      exact hmoved.imp_right fun hempty => hempty.2.2
  · rcases rename_leaf_cases hsource he h with ⟨dest, htarget, rfl⟩ | ⟨dest, e', htarget, -, hmoved⟩
    · exact ⟨loc, e, _, hsource, .inr htarget, .inr rfl⟩
    · refine ⟨loc, e, _, hsource, .inr htarget, ?_⟩
      split at hmoved
      next hsame => exact .inl ⟨hsame, hmoved⟩
      next => exact .inr hmoved

/-! ### Paths -/

@[simp] theorem placeIn_loc : (t.placeIn loc name).loc = loc ++ [name] := by
  rw [placeIn]
  split <;> rfl

/-- A name that is not followed through a link leads to its own place. -/
theorem loc_of_walk (hc : IsComponent name) {left : Nat} {p : Place}
    (h : t.walk false left loc [name] = .ok p) : p.loc = loc ++ [name] := by
  rw [placeIn_of_walk hc h, placeIn_loc]

/-- One looks at some places only when one follows a path. -/
def PathStays (t : FileTree) (V : Location → Prop) (path : String) : Prop :=
  Stays t V maxLinks [] (steps path)

theorem PathStays.resolve_eq (h : PathStays t V path) (ha : Agree V t t') (follow : Bool) :
    t'.resolve follow path = t.resolve follow path := by
  simp only [resolve, h.walk_eq ha]

theorem PathStays.find?_eq (h : PathStays t V path) (ha : Agree V t t') :
    t'.find? path = t.find? path := by
  rw [find?, find?, h.resolve_eq ha]

theorem PathStays.isFile_eq (h : PathStays t V path) (ha : Agree V t t') :
    t'.isFile path = t.isFile path := by
  rw [isFile, isFile, h.find?_eq ha]

theorem PathStays.isPresent_eq (h : PathStays t V path) (ha : Agree V t t') :
    t'.isPresent path = t.isPresent path := by
  rw [isPresent, isPresent, h.find?_eq ha]

/-- A path to a place of one's own. A link that stands there leads to places that one sees. -/
structure IsOwn (t : FileTree) (V O : Location → Prop) (path : String) : Prop where
  stays : PathStays t V path
  own : ∀ p, t.resolve false path = .ok p → O p.loc

/-- A path at which a file is found only at a place of one's own. -/
structure OwnsFile (t : FileTree) (V O : Location → Prop) (path : String) : Prop where
  stays : PathStays t V path
  own : t.isFile path = true → ∀ p, t.resolve false path = .ok p → O p.loc

theorem IsOwn.ownsFile (h : IsOwn t V O path) : OwnsFile t V O path := ⟨h.stays, fun _ => h.own⟩

/-- A path is followed the same way to its end. -/
theorem resolve_true_eq_false
    (h : ∀ loc target, t.resolve false path ≠ .ok (.found loc (.link target))) :
    t.resolve true path = t.resolve false path := by
  simp only [resolve] at h ⊢
  split at h
  · next hnul => rw [if_pos hnul, if_pos hnul]
  · next hnul =>
    rw [if_neg hnul, if_neg hnul]
    split at h
    · next hempty => rw [if_pos hempty, if_pos hempty]
    · next hempty =>
      rw [if_neg hempty, if_neg hempty]
      split at h
      · next hlong => rw [if_pos hlong, if_pos hlong]
      · next hlong =>
        rw [if_neg hlong, if_neg hlong]
        exact walk_true_eq_false h

/-- Where a file is found stands a file or a link. -/
theorem resolve_of_isFile (h : t.isFile path = true) :
    ∃ loc e, t.resolve false path = .ok (.found loc e) ∧ e ≠ .dir := by
  by_cases hlink : ∃ loc target, t.resolve false path = .ok (.found loc (.link target))
  · obtain ⟨loc, target, hfound⟩ := hlink
    exact ⟨loc, _, hfound, by simp⟩
  · obtain ⟨loc, b, x, hfound⟩ := resolve_false_of_isFile h fun loc target hfound =>
      hlink ⟨loc, target, hfound⟩
    exact ⟨loc, _, hfound, by simp⟩

/-! ### Directories of one's own -/

/-- A name that is followed leads to the directory of that name where no link stands. -/
theorem onward_of_no_link (hc : IsComponent name)
    (hlink : ∀ target, t.get? (here ++ [name]) ≠ some (.link target))
    {rest : List String} {s : Nat × Location × List String}
    (h : t.onward links here name rest = .ok s) : s = (links, here ++ [name], rest) := by
  cases onward_eq_ok_iff.1 h with
  | dot hdot => exact absurd hdot hc.ne_dot
  | up hup => exact absurd hup hc.ne_dots
  | dir => rfl
  | @link left target _ _ _ hget => exact absurd hget (hlink target)

/-- Following the links in a directory one looks at some places only. -/
def LinksStay (t : FileTree) (V : Location → Prop) (directory : Location) : Prop :=
  ∀ name target, t.get? (directory ++ [name]) = some (.link target) →
    ∀ links, Stays t V links directory [name]

theorem LinksStay.stays {directory : Location} (h : LinksStay t V directory) (hc : IsComponent name)
    (hV : V (directory ++ [name])) (links : Nat) : Stays t V links directory [name] := by
  by_cases hlink : ∃ target, t.get? (directory ++ [name]) = some (.link target)
  · obtain ⟨target, hget⟩ := hlink
    exact h name target hget links
  · refine .cons (fun _ _ => hV) fun s hs => ?_
    rw [onward_of_no_link hc (fun target hget => hlink ⟨target, hget⟩) hs]
    exact .nil _ _

/-- A path leads to a directory, if anywhere, and one looks at some places only when one follows
it. -/
structure LeadsThrough (t : FileTree) (V : Location → Prop) (path : String) (directory : Location) :
    Prop where
  stays : Stays t V maxLinks [] (Path.names path)
  leads : ∀ left l, t.LeadsTo path left l → l = directory

theorem leadsThrough_root (t : FileTree) (V : Location → Prop) : LeadsThrough t V "/" [] := by
  have hnames : Path.names "/" = [] := by decide
  refine ⟨by rw [hnames]; exact .nil _ _, fun left l hlead => ?_⟩
  rw [LeadsTo, hnames, passage_nil] at hlead
  cases hlead
  rfl

section LeadsThrough

variable {directory : Location} (h : LeadsThrough t V base directory)
include h

theorem LeadsThrough.of_agree (ha : Agree V t t') : LeadsThrough t' V base directory where
  stays := h.stays.of_agree ha
  leads := by
    intro left l hlead
    rw [LeadsTo, h.stays.passage_eq ha] at hlead
    exact h.leads left l hlead

theorem LeadsThrough.mono (hV : ∀ l, V l → V' l) : LeadsThrough t V' base directory :=
  ⟨h.stays.mono hV, h.leads⟩

theorem LeadsThrough.pathStays : PathStays t V base := by
  rw [PathStays, steps]
  refine h.stays.append fun left l _ => ?_
  split
  · -- a dot behind the names leads nowhere else
    refine .cons (fun hdot => absurd rfl hdot) fun s hs => ?_
    rw [onward, if_pos rfl] at hs
    cases hs
    exact .nil _ _
  · exact .nil _ _

/-- So does a path to a name in the directory, if no link stands there. -/
theorem LeadsThrough.join (hc : IsComponent name) (hV : V (directory ++ [name]))
    (hlink : ∀ target, t.get? (directory ++ [name]) ≠ some (.link target)) :
    LeadsThrough t V (join base name) (directory ++ [name]) where
  stays := by
    rw [names_join base hc]
    refine h.stays.append fun left l hlead => ?_
    obtain rfl := h.leads left l hlead
    refine .cons (fun _ _ => hV) fun s hs => ?_
    rw [onward_of_no_link hc hlink hs]
    exact .nil _ _
  leads := by
    intro left l hlead
    rw [LeadsTo, names_join base hc] at hlead
    obtain ⟨s, hpass, hlast⟩ := passage_append_eq_ok_iff.1 hlead
    obtain rfl : s.2 = directory := h.leads s.1 s.2 hpass
    obtain ⟨r, hs, hend⟩ := passage_cons_eq_ok_iff.1 hlast
    obtain rfl := onward_of_no_link hc hlink hs
    rw [passage_nil] at hend
    cases hend
    rfl

theorem LeadsThrough.isOwn (hlinks : LinksStay t V directory) (hc : IsComponent name)
    (hV : V (directory ++ [name])) (hO : O (directory ++ [name])) :
    IsOwn t V O (Path.join base name) where
  stays := by
    rw [PathStays, steps_join base hc]
    refine h.stays.append fun left l hlead => ?_
    obtain rfl := h.leads left l hlead
    exact hlinks.stays hc hV left
  own := by
    intro p hp
    obtain ⟨left, l, hlead, hwalk⟩ := leadsTo_of_resolve_join hc hp
    obtain rfl := h.leads left l hlead
    rw [loc_of_walk hc hwalk]
    exact hO

end LeadsThrough

end FileTree

end BitcodeReplay
