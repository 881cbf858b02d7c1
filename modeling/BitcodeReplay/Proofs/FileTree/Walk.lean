import BitcodeReplay.FileTree.Resolve
import BitcodeReplay.Proofs.FileTree.Lookup

/-!
Following paths in parts, and in trees that have changed. A path leads through directories and links
only; where these stay, it leads to the same place, and where some are gone, it leads there or
nowhere.
-/

namespace BitcodeReplay

/-- What a path can lead through. -/
def Entry.IsWay : Entry → Prop
  | .dir => True
  | .link _ => True
  | .file _ _ => False
  | .special _ => False

namespace FileTree

/-- What is left to be done after the first name has been followed: the links that may still be
followed, the directory reached, and the names to follow from there. -/
def onward (t : FileTree) (links : Nat) (here : Location) (name : String) (rest : List String) :
    Except FileError (Nat × Location × List String) :=
  if name = "." then .ok (links, here, rest)
  else if name = ".." then .ok (links, here.dropLast, rest)
  else if maxName < name.utf8ByteSize then .error .nameTooLong
  else
    match t.get? (here ++ [name]) with
    | none => .error .notFound
    | some .dir => .ok (links, here ++ [name], rest)
    | some (.file _ _) => .error .notADirectory
    | some (.special _) => .error .notADirectory
    | some (.link target) =>
      match links with
      | 0 => .error .tooManyLinks
      | links + 1 =>
        if target = "" then .error .notFound
        else .ok (links, if Path.isAbsolute target then [] else here, steps target ++ rest)

/-- Where the last name ends the way, unless it is followed further. -/
def ending? (t : FileTree) (follow : Bool) (here : Location) (name : String)
    (rest : List String) : Option Place :=
  if rest ≠ [] ∨ name = "." ∨ name = ".." ∨ maxName < name.utf8ByteSize then none
  else
    match t.get? (here ++ [name]) with
    | none => some (.free (here ++ [name]))
    | some .dir => none
    | some (.link target) => if follow then none else some (.found (here ++ [name]) (.link target))
    | some e => some (.found (here ++ [name]) e)

variable {t t' : FileTree} {follow : Bool} {links : Nat} {here : Location} {name : String}
  {rest names last : List String}

@[simp] theorem walk_nil (t : FileTree) (follow : Bool) (links : Nat) (here : Location) :
    t.walk follow links here [] = .ok (.found here .dir) := by rw [walk]

theorem walk_cons (t : FileTree) (follow : Bool) (links : Nat) (here : Location) (name : String)
    (rest : List String) : t.walk follow links here (name :: rest) =
      match t.ending? follow here name rest with
      | some place => .ok place
      | none => (t.onward links here name rest).bind fun s => t.walk follow s.1 s.2.1 s.2.2 := by
  rw [walk, ending?, onward]
  by_cases hdot : name = "."
  · simp [hdot, Except.bind]
  by_cases hup : name = ".."
  · simp [hup, Except.bind]
  by_cases hlong : maxName < name.utf8ByteSize
  · simp [hdot, hup, hlong, Except.bind]
  by_cases hrest : rest = []
  · subst hrest
    simp only [hdot, hup, hlong, if_false, or_false, ne_eq, not_true_eq_false, true_and]
    cases hget : t.get? (here ++ [name]) with
    | none => simp
    | some e =>
      cases e with
      | file b x => simp
      | dir => simp [Except.bind]
      | special k => simp
      | link target =>
        cases follow
        · simp
        · cases links with
          | zero => simp [Except.bind]
          | succ links => by_cases ht : target = "" <;> simp [ht, Except.bind]
  · simp only [hdot, hup, hlong, hrest, if_false, false_and, ne_eq, not_false_eq_true, true_or,
      if_true]
    cases hget : t.get? (here ++ [name]) with
    | none => simp [Except.bind]
    | some e =>
      cases e with
      | file b x => simp [Except.bind]
      | dir => simp [Except.bind]
      | special k => simp [Except.bind]
      | link target =>
        cases links with
        | zero => simp [Except.bind]
        | succ links => by_cases ht : target = "" <;> simp [ht, Except.bind]

theorem bind_eq_ok_iff {ε α β : Type} {x : Except ε α} {f : α → Except ε β} {b : β} :
    x.bind f = .ok b ↔ ∃ a, x = .ok a ∧ f a = .ok b := by
  cases x <;> simp [Except.bind]

/-- Names lead to where the first of them ends the way, or the others lead from there. -/
theorem walk_cons_eq_ok_iff {p : Place} : t.walk follow links here (name :: rest) = .ok p ↔
    t.ending? follow here name rest = some p ∨
      t.ending? follow here name rest = none ∧
        ∃ s, t.onward links here name rest = .ok s ∧ t.walk follow s.1 s.2.1 s.2.2 = .ok p := by
  rw [walk_cons]
  cases t.ending? follow here name rest with
  | some place => simp
  | none => simp [bind_eq_ok_iff]

/-- What a name that is followed can be, and what is left to be done after it. -/
inductive Onward (t : FileTree) (here : Location) (name : String) (rest : List String) :
    Nat → Nat × Location × List String → Prop
  | dot {links : Nat} : name = "." → Onward t here name rest links (links, here, rest)
  | up {links : Nat} : name = ".." → Onward t here name rest links (links, here.dropLast, rest)
  | dir {links : Nat} : name ≠ "." → name ≠ ".." → name.utf8ByteSize ≤ maxName →
      t.get? (here ++ [name]) = some .dir →
      Onward t here name rest links (links, here ++ [name], rest)
  | link {left : Nat} {target : String} : name ≠ "." → name ≠ ".." →
      name.utf8ByteSize ≤ maxName → t.get? (here ++ [name]) = some (.link target) → target ≠ "" →
      Onward t here name rest (left + 1)
        (left, if Path.isAbsolute target then [] else here, steps target ++ rest)

/-- A name is followed in one of these ways, or not at all. -/
theorem onward_eq_ok_iff {s : Nat × Location × List String} :
    t.onward links here name rest = .ok s ↔ t.Onward here name rest links s := by
  constructor
  · intro h
    rw [onward] at h
    split at h
    next hdot =>
      cases h
      exact .dot hdot
    next hdot =>
    split at h
    next hup =>
      cases h
      exact .up hup
    next hup =>
    split at h
    · cases h
    next hlong =>
    split at h
    · cases h
    next hget =>
      cases h
      exact .dir hdot hup (Nat.not_lt.1 hlong) hget
    · cases h
    · cases h
    next target hget =>
      cases links with
      | zero => cases h
      | succ left =>
        simp only at h
        split at h
        · cases h
        next htarget =>
          cases h
          exact .link hdot hup (Nat.not_lt.1 hlong) hget htarget
  · intro h
    cases h with
    | dot hdot => rw [onward, if_pos hdot]
    | up hup => rw [onward, if_neg (by simp [hup]), if_pos hup]
    | dir hdot hup hshort hget =>
      rw [onward, if_neg hdot, if_neg hup, if_neg (Nat.not_lt.2 hshort), hget]
    | link hdot hup hshort hget htarget =>
      rw [onward, if_neg hdot, if_neg hup, if_neg (Nat.not_lt.2 hshort), hget]
      simp only [if_neg htarget]

/-- Each name that is followed leaves fewer links, or as many links and fewer names. -/
theorem onward_decreases {s : Nat × Location × List String}
    (h : t.onward links here name rest = .ok s) :
    s.1 < links ∨ (s.1 = links ∧ s.2.2 = rest) := by
  cases onward_eq_ok_iff.1 h with
  | dot => exact .inr ⟨rfl, rfl⟩
  | up => exact .inr ⟨rfl, rfl⟩
  | dir => exact .inr ⟨rfl, rfl⟩
  | link => exact .inl (Nat.lt_succ_self _)

/-- The names to follow then are those that were left, or come from a link. -/
theorem mem_of_onward {s : Nat × Location × List String} (h : t.onward links here name rest = .ok s)
    {other : String} (hother : other ∈ s.2.2) : other ∈ rest ∨ ∃ target, other ∈ steps target := by
  cases onward_eq_ok_iff.1 h with
  | dot => exact .inl hother
  | up => exact .inl hother
  | dir => exact .inl hother
  | @link left target => exact (List.mem_append.1 hother).symm.imp_right fun hlink => ⟨target, hlink⟩

/-- Induction along the names that are followed. -/
theorem walk_induction (t : FileTree) {P : Nat → Location → List String → Prop}
    (nil : ∀ links here, P links here [])
    (cons : ∀ links here name rest,
      (∀ s, t.onward links here name rest = .ok s → P s.1 s.2.1 s.2.2) →
        P links here (name :: rest))
    (links : Nat) (here : Location) (names : List String) : P links here names := by
  induction links using Nat.strongRecOn generalizing here names with
  | ind links ihl =>
    induction names generalizing here with
    | nil => exact nil links here
    | cons name rest ihn =>
      refine cons links here name rest fun s hs => ?_
      rcases onward_decreases hs with hlt | ⟨hlinks, hrest⟩
      · exact ihl s.1 hlt s.2.1 s.2.2
      · rw [hlinks, hrest]
        exact ihn s.2.1

/-! ### Following names in parts -/

/-- The directory to which names lead, with the number of links that are left. -/
def passage (t : FileTree) (links : Nat) (here : Location) :
    List String → Except FileError (Nat × Location)
  | [] => .ok (links, here)
  | name :: rest =>
    match _h : t.onward links here name rest with
    | .ok s => passage t s.1 s.2.1 s.2.2
    | .error e => .error e
termination_by names => (links, names.length)
decreasing_by
  rcases onward_decreases _h with hlt | ⟨hlinks, hrest⟩
  · exact Prod.Lex.left _ _ hlt
  · rw [hlinks, hrest]
    exact Prod.Lex.right _ (Nat.lt_succ_self _)

@[simp] theorem passage_nil (t : FileTree) (links : Nat) (here : Location) :
    t.passage links here [] = .ok (links, here) := by rw [passage]

theorem passage_cons (t : FileTree) (links : Nat) (here : Location) (name : String)
    (rest : List String) : t.passage links here (name :: rest) =
      (t.onward links here name rest).bind fun s => t.passage s.1 s.2.1 s.2.2 := by
  rw [passage]
  split <;> next h => simp [h, Except.bind]

theorem passage_cons_eq_ok_iff {r : Nat × Location} :
    t.passage links here (name :: rest) = .ok r ↔
      ∃ s, t.onward links here name rest = .ok s ∧ t.passage s.1 s.2.1 s.2.2 = .ok r := by
  rw [passage_cons, bind_eq_ok_iff]

theorem onward_append (t : FileTree) (links : Nat) (here : Location) (name : String)
    (rest last : List String) : t.onward links here name (rest ++ last) =
      (t.onward links here name rest).map fun s => (s.1, s.2.1, s.2.2 ++ last) := by
  simp only [onward]
  split
  · rfl
  split
  · rfl
  split
  · rfl
  split
  · rfl
  · rfl
  · rfl
  · rfl
  · cases links with
    | zero => rfl
    | succ links =>
      simp only
      split
      · rfl
      · simp [Except.map]

/-- The names before the last ones lead to a directory, from which the last ones are followed. -/
theorem walk_append (t : FileTree) (follow : Bool) (hlast : last ≠ []) (links : Nat)
    (here : Location) (names : List String) : t.walk follow links here (names ++ last) =
      (t.passage links here names).bind fun p => t.walk follow p.1 p.2 last := by
  induction links, here, names using t.walk_induction with
  | nil links here => simp [Except.bind]
  | cons links here name rest ih =>
    have hending : t.ending? follow here name (rest ++ last) = none := by simp [ending?, hlast]
    rw [List.cons_append, walk_cons, hending, passage_cons, onward_append]
    cases hs : t.onward links here name rest with
    | error e => rfl
    | ok s => exact ih s hs

theorem passage_append (t : FileTree) (links : Nat) (here : Location) (names last : List String) :
    t.passage links here (names ++ last) =
      (t.passage links here names).bind fun p => t.passage p.1 p.2 last := by
  induction links, here, names using t.walk_induction with
  | nil links here => simp [Except.bind]
  | cons links here name rest ih =>
    rw [List.cons_append, passage_cons, passage_cons, onward_append]
    cases hs : t.onward links here name rest with
    | error e => rfl
    | ok s => exact ih s hs

theorem walk_append_eq_ok_iff (hlast : last ≠ []) {p : Place} :
    t.walk follow links here (names ++ last) = .ok p ↔
      ∃ r, t.passage links here names = .ok r ∧ t.walk follow r.1 r.2 last = .ok p := by
  rw [walk_append t follow hlast, bind_eq_ok_iff]

theorem passage_append_eq_ok_iff {r : Nat × Location} :
    t.passage links here (names ++ last) = .ok r ↔
      ∃ r', t.passage links here names = .ok r' ∧ t.passage r'.1 r'.2 last = .ok r := by
  rw [passage_append, bind_eq_ok_iff]

theorem passage_of_onward {s : Nat × Location × List String}
    (h : t.onward links here name rest = .ok s) :
    t.passage links here (name :: rest) = t.passage s.1 s.2.1 s.2.2 := by
  rw [passage_cons, h]
  rfl

theorem walk_of_onward {s : Nat × Location × List String}
    (h : t.onward links here name rest = .ok s)
    (hending : t.ending? follow here name rest = none) :
    t.walk follow links here (name :: rest) = t.walk follow s.1 s.2.1 s.2.2 := by
  rw [walk_cons, hending, h]
  rfl

theorem ending?_eq_some {p : Place} (h : t.ending? follow here name rest = some p) :
    rest = [] ∧ name ≠ "." ∧ name ≠ ".." ∧ name.utf8ByteSize ≤ maxName ∧
      ((t.get? (here ++ [name]) = none ∧ p = .free (here ++ [name])) ∨
        ∃ e, t.get? (here ++ [name]) = some e ∧ e ≠ .dir ∧ p = .found (here ++ [name]) e ∧
          (e.IsWay → follow = false)) := by
  rw [ending?] at h
  split at h
  · cases h
  next hcond =>
    simp only [not_or, not_not, ne_eq] at hcond
    obtain ⟨hrest, hdot, hup, hlong⟩ := hcond
    refine ⟨hrest, hdot, hup, by omega, ?_⟩
    split at h
    · next hget => exact .inl ⟨hget, (Option.some.inj h).symm⟩
    · cases h
    · next target hget =>
      cases follow
      · exact .inr ⟨_, hget, by simp, (Option.some.inj h).symm, fun _ => rfl⟩
      · cases h
    · next e hdir hlink hget =>
      refine .inr ⟨e, hget, fun he => hdir he, (Option.some.inj h).symm, fun hway => ?_⟩
      cases e with
      | file b x => exact hway.elim
      | special k => exact hway.elim
      | dir => exact absurd rfl hdir
      | link target => exact absurd rfl (hlink target)

/-- A name that is followed is that of a way. -/
theorem ending?_of_onward {s : Nat × Location × List String}
    (h : t.onward links here name rest = .ok s) : t.ending? true here name rest = none := by
  rw [ending?]
  split
  · rfl
  next hcond =>
    simp only [not_or, ne_eq] at hcond
    cases onward_eq_ok_iff.1 h with
    | dot hdot => exact absurd hdot hcond.2.1
    | up hup => exact absurd hup hcond.2.2.1
    | dir _ _ _ hget => rw [hget]
    | link _ _ _ hget => simp [hget]

/-- All names lead to a directory when they lead anywhere along the way. -/
theorem walk_eq_dir_iff {loc : Location} : t.walk true links here names = .ok (.found loc .dir) ↔
    ∃ left, t.passage links here names = .ok (left, loc) := by
  induction links, here, names using t.walk_induction with
  | nil links here => simp
  | cons links here name rest ih =>
    cases hs : t.onward links here name rest with
    | ok s => rw [walk_of_onward hs (ending?_of_onward hs), passage_of_onward hs, ih s hs]
    | error e =>
      rw [walk_cons, passage_cons, hs]
      cases hp : t.ending? true here name rest with
      | none => simp [Except.bind]
      | some p =>
        obtain ⟨-, -, -, -, ⟨-, rfl⟩ | ⟨e', -, hdir, rfl, -⟩⟩ := ending?_eq_some hp
        · simp [Except.bind]
        · simp [Except.bind, hdir]

/-- What is found stands there. -/
theorem get?_of_walk {loc : Location} {e : Entry}
    (h : t.walk follow links here names = .ok (.found loc e)) (hdir : e ≠ .dir) :
    t.get? loc = some e := by
  induction links, here, names using t.walk_induction with
  | nil links here =>
    rw [walk_nil] at h
    cases h
    exact absurd rfl hdir
  | cons links here name rest ih =>
    rcases walk_cons_eq_ok_iff.1 h with hp | ⟨-, s, hs, h⟩
    · obtain ⟨-, -, -, -, ⟨-, hfree⟩ | ⟨e', hget, -, heq, -⟩⟩ := ending?_eq_some hp
      · cases hfree
      · cases heq
        exact hget
    · exact ih s hs h

/-- Nothing stands where names lead to a free place. -/
theorem get?_of_walk_free {loc : Location} (h : t.walk follow links here names = .ok (.free loc)) :
    loc ≠ [] ∧ t.get? loc = none := by
  induction links, here, names using t.walk_induction with
  | nil links here =>
    rw [walk_nil] at h
    cases h
  | cons links here name rest ih =>
    rcases walk_cons_eq_ok_iff.1 h with hp | ⟨-, s, hs, h⟩
    · obtain ⟨-, -, -, -, ⟨hget, hfree⟩ | ⟨e, -, -, heq, -⟩⟩ := ending?_eq_some hp
      · cases hfree
        exact ⟨by simp, hget⟩
      · cases heq
    · exact ih s hs h

/-- A way that goes on without following a link goes on if links are followed. -/
theorem ending?_true (hp : t.ending? false here name rest = none) :
    t.ending? true here name rest = none := by
  rw [ending?] at hp ⊢
  split
  · rfl
  next hcond =>
    rw [if_neg hcond] at hp
    cases hget : t.get? (here ++ [name]) with
    | none => simp [hget] at hp
    | some e => cases e <;> simp_all

/-- Whether the last name is followed matters only if a link stands there. -/
theorem walk_true_of_false {loc : Location} {e : Entry} (hlink : ∀ target, e ≠ .link target)
    (h : t.walk false links here names = .ok (.found loc e)) :
    t.walk true links here names = .ok (.found loc e) := by
  induction links, here, names using t.walk_induction with
  | nil links here => simpa using h
  | cons links here name rest ih =>
    rcases walk_cons_eq_ok_iff.1 h with hp | ⟨hp, s, hs, h⟩
    · obtain ⟨rfl, hdot, hup, hlong, ⟨-, hfree⟩ | ⟨e', hget, hdir, heq, -⟩⟩ := ending?_eq_some hp
      · cases hfree
      · cases heq
        have hending : t.ending? true here name [] = some (.found (here ++ [name]) e) := by
          rw [ending?, if_neg (by simp [hdot, hup, hlong]), hget]
          cases e with
          | dir => exact absurd rfl hdir
          | link target => exact absurd rfl (hlink target)
          | file b x => rfl
          | special k => rfl
        rw [walk_cons, hending]
    · rw [walk_of_onward hs (ending?_true hp)]
      exact ih s hs h

theorem walk_false_of_true {loc : Location} {e : Entry} (hdir : e ≠ .dir)
    (h : t.walk true links here names = .ok (.found loc e)) :
    t.walk false links here names = .ok (.found loc e) ∨
      ∃ l target, t.walk false links here names = .ok (.found l (.link target)) := by
  induction links, here, names using t.walk_induction with
  | nil links here =>
    rw [walk_nil] at h
    cases h
    exact absurd rfl hdir
  | cons links here name rest ih =>
    cases hp : t.ending? false here name rest with
    | none =>
      rcases walk_cons_eq_ok_iff.1 h with hend | ⟨-, s, hs, h⟩
      · rw [ending?_true hp] at hend
        cases hend
      · rw [walk_of_onward hs hp]
        exact ih s hs h
    | some p =>
      rw [walk_cons, hp]
      obtain ⟨rfl, hdot, hup, hlong, hplace⟩ := ending?_eq_some hp
      have hcond : ¬ (([] : List String) ≠ [] ∨ name = "." ∨ name = ".." ∨
          maxName < name.utf8ByteSize) := by simp [hdot, hup, hlong]
      rw [walk_cons, ending?, if_neg hcond] at h
      rcases hplace with ⟨hget, rfl⟩ | ⟨e', hget, hne, rfl, -⟩
      · rw [hget] at h
        cases h
      · rw [hget] at h
        cases e' with
        | dir => exact absurd rfl hne
        | link target => exact .inr ⟨_, target, rfl⟩
        | file b x => exact .inl h
        | special k => exact .inl h

/-! ### Parts of a way, and more links -/

/-- With more links to follow, names lead on as before. -/
theorem onward_add {s : Nat × Location × List String} (d : Nat)
    (h : t.onward links here name rest = .ok s) :
    t.onward (links + d) here name rest = .ok (s.1 + d, s.2) := by
  rw [onward_eq_ok_iff] at h ⊢
  cases h with
  | dot hdot => exact .dot hdot
  | up hup => exact .up hup
  | dir hdot hup hshort hget => exact .dir hdot hup hshort hget
  | link hdot hup hshort hget htarget =>
    rw [Nat.add_right_comm]
    exact .link hdot hup hshort hget htarget

theorem walk_add {p : Place} (d : Nat) (h : t.walk follow links here names = .ok p) :
    t.walk follow (links + d) here names = .ok p := by
  induction links, here, names using t.walk_induction with
  | nil links here => simpa using h
  | cons links here name rest ih =>
    rw [walk_cons_eq_ok_iff] at h ⊢
    exact h.imp_right fun ⟨hp, s, hs, h⟩ => ⟨hp, _, onward_add d hs, ih s hs h⟩

theorem walk_of_le {p : Place} {more : Nat} (hle : links ≤ more)
    (h : t.walk follow links here names = .ok p) : t.walk follow more here names = .ok p := by
  obtain ⟨d, rfl⟩ := Nat.exists_eq_add_of_le hle
  exact walk_add d h

/-- Names that lead somewhere do so with the first of them alone. -/
theorem found_of_append {loc : Location} {e : Entry}
    (h : t.walk true links here (names ++ last) = .ok (.found loc e)) :
    ∃ l e', t.walk true links here names = .ok (.found l e') := by
  by_cases hlast : last = []
  · subst hlast
    rw [List.append_nil] at h
    exact ⟨loc, e, h⟩
  · obtain ⟨r, hpass, -⟩ := (walk_append_eq_ok_iff hlast).1 h
    exact ⟨r.2, .dir, walk_eq_dir_iff.2 ⟨r.1, hpass⟩⟩

/-- What following one name keeps is kept by following all of them. -/
theorem passage_invariant {P : Nat → Location → Prop} {left : Nat} {loc : Location}
    (hstep : ∀ links here name rest s, t.onward links here name rest = .ok s → P links here →
      P s.1 s.2.1)
    (h : t.passage links here names = .ok (left, loc)) (hhere : P links here) : P left loc := by
  induction links, here, names using t.walk_induction with
  | nil links here =>
    rw [passage_nil] at h
    cases h
    exact hhere
  | cons links here name rest ih =>
    obtain ⟨s, hs, h⟩ := passage_cons_eq_ok_iff.1 h
    exact ih s hs h (hstep _ _ _ _ s hs hhere)

theorem passage_le {left : Nat} {loc : Location} (h : t.passage links here names = .ok (left, loc)) :
    left ≤ links := by
  refine passage_invariant (P := fun now _ => now ≤ links) (fun now here name rest s hs hle => ?_) h
    (Nat.le_refl links)
  rcases onward_decreases hs with hlt | ⟨heq, -⟩
  · omega
  · omega

/-! ### Trees that have changed -/

/-- Every way of the first tree is one of the second. -/
def KeepsWays (t t' : FileTree) : Prop :=
  ∀ loc e, t.get? loc = some e → e.IsWay → t'.get? loc = some e

theorem KeepsWays.refl (t : FileTree) : KeepsWays t t := fun _ _ h _ => h

theorem KeepsWays.trans {t'' : FileTree} (h : KeepsWays t t') (h' : KeepsWays t' t'') :
    KeepsWays t t'' := fun loc e he hway => h' loc e (h loc e he hway) hway

/-- Every way of the first tree stays as it is or is gone. -/
def LosesWays (t t' : FileTree) : Prop :=
  ∀ loc e e', t.get? loc = some e → e.IsWay → t'.get? loc = some e' → e'.IsWay → e' = e

theorem onward_of_get? (hget : t'.get? (here ++ [name]) = t.get? (here ++ [name])) :
    t'.onward links here name rest = t.onward links here name rest := by
  simp only [onward, hget]

theorem ending?_of_get? (hget : t'.get? (here ++ [name]) = t.get? (here ++ [name])) :
    t'.ending? follow here name rest = t.ending? follow here name rest := by
  simp only [ending?, hget]

/-- A name that is followed, and is none of the dots, is that of a way. -/
theorem way_of_onward (hdot : name ≠ ".") (hup : name ≠ "..") {s : Nat × Location × List String}
    (h : t.onward links here name rest = .ok s) :
    ∃ e, t.get? (here ++ [name]) = some e ∧ e.IsWay := by
  cases onward_eq_ok_iff.1 h with
  | dot hname => exact absurd hname hdot
  | up hname => exact absurd hname hup
  | dir _ _ _ hget => exact ⟨_, hget, trivial⟩
  | link _ _ _ hget => exact ⟨_, hget, trivial⟩

theorem onward_dots (hdots : name = "." ∨ name = "..") :
    t'.onward links here name rest = t.onward links here name rest := by
  rcases hdots with rfl | rfl <;> simp [onward]

/-- Names are followed as before where the first one leads on as before. -/
theorem walk_cons_congr (hget : name ≠ "." → name ≠ ".." →
      t'.get? (here ++ [name]) = t.get? (here ++ [name]))
    (hrest : ∀ s, t.onward links here name rest = .ok s →
      t'.walk follow s.1 s.2.1 s.2.2 = t.walk follow s.1 s.2.1 s.2.2) :
    t'.walk follow links here (name :: rest) = t.walk follow links here (name :: rest) := by
  have hsame : t'.ending? follow here name rest = t.ending? follow here name rest ∧
      t'.onward links here name rest = t.onward links here name rest := by
    by_cases hdots : name = "." ∨ name = ".."
    · refine ⟨?_, onward_dots hdots⟩
      rcases hdots with rfl | rfl <;> simp [ending?]
    · obtain ⟨hdot, hup⟩ := not_or.1 hdots
      exact ⟨ending?_of_get? (hget hdot hup), onward_of_get? (hget hdot hup)⟩
  rw [walk_cons, walk_cons, hsame.1, hsame.2]
  cases t.ending? follow here name rest with
  | some p => rfl
  | none =>
    cases hs : t.onward links here name rest with
    | error e => rfl
    | ok s => exact hrest s hs

/-- A name is followed as before if it was that of a way that is still there. -/
theorem onward_of_keepsWays (hways : KeepsWays t t') {s : Nat × Location × List String}
    (h : t.onward links here name rest = .ok s) : t'.onward links here name rest = .ok s := by
  by_cases hdots : name = "." ∨ name = ".."
  · rwa [onward_dots (t := t) hdots]
  · obtain ⟨hdot, hup⟩ := not_or.1 hdots
    obtain ⟨e, he, hway⟩ := way_of_onward hdot hup h
    rwa [onward_of_get? (t := t) (by rw [he, hways _ e he hway])]

theorem onward_of_losesWays (hways : LosesWays t t') {s s' : Nat × Location × List String}
    (h : t.onward links here name rest = .ok s) (h' : t'.onward links here name rest = .ok s') :
    s' = s := by
  have hsame : t'.onward links here name rest = t.onward links here name rest := by
    by_cases hdots : name = "." ∨ name = ".."
    · exact onward_dots hdots
    · obtain ⟨hdot, hup⟩ := not_or.1 hdots
      obtain ⟨e, he, hway⟩ := way_of_onward hdot hup h
      obtain ⟨e', he', hway'⟩ := way_of_onward hdot hup h'
      exact onward_of_get? (by rw [he, he', hways _ e e' he hway he' hway'])
  rw [hsame, h] at h'
  exact (Except.ok.inj h').symm

theorem passage_of_keepsWays (hways : KeepsWays t t') {p : Nat × Location}
    (h : t.passage links here names = .ok p) : t'.passage links here names = .ok p := by
  induction links, here, names using t.walk_induction with
  | nil links here => simpa using h
  | cons links here name rest ih =>
    obtain ⟨s, hs, h⟩ := passage_cons_eq_ok_iff.1 h
    exact passage_cons_eq_ok_iff.2 ⟨s, onward_of_keepsWays hways hs, ih s hs h⟩

theorem passage_of_losesWays (hways : LosesWays t t') {p p' : Nat × Location}
    (h : t.passage links here names = .ok p) (h' : t'.passage links here names = .ok p') :
    p' = p := by
  induction links, here, names using t.walk_induction with
  | nil links here =>
    rw [passage_nil] at h h'
    cases h
    cases h'
    rfl
  | cons links here name rest ih =>
    obtain ⟨s, hs, h⟩ := passage_cons_eq_ok_iff.1 h
    obtain ⟨s', hs', h'⟩ := passage_cons_eq_ok_iff.1 h'
    obtain rfl := onward_of_losesWays hways hs hs'
    exact ih s' hs h h'

/-- A way that goes on goes on where its ways are still there. -/
theorem ending?_of_keepsWays (hways : KeepsWays t t')
    (hp : t.ending? follow here name rest = none) : t'.ending? follow here name rest = none := by
  rw [ending?] at hp ⊢
  split
  · rfl
  next hcond =>
    rw [if_neg hcond] at hp
    split at hp
    · cases hp
    · next hget => rw [hways _ _ hget trivial]
    · next target hget =>
      rw [hways _ _ hget trivial]
      exact hp
    · cases hp

/-- An entry is found as before, if the way to it and the entry itself are still there. -/
theorem walk_of_keepsWays (hways : KeepsWays t t') {loc : Location} {e : Entry}
    (h : t.walk follow links here names = .ok (.found loc e))
    (he : e ≠ .dir → t'.get? loc = some e) :
    t'.walk follow links here names = .ok (.found loc e) := by
  induction links, here, names using t.walk_induction with
  | nil links here => simpa using h
  | cons links here name rest ih =>
    rcases walk_cons_eq_ok_iff.1 h with hp | ⟨hp, s, hs, h⟩
    · obtain ⟨rfl, hdot, hup, hlong, ⟨-, hfree⟩ | ⟨e', -, hdir, heq, hfollow⟩⟩ := ending?_eq_some hp
      · cases hfree
      · cases heq
        have hget := he hdir
        have hending : t'.ending? follow here name [] = some (.found (here ++ [name]) e) := by
          rw [ending?, if_neg (by simp [hdot, hup, hlong]), hget]
          cases e with
          | dir => exact absurd rfl hdir
          | link target => simp [hfollow trivial]
          | file b x => rfl
          | special k => rfl
        rw [walk_cons, hending]
    · rw [walk_of_onward (onward_of_keepsWays hways hs) (ending?_of_keepsWays hways hp)]
      exact ih s hs h

/-- A file that is put where names lead, in the place of a file or of nothing, is found there. -/
theorem walk_of_placed (hways : KeepsWays t t') {loc : Location} {p : Place}
    {bytes : ByteArray} {executable : Bool} (h : t.walk follow links here names = .ok p)
    (hp : p = .free loc ∨ ∃ known x, p = .found loc (.file known x))
    (hget : t'.get? loc = some (.file bytes executable)) :
    t'.walk follow links here names = .ok (.found loc (.file bytes executable)) := by
  induction links, here, names using t.walk_induction with
  | nil links here =>
    rw [walk_nil] at h
    cases h
    simp at hp
  | cons links here name rest ih =>
    rcases walk_cons_eq_ok_iff.1 h with hending | ⟨hending, s, hs, h⟩
    · obtain ⟨rfl, hdot, hup, hlong, hplace⟩ := ending?_eq_some hending
      have hloc : loc = here ++ [name] := by
        rcases hplace with ⟨-, rfl⟩ | ⟨e, -, -, rfl, -⟩ <;> rcases hp with hp | ⟨b, x, hp⟩ <;> cases hp
        · rfl
        · rfl
      subst hloc
      have hfound : t'.ending? follow here name [] =
          some (.found (here ++ [name]) (.file bytes executable)) := by
        rw [ending?, if_neg (by simp [hdot, hup, hlong]), hget]
      rw [walk_cons, hfound]
    · rw [walk_of_onward (onward_of_keepsWays hways hs) (ending?_of_keepsWays hways hending)]
      exact ih s hs h

end FileTree

end BitcodeReplay
