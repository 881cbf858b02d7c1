import BitcodeReplay.Proofs.FileTree.Making

/-!
Paths that go around some places. As long as nothing else changes than files and what is missing, a
directory is found where it was; and if something is moved, it is found at its new place by all who
pass through neither place on their way.
-/

namespace BitcodeReplay.FileTree

open Path

variable {t t' : FileTree} {V : Location → Prop} {links left : Nat} {here base loc : Location}
  {names : List String} {name new path root source target : String}

/-! ### What is kept -/

theorem isDir_of_keepsWays (hways : KeepsWays t t') (h : t.isDir path = true) :
    t'.isDir path = true := by
  obtain ⟨hpath, left, loc, hlead⟩ := isDir_iff.1 h
  exact isDir_iff.2 ⟨hpath, left, loc, hlead.of_keepsWays hways⟩

theorem keepsWays_createDirAll (t : FileTree) (path : String) :
    KeepsWays t (t.createDirAll path).1 :=
  (makes_createDirAll t path).keepsWays

theorem keepsWays_copyFile (h : t.copyFile source target = .ok t') : KeepsWays t t' := by
  rcases copyFile_eq_ok h with ⟨loc, bytes, executable, htakes, rfl⟩ | rfl
  · exact htakes.keepsWays
  · exact KeepsWays.refl _

/-- Names that lead somewhere lead there along the same places when nothing of their way is gone. -/
theorem Stays.of_keepsWays {r : Nat × Location} (h : Stays t V links here names)
    (hways : KeepsWays t t') (hlead : t.passage links here names = .ok r) :
    Stays t' V links here names := by
  induction h with
  | nil links here => exact .nil links here
  | @cons links here name rest hname _ ih =>
    obtain ⟨s, hs, hlead⟩ := passage_cons_eq_ok_iff.1 hlead
    refine .cons hname fun s' hs' => ?_
    rw [onward_of_keepsWays hways hs] at hs'
    cases hs'
    exact ih _ hs hlead

/-! ### Going around some places -/

theorem LeadsTo.loc_of_resolve (h : t.LeadsTo root left base) (hc : IsComponent name) {p : Place}
    (hplace : t.resolve false (join root name) = .ok p) : p.loc = base ++ [name] := by
  rw [h.place_eq hc (by simp) hplace, placeIn_loc]

/-- One looks at the place of a name only, if no link stands there. -/
theorem stays_name (hc : IsComponent name)
    (hlink : ∀ target, t.get? (here ++ [name]) ≠ some (.link target)) (hV : V (here ++ [name])) :
    Stays t V links here [name] := by
  refine .cons (fun _ _ => hV) fun s hs => ?_
  rw [onward_of_no_link hc hlink hs]
  exact .nil _ _

/-- A name of a directory leads to a directory, and one goes on from it at some places only. -/
def LeadsOn (t : FileTree) (V : Location → Prop) (left : Nat) (here : Location) (name : String) :
    Prop :=
  ∃ s, t.onward left here name [] = .ok s ∧ Stays t V s.1 s.2.1 s.2.2 ∧
    ∃ r, t.passage s.1 s.2.1 s.2.2 = .ok r

theorem LeadsOn.isDir (h : t.LeadsOn V left base name) (hlead : t.LeadsTo root left base)
    (hc : IsComponent name) (hpath : IsResolvable (join root name)) :
    t.isDir (join root name) = true := by
  obtain ⟨s, hs, -, r, hr⟩ := h
  refine isDir_iff.2 ⟨hpath, r.1, r.2, ?_⟩
  rw [LeadsTo, names_join root hc, passage_append, hlead, Except.bind, passage_of_onward hs, hr]

theorem LeadsOn.of_keepsWays (h : t.LeadsOn V left base name) (hways : KeepsWays t t') :
    t'.LeadsOn V left base name := by
  obtain ⟨s, hs, hstays, r, hr⟩ := h
  exact ⟨s, onward_of_keepsWays hways hs, hstays.of_keepsWays hways hr, r,
    passage_of_keepsWays hways hr⟩

/-- What leads on under one name leads on under another, which is no longer, when it has been moved
there. -/
theorem LeadsOn.move (h : t.LeadsOn V left base name) (ha : Agree V t t') (hc : IsComponent name)
    (hnew : IsComponent new) (hle : new.utf8ByteSize ≤ name.utf8ByteSize)
    (hget : t'.get? (base ++ [new]) = t.get? (base ++ [name])) : t'.LeadsOn V left base new := by
  obtain ⟨s, hs, hstays, r, hr⟩ := h
  have honward : t'.onward left base new [] = .ok s ∨
      t'.onward left base new [] = .ok (left, base ++ [new], []) := by
    simp only [onward_eq_ok_iff] at hs ⊢
    cases hs with
    | dot hdot => exact absurd hdot hc.ne_dot
    | up hup => exact absurd hup hc.ne_dots
    | dir _ _ hshort hdir =>
      exact .inr (.dir hnew.ne_dot hnew.ne_dots (hle.trans hshort) (hget.trans hdir))
    | link _ _ hshort hlink htarget =>
      exact .inl (.link hnew.ne_dot hnew.ne_dots (hle.trans hshort) (hget.trans hlink) htarget)
  rcases honward with hsame | hdir
  · exact ⟨s, hsame, hstays.of_agree ha, r, (hstays.passage_eq ha).trans hr⟩
  · exact ⟨_, hdir, .nil _ _, _, passage_nil ..⟩

end BitcodeReplay.FileTree
