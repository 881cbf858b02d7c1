import BitcodeReplay.Json.Record
import Mathlib.Data.List.ReduceOption

/-!
What a record of a value depends on. A member of an unknown name has no part in it, and what is found
in a known one counts only as far as the record accepts it. So two values that differ in one place
decode alike if the parts in that place are accepted alike.
-/

namespace BitcodeReplay.Json

variable {ε ρ σ τ ν : Type} {R : σ → σ → Prop} {S : τ → τ → Prop} {x y : Except ε σ}

/-! ### Outcomes -/

/-- Both decoders fail alike, or both succeed with related results. -/
inductive SameOutcome (R : σ → σ → Prop) : Except ε σ → Except ε σ → Prop
  | ok {a b : σ} (h : R a b) : SameOutcome R (.ok a) (.ok b)
  | error (e : ε) : SameOutcome R (.error e) (.error e)

theorem SameOutcome.refl (hR : ∀ a, R a a) (x : Except ε σ) : SameOutcome R x x := by
  cases x with
  | ok a => exact .ok (hR a)
  | error e => exact .error e

theorem SameOutcome.of_eq (hR : ∀ a, R a a) (h : x = y) : SameOutcome R x y := h ▸ .refl hR x

theorem SameOutcome.eq {x y : Except ε σ} (h : SameOutcome (· = ·) x y) : x = y := by
  cases h with
  | ok h => rw [h]
  | error e => rfl

theorem SameOutcome.bind {f g : σ → Except ε τ} (h : SameOutcome R x y)
    (hnext : ∀ a b, R a b → SameOutcome S (f a) (g b)) : SameOutcome S (x >>= f) (y >>= g) := by
  cases h with
  | ok h => exact hnext _ _ h
  | error e => exact .error e

/-! ### Members and items -/

section

variable {fields : List Field} {accept : σ → String → Json → Except (DecodeError ρ) σ}
  {state state' : σ} {name : String} {value value' : Json}

/-- A record accepts the same part alike from related states. -/
def Respects (R : σ → σ → Prop) (accept : σ → String → Json → Except (DecodeError ρ) σ) : Prop :=
  ∀ name value state state', R state state' →
    SameOutcome R (accept state name value) (accept state' name value)

/-- A record accepts two parts alike under a name. -/
def AcceptsAlike (R : σ → σ → Prop) (accept : σ → String → Json → Except (DecodeError ρ) σ)
    (name : String) (value value' : Json) : Prop :=
  ∀ state state', R state state' →
    SameOutcome R (accept state name value) (accept state' name value')

theorem respects_eq (accept : σ → String → Json → Except (DecodeError ρ) σ) :
    Respects (· = ·) accept := by
  rintro name value state _ rfl
  exact .refl (fun _ => rfl) _

theorem Respects.acceptsAlike (hsame : Respects R accept)
    (h : ∀ state, accept state name value = accept state name value') :
    AcceptsAlike R accept name value value' :=
  fun state state' hR => h state' ▸ hsame name value state state' hR

theorem acceptsAlike_of_eq (h : ∀ state, accept state name value = accept state name value') :
    AcceptsAlike (· = ·) accept name value value' :=
  (respects_eq accept).acceptsAlike h

/-- What comes after some members is all that can tell two objects apart that begin with them. -/
theorem visitMembers_front {back back' : List (String × Json)} (hsame : Respects R accept)
    (hback : ∀ seen state state', R state state' →
      SameOutcome R (visitMembers fields accept seen state back)
        (visitMembers fields accept seen state' back'))
    (front : List (String × Json)) (seen : List String) (hR : R state state') :
    SameOutcome R (visitMembers fields accept seen state (front ++ back))
      (visitMembers fields accept seen state' (front ++ back')) := by
  induction front generalizing seen state state' with
  | nil => exact hback seen state state' hR
  | cons member front ih =>
    obtain ⟨name, value⟩ := member
    rw [List.cons_append, List.cons_append, visitMembers, visitMembers]
    split
    · split
      · exact .error _
      · exact (hsame name value state state' hR).bind fun _ _ h => ih _ h
    · split
      · exact ih seen hR
      · exact .error _

theorem visitMembers_related (hsame : Respects R accept) (members : List (String × Json))
    (seen : List String) (hR : R state state') :
    SameOutcome R (visitMembers fields accept seen state members)
      (visitMembers fields accept seen state' members) := by
  have hnil : ∀ seen state state', R state state' →
      SameOutcome R (visitMembers fields accept seen state [])
        (visitMembers fields accept seen state' []) := by
    intro seen state state' h
    rw [visitMembers, visitMembers]
    exact .ok h
  simpa using visitMembers_front hsame hnil members seen hR

/-- Objects decode alike if a member has been changed and is still accepted alike. -/
theorem visitMembers_changed (hsame : Respects R accept)
    (hchange : fields.any (·.name == name) = true → AcceptsAlike R accept name value value')
    (front back : List (String × Json)) (seen : List String) (hR : R state state') :
    SameOutcome R (visitMembers fields accept seen state (front ++ (name, value) :: back))
      (visitMembers fields accept seen state' (front ++ (name, value') :: back)) := by
  refine visitMembers_front hsame (fun seen state state' h => ?_) front seen hR
  rw [visitMembers, visitMembers]
  split
  next hname =>
    split
    · exact .error _
    · exact (hchange hname state state' h).bind fun _ _ h => visitMembers_related hsame back _ h
  next => exact visitMembers_related hsame back seen h

/-- Objects decode alike if a member of an unknown name has been removed. -/
theorem visitMembers_dropped (hsame : Respects R accept)
    (hname : fields.any (·.name == name) = false) (front back : List (String × Json))
    (seen : List String) (hR : R state state') :
    SameOutcome R (visitMembers fields accept seen state (front ++ (name, value) :: back))
      (visitMembers fields accept seen state' (front ++ back)) := by
  refine visitMembers_front hsame (fun seen state state' h => ?_) front seen hR
  rw [visitMembers, hname]
  exact visitMembers_related hsame back seen h

theorem visitItems_related (hsame : Respects R accept) (items : List Json) (fields : List Field)
    (hR : R state state') : SameOutcome R (visitItems accept true fields state items)
      (visitItems accept true fields state' items) := by
  induction items generalizing fields state state' with
  | nil =>
    rw [visitItems, visitItems]
    split
    · exact .error _
    · split
      · exact .ok hR
      · exact .error _
  | cons item items ih =>
    cases fields with
    | nil => exact .error _
    | cons field fields =>
      rw [visitItems, visitItems]
      exact (hsame field.name item state state' hR).bind fun _ _ h => ih fields h

/-- Arrays decode alike if an item has been changed and is still accepted alike as the field of its
position. -/
theorem visitItems_changed (hsame : Respects R accept) (front back : List Json)
    (fields : List Field)
    (hchange : ∀ field, fields[front.length]? = some field →
      AcceptsAlike R accept field.name value value') (hR : R state state') :
    SameOutcome R (visitItems accept true fields state (front ++ value :: back))
      (visitItems accept true fields state' (front ++ value' :: back)) := by
  induction front generalizing fields state state' with
  | nil =>
    cases fields with
    | nil => exact .error _
    | cons field fields =>
      rw [List.nil_append, List.nil_append, visitItems, visitItems]
      exact (hchange field rfl state state' hR).bind fun _ _ h =>
        visitItems_related hsame back fields h
  | cons item front ih =>
    cases fields with
    | nil => exact .error _
    | cons field fields =>
      rw [List.cons_append, List.cons_append, visitItems, visitItems]
      exact (hsame field.name item state state' hR).bind fun _ _ h =>
        ih fields (fun other hother => hchange other hother) h

theorem record_object (fields : List Field)
    (accept : σ → String → Json → Except (DecodeError ρ) σ) (init : σ)
    (members : List (String × Json)) :
    record fields accept init (.object members) = visitMembers fields accept [] init members := by
  simp only [record, Node.view]
  cases visitMembers fields accept [] init members with
  | ok state => rfl
  | error e => rfl

theorem record_array (fields : List Field)
    (accept : σ → String → Json → Except (DecodeError ρ) σ) (init : σ) (items : List Json) :
    record fields accept init (.array items) = visitItems accept true fields init items := rfl

end

/-! ### Values that do not decode -/

/-- A value that holds others. -/
def IsContainer (value : Json) : Prop :=
  (∃ items, value = .array items) ∨ ∃ members, value = .object members

variable {value value' : Json}

/-- No container is a text. -/
theorem IsContainer.text_eq (h : value.IsContainer) :
    text value = (.error .invalidType : Except (DecodeError ρ) String) := by
  obtain ⟨items, rfl⟩ | ⟨members, rfl⟩ := h
  · rfl
  · rfl

theorem IsContainer.nullable_eq (h : value.IsContainer)
    (decode : Json → Except (DecodeError ρ) τ) :
    nullable decode value = (decode value).map some := by
  obtain ⟨items, rfl⟩ | ⟨members, rfl⟩ := h
  · rfl
  · rfl

/-! ### Lists -/

theorem mapM_changed {f : Json → Except ε τ} (h : f value = f value') (front back : List Json) :
    (front ++ value :: back).mapM f = (front ++ value' :: back).mapM f := by
  simp only [List.mapM_append, List.mapM_cons, h]

/-- Where parts that decode to nothing are left out, one of them may as well be missing. -/
theorem reduceOption_mapM_dropped {f : Json → Except ε (Option τ)} (h : f value = .ok none)
    (front back : List Json) :
    ((front ++ value :: back).mapM f).map List.reduceOption =
      ((front ++ back).mapM f).map List.reduceOption := by
  rw [List.mapM_append, List.mapM_append, List.mapM_cons, h]
  cases front.mapM f with
  | error e => rfl
  | ok before =>
    cases back.mapM f with
    | error e => rfl
    | ok behind =>
      exact congrArg Except.ok (by simp [List.reduceOption_append, List.reduceOption_cons_of_none])

end BitcodeReplay.Json
