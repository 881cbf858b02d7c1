import Mathlib.Data.List.Basic
import Mathlib.Data.List.Forall2
import Mathlib.Data.List.Induction
import Mathlib.Data.List.Nodup
import Mathlib.Data.List.Perm.Basic
import Mathlib.Data.String.Basic

/-!
Lists taken apart at one of their elements, pairs looked up by their first parts, lists sorted into
groups, and lists sorted by keys.
-/

namespace BitcodeReplay

variable {α β : Type}

/-- An element of two lists that are put together stands in one of them. -/
theorem split_append {xs ys front back : List α} {x : α} (h : xs ++ ys = front ++ x :: back) :
    (∃ mid, xs = front ++ x :: mid ∧ back = mid ++ ys) ∨
      ∃ mid, front = xs ++ mid ∧ ys = mid ++ x :: back := by
  rcases List.append_eq_append_iff.1 h with ⟨mid, hfront, hys⟩ | ⟨mid, hxs, hback⟩
  · exact .inr ⟨mid, hfront, hys⟩
  · cases mid with
    | nil => exact .inr ⟨[], by rw [hxs, List.append_nil, List.append_nil], hback.symm⟩
    | cons y mid =>
      obtain ⟨rfl, hrest⟩ := List.cons_eq_cons.1 hback
      exact .inl ⟨mid, hxs, hrest⟩

theorem split_concat {xs front back : List α} {x z : α} (h : xs ++ [z] = front ++ x :: back) :
    (∃ mid, xs = front ++ x :: mid) ∨ (front = xs ∧ x = z) := by
  rcases split_append h with ⟨mid, hxs, -⟩ | ⟨mid, hfront, hz⟩
  · exact .inl ⟨mid, hxs⟩
  · cases mid with
    | nil => exact .inr ⟨by rw [hfront, List.append_nil], (List.cons_eq_cons.1 hz).1.symm⟩
    | cons y mid => simp at hz

theorem lookup_of_mem [BEq α] [LawfulBEq α] {pairs : List (α × β)} {a : α} {b : β}
    (hkeys : (pairs.map (·.1)).Nodup) (hmem : (a, b) ∈ pairs) : pairs.lookup a = some b := by
  induction pairs with
  | nil => cases hmem
  | cons pair rest ih =>
    obtain ⟨key, value⟩ := pair
    rw [List.map_cons, List.nodup_cons] at hkeys
    rcases List.mem_cons.1 hmem with he | hrest
    · cases he
      simp
    · have hne : a ≠ key := by
        rintro rfl
        exact hkeys.1 (List.mem_map.2 ⟨(a, b), hrest, rfl⟩)
      rw [List.lookup_cons, beq_false_of_ne hne]
      exact ih hkeys.2 hrest

/-- Among elements with different keys, the one of a key is found by it. -/
theorem find?_key_of_mem [BEq β] [LawfulBEq β] {key : α → β} {xs : List α} {x : α}
    (hkeys : (xs.map key).Nodup) (hx : x ∈ xs) : xs.find? (key · == key x) = some x := by
  obtain ⟨y, hy⟩ := Option.isSome_iff_exists.1
    (List.find?_isSome (p := (key · == key x)).2 ⟨x, hx, beq_self_eq_true _⟩)
  have hkey : key y = key x := by simpa using List.find?_some hy
  rw [hy, List.inj_on_of_nodup_map hkeys (List.mem_of_find?_eq_some hy) hx hkey]

theorem eraseDups_concat [DecidableEq α] (xs : List α) (x : α) :
    (xs ++ [x]).eraseDups = if x ∈ xs then xs.eraseDups else xs.eraseDups ++ [x] := by
  rw [List.eraseDups_append]
  by_cases h : x ∈ xs <;> simp [List.removeAll, h, List.eraseDups_cons]

theorem nodup_eraseDups [DecidableEq α] (xs : List α) : xs.eraseDups.Nodup := by
  induction xs using List.reverseRecOn with
  | nil => simp
  | append_singleton xs x ih =>
    rw [eraseDups_concat]
    split
    · exact ih
    · next h =>
      have hne : ∀ y ∈ xs, y ≠ x := fun y hy e => h (e ▸ hy)
      simpa [List.nodup_append, List.mem_eraseDups, ih] using hne

/-- No element has a key that is not among the keys. -/
theorem filter_key_eq_nil [DecidableEq β] {key : α → β} {xs : List α} {k : β}
    (h : k ∉ xs.map key) : xs.filter (key · = k) = [] :=
  List.filter_eq_nil_iff.2 fun x hx he => h (List.mem_map.2 ⟨x, hx, of_decide_eq_true he⟩)

/-- A table of different keys in which the value of one key is changed, or put behind the others if the
key is new. -/
theorem upsert_map [DecidableEq α] (upsert : List (α × β) → List (α × β)) (change : β → β)
    {key : α} {value : β} (hnil : upsert [] = [(key, value)]) (hcons : ∀ k v rest,
      upsert ((k, v) :: rest) = if k = key then (k, change v) :: rest else (k, v) :: upsert rest)
    {keys : List α} (hkeys : keys.Nodup) {f : α → β} (hf : key ∉ keys → change (f key) = value) :
    upsert (keys.map fun k => (k, f k)) =
      (if key ∈ keys then keys else keys ++ [key]).map fun k =>
        (k, if k = key then change (f k) else f k) := by
  induction keys with
  | nil => simp [hnil, hf]
  | cons k rest ih =>
    obtain ⟨hk, hrest⟩ := List.nodup_cons.1 hkeys
    rw [List.map_cons, hcons]
    by_cases h : k = key
    · subst h
      have hother : rest.map (fun k' => (k', f k')) =
          rest.map fun k' => (k', if k' = k then change (f k') else f k') := by
        refine List.map_congr_left fun k' hmem => ?_
        have hne : k' ≠ k := fun he => hk (he ▸ hmem)
        rw [if_neg hne]
      simp [hother]
    · have hrec := ih hrest fun hmem => hf (by simp [hmem, Ne.symm h])
      by_cases hmem : key ∈ rest <;> simp [hrec, h, hmem, Ne.symm h]

/-- Elements that are grouped by keys, each key once, are all there. -/
theorem perm_flatMap_filter [DecidableEq β] (f : α → β) {keys : List β} (hkeys : keys.Nodup)
    {xs : List α} (h : ∀ x ∈ xs, f x ∈ keys) :
    (keys.flatMap fun k => xs.filter (f · = k)).Perm xs := by
  induction keys generalizing xs with
  | nil =>
    rw [List.eq_nil_iff_forall_not_mem.2 fun x hx => List.not_mem_nil (h x hx)]
    rfl
  | cons key keys ih =>
    obtain ⟨hkey, hrest⟩ := List.nodup_cons.1 hkeys
    have hothers : ∀ x ∈ xs.filter (fun x => !decide (f x = key)), f x ∈ keys := by
      intro x hx
      obtain ⟨hmem, hne⟩ := List.mem_filter.1 hx
      exact (List.mem_cons.1 (h x hmem)).resolve_left (by simpa using hne)
    have hsame : (keys.flatMap fun k => xs.filter (f · = k)) =
        keys.flatMap fun k => (xs.filter fun x => !decide (f x = key)).filter (f · = k) := by
      refine List.flatMap_congr fun k hk => ?_
      have hne : k ≠ key := fun he => hkey (he ▸ hk)
      rw [List.filter_filter]
      refine List.filter_congr fun x _ => ?_
      by_cases hx : f x = k <;> simp [hx, hne]
    rw [List.flatMap_cons, hsame]
    exact ((ih hrest hothers).append_left _).trans (List.filter_append_perm _ xs)

theorem exists_of_forall₂_left {R : α → β → Prop} {xs : List α} {ys : List β} {x : α}
    (h : List.Forall₂ R xs ys) (hx : x ∈ xs) : ∃ y ∈ ys, R x y := by
  induction h with
  | nil => cases hx
  | cons hfirst _ ih =>
    rcases List.mem_cons.1 hx with rfl | hx
    · exact ⟨_, List.mem_cons_self, hfirst⟩
    · obtain ⟨y, hy, hrelated⟩ := ih hx
      exact ⟨y, List.mem_cons_of_mem _ hy, hrelated⟩

theorem exists_of_forall₂_right {R : α → β → Prop} {xs : List α} {ys : List β} {y : β}
    (h : List.Forall₂ R xs ys) (hy : y ∈ ys) : ∃ x ∈ xs, R x y :=
  exists_of_forall₂_left (R := flip R) (List.Forall₂.flip (R := flip R) h) hy

/-- What is made of each element in turn is made of the list. -/
theorem mapM_eq_ok {γ ε : Type} {f : α → Except ε γ} {xs : List α} {ys : List γ}
    (h : List.Forall₂ (fun x y => f x = .ok y) xs ys) : xs.mapM f = .ok ys := by
  induction h with
  | nil => rfl
  | cons hfirst _ ih =>
    rw [List.mapM_cons, hfirst, ih]
    rfl

theorem mapM_eq_ok_iff {γ ε : Type} {f : α → Except ε γ} {xs : List α} {ys : List γ} :
    xs.mapM f = .ok ys ↔ List.Forall₂ (fun x y => f x = .ok y) xs ys := by
  refine ⟨fun h => ?_, mapM_eq_ok⟩
  induction xs generalizing ys with
  | nil =>
    cases h
    exact .nil
  | cons x rest ih =>
    rw [List.mapM_cons] at h
    cases hx : f x with
    | error e =>
      rw [hx] at h
      cases h
    | ok y =>
      cases hrest : rest.mapM f with
      | error e =>
        rw [hx, hrest] at h
        cases h
      | ok zs =>
        rw [hx, hrest] at h
        cases h
        exact .cons hx (ih hrest)

/-- The first element of which nothing can be made decides about the failure. -/
theorem mapM_eq_error_iff {γ ε : Type} {f : α → Except ε γ} {xs : List α} {e : ε} :
    xs.mapM f = .error e ↔ ∃ front x back, xs = front ++ x :: back ∧
      (∀ earlier ∈ front, ∃ y, f earlier = .ok y) ∧ f x = .error e := by
  induction xs with
  | nil =>
    constructor
    · intro h
      cases h
    · rintro ⟨front, x, back, hsplit, -⟩
      simp at hsplit
  | cons x rest ih =>
    rw [List.mapM_cons]
    constructor
    · intro h
      cases hx : f x with
      | error e' =>
        rw [hx] at h
        cases h
        exact ⟨[], x, rest, rfl, by simp, hx⟩
      | ok y =>
        cases hrest : rest.mapM f with
        | ok zs =>
          rw [hx, hrest] at h
          cases h
        | error e' =>
          rw [hx, hrest] at h
          cases h
          obtain ⟨front, bad, back, hsplit, hfront, hbad⟩ := ih.1 hrest
          exact ⟨x :: front, bad, back, by rw [hsplit, List.cons_append],
            List.forall_mem_cons.2 ⟨⟨y, hx⟩, hfront⟩, hbad⟩
    · rintro ⟨front, bad, back, hsplit, hfront, hbad⟩
      cases front with
      | nil =>
        obtain ⟨rfl, -⟩ := List.cons_eq_cons.1 hsplit
        rw [hbad]
        rfl
      | cons first front =>
        obtain ⟨rfl, hrest⟩ := List.cons_eq_cons.1 hsplit
        obtain ⟨⟨y, hy⟩, hothers⟩ := List.forall_mem_cons.1 hfront
        rw [hy, ih.2 ⟨front, bad, back, hrest, hothers, hbad⟩]
        rfl

/-! ### Sorted lists -/

section Sorting

variable [LinearOrder β] {le : α → α → Bool} {key : α → β}
  (hle : ∀ a b, le a b = true ↔ key a ≤ key b) {l l' : List α}

include hle

theorem pairwise_mergeSort_key (l : List α) :
    (l.mergeSort le).Pairwise fun a b => key a ≤ key b := by
  refine (List.pairwise_mergeSort ?_ ?_ l).imp fun h => (hle _ _).1 h
  · intro a b c hab hbc
    rw [hle] at hab hbc ⊢
    exact hab.trans hbc
  · intro a b
    rw [Bool.or_eq_true, hle, hle]
    exact le_total _ _

/-- Lists that differ in their order only are the same when they have been sorted. -/
theorem mergeSort_eq_of_perm (hkey : Function.Injective key) (h : l.Perm l') :
    l.mergeSort le = l'.mergeSort le :=
  List.Perm.eq_of_pairwise (fun _ _ _ _ hab hba => hkey (le_antisymm hab hba))
    (pairwise_mergeSort_key hle l) (pairwise_mergeSort_key hle l')
    ((List.mergeSort_perm l le).trans (h.trans (List.mergeSort_perm l' le).symm))

end Sorting

theorem nameLe_iff (a b : String) : decide (a ≤ b) = true ↔ id a ≤ id b := decide_eq_true_iff

end BitcodeReplay
