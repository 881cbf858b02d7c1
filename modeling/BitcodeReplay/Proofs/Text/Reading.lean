import BitcodeReplay.Text.Lines
import BitcodeReplay.Text.Search
import Mathlib.Data.List.Basic
import Mathlib.Data.List.Infix
import Mathlib.Data.List.TakeWhile

/-!
How texts are read that are put together from others: their lines, what the blanks around a line hide,
and where a pattern is found first.
-/

namespace BitcodeReplay.Text

variable {p s m a b r line : List Char} {c : Char}

/-! ### Line ends -/

theorem dropReturn_concat (s : List Char) (c : Char) :
    dropReturn (s ++ [c]) = if c = '\r' then s else s ++ [c] := by
  induction s with
  | nil => by_cases hc : c = '\r' <;> simp [dropReturn, hc]
  | cons d s ih =>
    have hlong : dropReturn (d :: (s ++ [c])) = d :: dropReturn (s ++ [c]) := by
      cases s <;> simp [dropReturn]
    rw [List.cons_append, hlong, ih]
    split <;> rfl

/-- A line as it is read: without a carriage return at its end. -/
def asRead (line : String) : String := String.ofList (dropReturn line.toList)

theorem asRead_eq_self {line : String} (h : line.toList.getLast? ≠ some '\r') :
    asRead line = line := by
  rcases List.eq_nil_or_concat line.toList with hnil | ⟨s, c, hs⟩
  · rw [asRead, hnil, dropReturn, ← hnil, String.ofList_toList]
  · rw [List.concat_eq_append] at hs
    have hc : c ≠ '\r' := by simpa [hs] using h
    rw [asRead, hs, dropReturn_concat, if_neg hc, ← hs, String.ofList_toList]

/-- Only a carriage return can be missing from a line that has been read. -/
theorem asRead_cases (line : String) :
    asRead line = line ∨ line.toList = (asRead line).toList ++ ['\r'] := by
  by_cases h : line.toList.getLast? = some '\r'
  · right
    obtain ⟨s, hs⟩ := List.getLast?_eq_some_iff.1 h
    rw [asRead, hs, dropReturn_concat, if_pos rfl, String.toList_ofList]
  · exact .inl (asRead_eq_self h)

/-! ### Lines put together -/

theorem linesFrom_append_cons (ha : '\n' ∉ a) (line r : List Char) :
    linesFrom line (a ++ '\n' :: r) = dropReturn (line ++ a) :: linesFrom [] r := by
  induction a generalizing line with
  | nil => simp [linesFrom]
  | cons c a ih =>
    obtain ⟨hc, ha⟩ := not_or.1 (List.mem_cons.not.1 ha)
    rw [List.cons_append, linesFrom, if_neg (Ne.symm hc), ih ha]
    simp

/-- Lines that are each ended by a line feed are the lines of their text. -/
theorem lines_join {ls : List String} (h : ∀ l ∈ ls, '\n' ∉ l.toList) :
    lines (String.join (ls.map (· ++ "\n"))) = ls.map asRead := by
  rw [lines, String.toList_join]
  induction ls with
  | nil => rfl
  | cons l ls ih =>
    obtain ⟨hl, hls⟩ := List.forall_mem_cons.1 h
    have hfeed : (l ++ "\n").toList = l.toList ++ ['\n'] := String.toList_append
    rw [List.map_cons, List.flatMap_cons, hfeed, List.append_assoc, List.singleton_append,
      linesFrom_append_cons hl, List.map_cons, ih hls]
    rfl

/-! ### Blanks around a line -/

theorem trimStart_append_of_allBlank (ha : allBlank a = true) (s : List Char) :
    trimStart (a ++ s) = trimStart s :=
  List.dropWhile_append_of_pos (by simpa [allBlank] using ha)

theorem trimStart_append_of_ne_nil (h : trimStart a ≠ []) (s : List Char) :
    trimStart (a ++ s) = trimStart a ++ s := by
  simp only [trimStart, ne_eq] at h ⊢
  rw [List.dropWhile_append]
  simp [h]

theorem trimEnd_concat_of_isBlank (hc : isBlank c = true) (s : List Char) :
    trimEnd (s ++ [c]) = trimEnd s := by
  simp [trimEnd, hc]

theorem trim_concat_of_isBlank (hc : isBlank c = true) (s : List Char) :
    trim (s ++ [c]) = trim s := by
  by_cases h : trimStart s = []
  · have hs : allBlank s = true := by simpa [trimStart, allBlank] using h
    have hc' : trimStart [c] = [] := by simp [trimStart, hc]
    rw [trim, trim, trimStart_append_of_allBlank hs, hc', h]
  · rw [trim, trim, trimStart_append_of_ne_nil h, trimEnd_concat_of_isBlank hc]

/-! ### Occurrences -/

/-- An occurrence that starts with `c` starts behind a text without `c`. -/
theorem infix_of_infix_append_left (hc : c ∉ a) (h : c :: p <:+: a ++ b) : c :: p <:+: b := by
  rcases List.infix_append_iff.1 h with hleft | hright | ⟨front, back, hparts, hfront, hback⟩
  · exact absurd (hleft.subset List.mem_cons_self) hc
  · exact hright
  · cases front with
    | nil => exact hparts ▸ hback.isInfix
    | cons d front =>
      obtain ⟨rfl, -⟩ := List.cons_eq_cons.1 hparts
      exact absurd (hfront.subset List.mem_cons_self) hc

/-- An occurrence that ends with `c` ends before a text without `c`. -/
theorem infix_of_infix_append_right (hc : c ∉ b) (h : p ++ [c] <:+: a ++ b) : p ++ [c] <:+: a := by
  rw [← List.reverse_infix, List.reverse_append, List.reverse_singleton] at h ⊢
  rw [List.reverse_append] at h
  exact infix_of_infix_append_left (by simpa using hc) h

/-- An occurrence without `c` stands on one side of a `c`. -/
theorem infix_append_cons_iff (hc : c ∉ p) : p <:+: a ++ c :: b ↔ p <:+: a ∨ p <:+: b := by
  constructor
  · intro h
    rcases List.infix_append_iff.1 h with hleft | hright | ⟨front, back, rfl, hfront, hback⟩
    · exact .inl hleft
    · rcases List.infix_cons_iff.1 hright with hstart | hrest
      · cases p with
        | nil => exact .inr (List.nil_infix)
        | cons d p =>
          obtain ⟨rfl, -⟩ := List.cons_prefix_cons.1 hstart
          exact absurd List.mem_cons_self hc
      · exact .inr hrest
    · cases back with
      | nil => exact .inl (by simpa using hfront.isInfix)
      | cons d back =>
        obtain ⟨rfl, -⟩ := List.cons_prefix_cons.1 hback
        simp at hc
  · rintro (h | h)
    · exact h.trans (List.prefix_append _ _).isInfix
    · exact h.trans ((List.suffix_cons c b).trans (List.suffix_append a _)).isInfix

/-! ### The first occurrence -/

theorem dropStart?_append (p s : List Char) : dropStart? p (p ++ s) = some s :=
  dropStart?_eq_some_iff.2 rfl

theorem dropStart?_eq_none_iff : dropStart? p s = none ↔ ¬ p <+: s := by
  rw [Option.eq_none_iff_forall_ne_some]
  constructor
  · rintro h ⟨r, rfl⟩
    exact h r (dropStart?_eq_some_iff.2 rfl)
  · rintro h r hr
    exact h ⟨r, (dropStart?_eq_some_iff.1 hr).symm⟩

/-- A pattern whose first character does not come again in it is found at the end of a text in which
it does not occur. -/
theorem cut?_append_self (hc : c ∉ p) (h : ¬ c :: p <:+: a) (b : List Char) :
    cut? (c :: p) (a ++ (c :: p ++ b)) = some (a, b) := by
  induction a with
  | nil => simp [cut?, dropStart?_eq_some_iff.2 (rfl : p ++ b = p ++ b), dropStart?]
  | cons d a ih =>
    have hrest : ¬ c :: p <:+: a := fun hin => h (hin.trans (List.suffix_cons d a).isInfix)
    have hnot : ¬ c :: p <+: d :: a ++ (c :: p ++ b) := by
      rintro ⟨r, hr⟩
      rcases List.append_eq_append_iff.1 hr with ⟨mid, hin, -⟩ | ⟨mid, hover, hmid⟩
      · exact h ⟨[], mid, by simp [hin]⟩
      · cases mid with
        | nil => exact h ⟨[], [], by simp [hover]⟩
        | cons x mid =>
          obtain ⟨rfl, -⟩ := List.cons_eq_cons.1 hmid
          obtain ⟨-, hp⟩ := List.cons_eq_cons.1 hover
          exact hc (by simp [hp])
    rw [List.cons_append, cut?, dropStart?_eq_none_iff.2 (by simpa using hnot), ih hrest]
    rfl

/-- What is found in a text is found in it with more behind it, at the same place. -/
theorem cut?_append_right (h : cut? p s = some (a, b)) (m : List Char) :
    cut? p (s ++ m) = some (a, b ++ m) := by
  induction s generalizing a with
  | nil =>
    rw [cut?] at h
    split at h
    · next hp =>
      cases h
      subst hp
      cases m <;> simp [cut?, dropStart?]
    · cases h
  | cons c r ih =>
    rw [cut?] at h
    rw [List.cons_append, cut?]
    split at h
    · next rest hrest =>
      cases h
      have hmore : c :: (r ++ m) = p ++ (b ++ m) := by
        rw [← List.cons_append, dropStart?_eq_some_iff.1 hrest, List.append_assoc]
      simp only [dropStart?_eq_some_iff.2 hmore]
    · next hnone =>
      obtain ⟨parts, hparts, hab⟩ := Option.map_eq_some_iff.1 h
      cases hab
      have hshort : p.length ≤ (c :: r).length := by
        rw [cut?_eq_append hparts]
        simp only [List.length_cons, List.length_append]
        omega
      have hstill : dropStart? p (c :: (r ++ m)) = none := by
        rw [dropStart?_eq_none_iff] at hnone ⊢
        rwa [← List.cons_append, List.isPrefix_append_of_length hshort]
      rw [hstill, ih hparts]
      rfl

theorem after?_append_right (h : after? p s = some b) (m : List Char) :
    after? p (s ++ m) = some (b ++ m) := by
  obtain ⟨⟨a, b⟩, hcut, rfl⟩ := Option.map_eq_some_iff.1 h
  rw [after?, cut?_append_right hcut]
  rfl

theorem before?_eq_none_of_append (h : before? p (s ++ m) = none) : before? p s = none := by
  cases hcut : cut? p s with
  | none => rw [before?, hcut]; rfl
  | some parts =>
    rw [before?, cut?_append_right hcut] at h
    cases h

/-- A pattern is found behind a text without its first character. -/
theorem after?_append_left (hc : c ∉ a) (s : List Char) :
    after? (c :: p) (a ++ s) = after? (c :: p) s := by
  induction a with
  | nil => rfl
  | cons d a ih =>
    obtain ⟨hd, ha⟩ := not_or.1 (List.mem_cons.not.1 hc)
    have hnone : dropStart? (c :: p) (d :: (a ++ s)) = none := by simp [dropStart?, hd]
    rw [← ih ha, List.cons_append, after?, cut?, hnone, after?, Option.map_map]
    rfl

theorem holds_eq_true_iff : holds p s = true ↔ p <:+: s := by
  rw [holds, Option.isSome_iff_exists]
  constructor
  · rintro ⟨⟨a, b⟩, h⟩
    exact ⟨a, b, (cut?_eq_append h).symm⟩
  · rintro ⟨a, b, rfl⟩
    induction a with
    | nil =>
      cases hs : [] ++ p ++ b with
      | nil =>
        have hp : p = [] := by simpa using (List.append_eq_nil_iff.1 hs).1
        exact ⟨_, by rw [cut?, if_pos hp]⟩
      | cons c r =>
        rw [cut?, dropStart?_eq_some_iff.2 (hs.symm.trans (by simp) : c :: r = p ++ b)]
        exact ⟨_, rfl⟩
    | cons d a ih =>
      obtain ⟨parts, hparts⟩ := ih
      rw [List.cons_append, List.cons_append, cut?]
      cases hstart : dropStart? p (d :: (a ++ p ++ b)) with
      | some rest => exact ⟨_, rfl⟩
      | none => exact ⟨(d :: parts.1, parts.2), by simp only [hparts, Option.map_some]⟩

theorem eq_dropWhile_of_fromFirst? {p : Char → Bool} (h : fromFirst? p s = some a) :
    a = s.dropWhile fun c => !p c := by
  rw [fromFirst?] at h
  cases hs : s.dropWhile fun c => !p c with
  | nil => simp [hs] at h
  | cons c r => simpa [hs, eq_comm] using h

end BitcodeReplay.Text
