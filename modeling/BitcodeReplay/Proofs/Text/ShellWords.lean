import BitcodeReplay.Text.ShellWords
import Mathlib.Data.List.Basic

/-!
A line of quoted words splits into those words, whatever they hold. The reader is followed from one
chunk to the next: in an open word, reading what is written for a chunk adds the chunk to the word.
-/

namespace BitcodeReplay.ShellWords

variable {c : Char} {w r chunk word : List Char}

/-! ### Chunks -/

theorem isSeparator_of_isBare (h : isBare c = true) : isSeparator c = false := by
  by_contra hs
  have hcase : (c = ' ' ∨ c = '\t') ∨ c = '\n' := by
    simpa only [isSeparator, Bool.not_eq_false, Bool.or_eq_true, beq_iff_eq] using hs
  rcases hcase with (rfl | rfl) | rfl <;> exact absurd h (by decide)

theorem ne_of_isBare {d : Char} (h : isBare c = true) (hd : isBare d = false) : c ≠ d := by
  rintro rfl
  rw [h] at hd
  cases hd

theorem open_of_isBare (h : isBare c = true) : Mode.open c = (.word, [c]) := by
  have hdouble := ne_of_isBare (d := '"') h (by decide)
  have hsingle := ne_of_isBare (d := '\'') h (by decide)
  have hescape := ne_of_isBare (d := '\\') h (by decide)
  simp [Mode.open, hdouble, hsingle, hescape]

theorem scan_bare (h : ∀ c ∈ chunk, isBare c = true) :
    scan .word w (chunk ++ r) = scan .word (w ++ chunk) r := by
  induction chunk generalizing w with
  | nil => simp
  | cons c chunk ih =>
    have hc := h c List.mem_cons_self
    rw [List.cons_append, scan]
    simp only [isSeparator_of_isBare hc, Bool.false_eq_true, if_false, open_of_isBare hc]
    rw [ih fun d hd => h d (List.mem_cons_of_mem _ hd), List.append_assoc, List.singleton_append]

theorem scan_single (h : '\'' ∉ chunk) :
    scan .single w (chunk ++ '\'' :: r) = scan .word (w ++ chunk) r := by
  induction chunk generalizing w with
  | nil => simp [scan]
  | cons c chunk ih =>
    rw [List.mem_cons, not_or] at h
    obtain ⟨hc, hrest⟩ := h
    rw [List.cons_append, scan]
    simp only [if_neg (Ne.symm hc)]
    rw [ih hrest, List.append_assoc, List.singleton_append]

/-- Between double quotes every character is read as itself, after a backslash or without one. -/
theorem scan_escapeDouble (c : Char) (w r : List Char) :
    scan .double w (escapeDouble c ++ r) = scan .double (w ++ [c]) r := by
  by_cases hquote : c = '"'
  · subst hquote
    simp [escapeDouble, scan, unescape]
  by_cases hslash : c = '\\'
  · subst hslash
    simp [escapeDouble, scan, unescape]
  · simp [escapeDouble, scan, hquote, hslash]

theorem scan_double (w chunk r : List Char) :
    scan .double w (chunk.flatMap escapeDouble ++ '"' :: r) = scan .word (w ++ chunk) r := by
  induction chunk generalizing w with
  | nil => simp [scan]
  | cons c chunk ih =>
    rw [List.flatMap_cons, List.append_assoc, scan_escapeDouble, ih, List.append_assoc,
      List.singleton_append]

/-- The styles that are still open hold all of a chunk. -/
structure Styles.Fits (s : Styles) (chunk : List Char) : Prop where
  bare : s.bare = true → ∀ c ∈ chunk, isBare c = true
  single : s.single = true → '\'' ∉ chunk

theorem fits_stylesOf (c : Char) : (stylesOf c).Fits [c] where
  bare := by
    intro h d hd
    rwa [List.mem_singleton.1 hd]
  single := by
    intro h hmem
    rw [← List.mem_singleton.1 hmem] at h
    exact absurd h (by decide)

theorem fits_opening (c : Char) : (opening c).Fits [c] := by
  rw [opening]
  split
  · next hc => exact ⟨by simp, fun _ => by simp [hc]⟩
  · exact fits_stylesOf c

theorem Styles.Fits.meet {s t : Styles} {more : List Char} (hs : s.Fits chunk) (ht : t.Fits more) :
    (s.meet t).Fits (chunk ++ more) where
  bare := by
    intro h d hd
    obtain ⟨hsbare, htbare⟩ := Bool.and_eq_true_iff.1 h
    rcases List.mem_append.1 hd with hd | hd
    · exact hs.bare hsbare d hd
    · exact ht.bare htbare d hd
  single := by
    intro h hmem
    obtain ⟨hssingle, htsingle⟩ := Bool.and_eq_true_iff.1 h
    rcases List.mem_append.1 hmem with hmem | hmem
    · exact hs.single hssingle hmem
    · exact ht.single htsingle hmem

theorem scan_writeChunk {s : Styles} (h : s.Fits chunk) :
    scan .word w (writeChunk s chunk ++ r) = scan .word (w ++ chunk) r := by
  rw [writeChunk]
  split
  · next hbare => exact scan_bare (h.bare hbare)
  split
  · next hsingle =>
    have hopen : isSeparator '\'' = false := by decide
    rw [List.cons_append, scan]
    simp only [hopen, Bool.false_eq_true, if_false]
    simpa [Mode.open] using scan_single (w := w) (r := r) (h.single hsingle)
  · have hopen : isSeparator '"' = false := by decide
    rw [List.cons_append, scan]
    simp only [hopen, Bool.false_eq_true, if_false]
    simpa [Mode.open] using scan_double w chunk r

/-! ### Words -/

theorem scan_quoteFrom {s : Styles} (h : s.Fits chunk) (rest : List Char) :
    scan .word w (quoteFrom s chunk rest ++ r) = scan .word (w ++ (chunk ++ rest)) r := by
  induction rest generalizing s chunk w with
  | nil => rw [quoteFrom, scan_writeChunk h, List.append_nil]
  | cons c rest ih =>
    rw [quoteFrom]
    split
    · rw [List.append_assoc, scan_writeChunk h, ih (fits_opening c), List.append_assoc,
        List.singleton_append]
    · rw [ih (h.meet (fits_stylesOf c)), List.append_assoc, List.singleton_append]

theorem scan_quote (word r : List Char) : scan .word [] (quote word ++ r) = scan .word word r := by
  cases word with
  | nil => simp [quote, scan, Mode.open, isSeparator]
  | cons c rest =>
    rw [quote, scan_quoteFrom (fits_opening c), List.nil_append, List.singleton_append]

/-- A text that opens a word where none is open: it starts with no separator and no comment. -/
def OpensWord (text : List Char) : Prop :=
  ∃ c rest, text = c :: rest ∧ isSeparator c = false ∧ c ≠ '#'

theorem opensWord_writeChunk {s : Styles} (h : s.Fits (c :: chunk)) :
    OpensWord (writeChunk s (c :: chunk)) := by
  rw [writeChunk]
  split
  · next hbare =>
    have hc := h.bare hbare c List.mem_cons_self
    exact ⟨c, chunk, rfl, isSeparator_of_isBare hc, ne_of_isBare hc (by decide)⟩
  split
  · exact ⟨'\'', _, rfl, by decide, by decide⟩
  · exact ⟨'"', _, rfl, by decide, by decide⟩

theorem OpensWord.append {text : List Char} (h : OpensWord text) (r : List Char) :
    OpensWord (text ++ r) := by
  obtain ⟨c, rest, rfl, hsep, hhash⟩ := h
  exact ⟨c, rest ++ r, rfl, hsep, hhash⟩

theorem opensWord_quoteFrom {s : Styles} (h : s.Fits (c :: chunk)) (rest : List Char) :
    OpensWord (quoteFrom s (c :: chunk) rest) := by
  induction rest generalizing s chunk with
  | nil => exact opensWord_writeChunk h
  | cons d rest ih =>
    rw [quoteFrom]
    split
    · exact (opensWord_writeChunk h).append _
    · exact ih (h.meet (fits_stylesOf d))

theorem opensWord_quote (word : List Char) : OpensWord (quote word) := by
  cases word with
  | nil => exact ⟨'\'', ['\''], rfl, by decide, by decide⟩
  | cons c rest => exact opensWord_quoteFrom (fits_opening c) rest

theorem scan_gap {text : List Char} (h : OpensWord text) :
    scan .gap [] text = scan .word [] text := by
  obtain ⟨c, rest, rfl, hsep, hhash⟩ := h
  rw [scan, scan]
  simp [hsep, hhash]

/-! ### What has been read -/

/-- A character ends a word or none, and leaves a mode and a part of a word behind. -/
theorem scan_cons (mode : Mode) (w : List Char) (c : Char) :
    ∃ done next v, ∀ r, scan mode w (c :: r) = (scan next v r).map (done ++ ·) := by
  cases mode with
  | gap =>
    by_cases hsep : isSeparator c = true
    · exact ⟨[], .gap, [], by simp [scan, hsep]⟩
    by_cases hhash : c = '#'
    · exact ⟨[], .comment, [], by simp [scan, hhash, isSeparator]⟩
    · exact ⟨[], (Mode.open c).1, (Mode.open c).2, by simp [scan, hsep, hhash]⟩
  | comment => exact ⟨[], if c = '\n' then .gap else .comment, [], by simp [scan]⟩
  | word =>
    by_cases hsep : isSeparator c = true
    · exact ⟨[w], .gap, [], by simp [scan, hsep]⟩
    · exact ⟨[], (Mode.open c).1, w ++ (Mode.open c).2, by simp [scan, hsep]⟩
  | escaped => exact ⟨[], .word, if c = '\n' then w else w ++ [c], by simp [scan]⟩
  | single =>
    by_cases hquote : c = '\''
    · exact ⟨[], .word, w, by simp [scan, hquote]⟩
    · exact ⟨[], .single, w ++ [c], by simp [scan, hquote]⟩
  | double =>
    by_cases hquote : c = '"'
    · exact ⟨[], .word, w, by simp [scan, hquote]⟩
    by_cases hslash : c = '\\'
    · exact ⟨[], .doubleEscaped, w, by simp [scan, hslash]⟩
    · exact ⟨[], .double, w ++ [c], by simp [scan, hquote, hslash]⟩
  | doubleEscaped => exact ⟨[], .double, w ++ unescape c, by simp [scan]⟩

/-- Whatever comes next, a text that has been read counts by the words that have ended in it, the mode
and the part of the word that is open. -/
theorem scan_append (mode : Mode) (w a : List Char) :
    ∃ done next v, ∀ r, scan mode w (a ++ r) = (scan next v r).map (done ++ ·) := by
  induction a generalizing mode w with
  | nil => exact ⟨[], mode, w, by simp⟩
  | cons c a ih =>
    obtain ⟨first, middle, u, hstep⟩ := scan_cons mode w c
    obtain ⟨more, next, v, hrun⟩ := ih middle u
    refine ⟨first ++ more, next, v, fun r => ?_⟩
    rw [List.cons_append, hstep, hrun, Option.map_map]
    congr 1
    funext words
    exact (List.append_assoc ..).symm

/-- A text that is read, with a space behind it, as one word. -/
def Spells (text word : List Char) : Prop :=
  ∀ r, scan .gap [] (text ++ ' ' :: r) = (scan .gap [] r).map (word :: ·)

/-! ### Lines -/

theorem scan_words (words : List (List Char)) :
    scan .gap [] ([' '].intercalate (words.map quote)) = some words := by
  induction words with
  | nil => rfl
  | cons word words ih =>
    cases words with
    | nil =>
      rw [List.map_singleton, List.intercalate_singleton, scan_gap (opensWord_quote word),
        ← List.append_nil (quote word), scan_quote]
      rfl
    | cons next words =>
      rw [List.map_cons, List.map_cons, List.intercalate_cons_cons, ← List.map_cons,
        List.append_assoc, scan_gap ((opensWord_quote word).append _), scan_quote,
        List.singleton_append, scan]
      have hspace : isSeparator ' ' = true := by decide
      simp only [hspace, if_true, ih, Option.map_some]

theorem join?_eq_none_iff {words : List String} :
    join? words = none ↔ ∃ word ∈ words, '\x00' ∈ word.toList := by
  simp [join?]

/-- Words that can be joined are what the line splits into. -/
theorem split?_of_join? {words : List String} {line : String} (h : join? words = some line) :
    split? line = some words := by
  rw [join?] at h
  split at h
  · cases h
  · obtain rfl := Option.some.inj h
    have hquoted : (words.map fun w => String.ofList (quote w.toList)).map String.toList =
        (words.map String.toList).map quote := by simp
    rw [split?, String.toList_intercalate, hquoted, show " ".toList = [' '] from rfl, scan_words]
    simp

end BitcodeReplay.ShellWords
