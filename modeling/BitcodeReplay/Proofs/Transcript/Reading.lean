import BitcodeReplay.Transcript.Load
import BitcodeReplay.Proofs.List
import Mathlib.Data.List.Basic
import Mathlib.Data.List.Dedup
import Mathlib.Data.List.Infix
import Mathlib.Data.List.Nodup

/-!
What the lines of a build log say when they are read all at once: which targets they announce, and
which line contributes a command to which target. The reader, which sees one line at a time, comes
to the same transcript.
-/

namespace BitcodeReplay.Transcript

/-- The targets that lines announce, as often as they do. -/
def announcements (lines : List String) : List String :=
  (lines.filter fun line => !Line.isBlank line).filterMap Line.announced?

/-- The targets in the order of their first announcement. -/
def announcedTargets (lines : List String) : List String := (announcements lines).eraseDups

/-- The lines that start a block: those with something at their very start. -/
def headers (lines : List String) : List String :=
  lines.filter fun line => !Line.isBlank line && !Line.isIndented line

/-- The line begins with the name of a compile step and a space. -/
def IsCompileHeader (line : String) : Prop :=
  ∃ step ∈ ["CompileC", "SwiftDriver", "CompileSwiftSources"], (step ++ " ").toList <+: line.toList

/-- The line at `i` shows `command` in a compile block, and `target` was announced last. -/
structure Contributes (lines : List String) (i : Nat) (target : String)
    (command : CapturedCommand) : Prop where
  shown : ∃ line, lines[i]? = some line ∧ Line.isBlank line = false ∧
    Line.isIndented line = true ∧ Line.command? line = some command
  block : ∃ header, (headers (lines.take i)).getLast? = some header ∧ IsCompileHeader header
  announced : (announcements (lines.take (i + 1))).getLast? = some target

/-- What the line at `i` contributes. -/
def contribution? (lines : List String) (i : Nat) : Option (String × CapturedCommand) :=
  lines[i]?.bind fun line =>
    if !Line.isBlank line && Line.isIndented line &&
        (headers (lines.take i)).getLast?.any Line.opensCompileBlock then
      (Line.command? line).bind fun command =>
        (announcements (lines.take (i + 1))).getLast?.map fun target => (target, command)
    else none

/-- All that is contributed, in the order of the lines. -/
def contributions (lines : List String) : List (String × CapturedCommand) :=
  (List.range lines.length).filterMap (contribution? lines)

/-- The commands contributed to a target, in the order of the lines. -/
def commandsOf (lines : List String) (target : String) : List CapturedCommand :=
  (contributions lines).filterMap fun c => if c.1 = target then some c.2 else none

/-- The transcript that lines say together. -/
def reading (lines : List String) : Transcript where
  targets := (announcedTargets lines).map fun target => (target, commandsOf lines target)
  buildCount := lines.countP Line.opensBuild

theorem opensCompileBlock_iff (line : String) :
    Line.opensCompileBlock line = true ↔ IsCompileHeader line := by
  simp [Line.opensCompileBlock, Line.compileHeaders, IsCompileHeader, List.isPrefixOf_iff_prefix]

theorem contribution?_eq_some_iff (lines : List String) (i : Nat) (target : String)
    (command : CapturedCommand) :
    contribution? lines i = some (target, command) ↔ Contributes lines i target command := by
  constructor
  · intro h
    obtain ⟨line, hline, h⟩ := Option.bind_eq_some_iff.1 h
    split at h
    · next hc =>
      simp only [Bool.and_eq_true, Bool.not_eq_true', Option.any_eq_true] at hc
      obtain ⟨⟨hblank, hindent⟩, header, hheader, hopens⟩ := hc
      obtain ⟨c, hc, h⟩ := Option.bind_eq_some_iff.1 h
      obtain ⟨t, ht, h⟩ := Option.map_eq_some_iff.1 h
      obtain ⟨rfl, rfl⟩ := Prod.mk.inj h
      exact ⟨⟨line, hline, hblank, hindent, hc⟩,
        ⟨header, hheader, (opensCompileBlock_iff header).1 hopens⟩, ht⟩
    · simp at h
  · rintro ⟨⟨line, hline, hblank, hindent, hc⟩, ⟨header, hheader, hopens⟩, ht⟩
    have hopens := (opensCompileBlock_iff header).2 hopens
    simp [contribution?, hline, hblank, hindent, hc, hheader, hopens, ht]

/-- The compiler of a command is one that its text shows, and the first of these. -/
theorem Line.compiler_of_command? {line : String} {command : CapturedCommand}
    (h : Line.command? line = some command) :
    Line.namesBinary command.text.toList command.compiler = true ∧
      (Line.namesBinary command.text.toList .swiftc = true → command.compiler = .swiftc) := by
  obtain ⟨text, -, htext⟩ := Option.bind_eq_some_iff.1 h
  split at htext
  · cases htext
  · obtain ⟨compiler, hfound, rfl⟩ := Option.map_eq_some_iff.1 htext
    rw [String.toList_ofList]
    refine ⟨List.find?_some hfound, fun hswift => ?_⟩
    rw [Compiler.all, List.find?_cons, hswift] at hfound
    exact (Option.some.inj hfound).symm

/-! ### What one more line changes -/

theorem announcements_append (xs ys : List String) :
    announcements (xs ++ ys) = announcements xs ++ announcements ys := by
  simp [announcements]

theorem announcements_concat (lines : List String) {line : String}
    (hb : Line.isBlank line = false) :
    announcements (lines ++ [line]) = announcements lines ++ (Line.announced? line).toList := by
  cases ha : Line.announced? line <;> simp [announcements, hb, ha]

theorem nodup_announcedTargets (lines : List String) : (announcedTargets lines).Nodup :=
  nodup_eraseDups _

theorem contribution?_append (xs ys : List String) {i : Nat} (hi : i < xs.length) :
    contribution? (xs ++ ys) i = contribution? xs i := by
  have htake : ∀ k ≤ xs.length, (xs ++ ys).take k = xs.take k := fun k hk => by
    rw [List.take_append_of_le_length hk]
  simp only [contribution?, List.getElem?_append_left hi, htake i hi.le, htake (i + 1) hi]

theorem contributions_concat (xs : List String) (line : String) :
    contributions (xs ++ [line]) =
      contributions xs ++ (contribution? (xs ++ [line]) xs.length).toList := by
  have hold : (List.range xs.length).filterMap (contribution? (xs ++ [line])) =
      contributions xs :=
    List.filterMap_congr fun i hi => contribution?_append xs [line] (List.mem_range.1 hi)
  rw [contributions, List.length_append, List.length_singleton, List.range_succ,
    List.filterMap_append, hold]
  cases h : contribution? (xs ++ [line]) xs.length <;> simp [h]

/-- What the last of some lines contributes. -/
theorem contribution?_last (xs : List String) (line : String) :
    contribution? (xs ++ [line]) xs.length =
      if !Line.isBlank line && Line.isIndented line &&
          (headers xs).getLast?.any Line.opensCompileBlock then
        (Line.command? line).bind fun command =>
          (announcements (xs ++ [line])).getLast?.map fun target => (target, command)
      else none := by
  have htake : (xs ++ [line]).take (xs.length + 1) = xs ++ [line] := by simp
  simp only [contribution?, htake, List.getElem?_concat_length, List.take_left, Option.bind_some]

theorem commandsOf_concat (xs : List String) (line target : String) :
    commandsOf (xs ++ [line]) target = commandsOf xs target ++
      ((contribution? (xs ++ [line]) xs.length).toList.filterMap fun c =>
        if c.1 = target then some c.2 else none) := by
  simp [commandsOf, contributions_concat]

/-- Whatever is contributed goes to a target that has been announced. -/
theorem mem_announcements_of_contribution {lines : List String} {i : Nat} {target : String}
    {command : CapturedCommand} (h : contribution? lines i = some (target, command)) :
    target ∈ announcements lines := by
  have ht := ((contribution?_eq_some_iff lines i target command).1 h).announced
  have hmem := List.mem_of_getLast? ht
  rw [← List.take_append_drop (i + 1) lines, announcements_append]
  exact List.mem_append_left _ hmem

theorem commandsOf_eq_nil {lines : List String} {target : String}
    (h : target ∉ announcements lines) : commandsOf lines target = [] := by
  simp only [commandsOf, contributions, List.filterMap_eq_nil_iff, List.mem_filterMap]
  rintro ⟨t, c⟩ ⟨i, -, hi⟩
  have ht : t ≠ target := fun ht => h (ht ▸ mem_announcements_of_contribution hi)
  simp [ht]

/-! ### The table of targets -/

/-- Adding commands to a target of a table that lists each target once. -/
theorem extendEntry_map {names : List String} (hn : names.Nodup)
    (f : String → List CapturedCommand) {target : String} (cs : List CapturedCommand)
    (hf : target ∉ names → f target = []) :
    extendEntry target cs (names.map fun n => (n, f n)) =
      (if target ∈ names then names else names ++ [target]).map fun n =>
        (n, f n ++ if n = target then cs else []) := by
  have hvalue : target ∉ names → f target ++ cs = cs := fun ht => by rw [hf ht, List.nil_append]
  rw [upsert_map (extendEntry target cs) (· ++ cs) rfl (fun _ _ _ => rfl) hn hvalue]
  refine List.map_congr_left fun n _ => ?_
  by_cases h : n = target <;> simp [h]

/-! ### The reader -/

/-- The reader knows what the lines so far say. -/
structure Knows (r : Reader) (lines : List String) : Prop where
  current : r.current = (announcements lines).getLast?
  compiling : r.compiling = (headers lines).getLast?.any Line.opensCompileBlock
  transcript : r.transcript = reading lines

theorem knows_start : Knows .start [] where
  current := rfl
  compiling := rfl
  transcript := rfl

theorem opensBuild_of_isBlank {line : String} (h : Line.isBlank line = true) :
    Line.opensBuild line = false := by
  simp only [Line.isBlank, Text.allBlank, List.all_eq_true] at h
  by_contra hopens
  simp only [Line.opensBuild, Bool.not_eq_false, List.isPrefixOf_iff_prefix] at hopens
  have hB := h 'B' (hopens.subset (by decide))
  exact absurd hB (by decide)

/-- A blank line says nothing. -/
theorem knows_blank {r : Reader} {lines : List String} (h : Knows r lines) {line : String}
    (hb : Line.isBlank line = true) : Knows r (lines ++ [line]) := by
  have hannounce : announcements (lines ++ [line]) = announcements lines := by
    simp [announcements, hb]
  have hheader : headers (lines ++ [line]) = headers lines := by simp [headers, hb]
  have hnone : contribution? (lines ++ [line]) lines.length = none := by
    simp [contribution?_last, hb]
  have hbuild := opensBuild_of_isBlank hb
  refine ⟨?_, ?_, ?_⟩
  · rw [h.current, hannounce]
  · rw [h.compiling, hheader]
  · simp [h.transcript, reading, announcedTargets, hannounce, commandsOf_concat, hnone, hbuild]

/-- The transcript after the announcement and the mark of a build in a line, before its command. -/
def heeded (lines : List String) (line : String) : Transcript where
  targets := (announcedTargets (lines ++ [line])).map fun target => (target, commandsOf lines target)
  buildCount := (lines ++ [line]).countP Line.opensBuild

theorem heed_transcript {r : Reader} {lines : List String} (h : Knows r lines) {line : String}
    (hb : Line.isBlank line = false) : (r.heed line).transcript = heeded lines line := by
  have hcount : (if Line.opensBuild line then
      { r with transcript := r.transcript.countBuild } else r).transcript =
      ⟨(reading lines).targets, (lines ++ [line]).countP Line.opensBuild⟩ := by
    by_cases ho : Line.opensBuild line <;> simp [ho, h.transcript, countBuild, reading]
  cases ha : Line.announced? line with
  | none =>
    have hannounce := announcements_concat lines hb
    simp only [Reader.heed, ha, hcount]
    simp [heeded, reading, announcedTargets, hannounce, ha]
  | some target =>
    have hannounce := announcements_concat lines hb
    rw [ha, Option.toList_some] at hannounce
    have hf : target ∉ announcedTargets lines → commandsOf lines target = [] := fun ht =>
      commandsOf_eq_nil fun hm => ht (List.mem_eraseDups.2 hm)
    have hentry := extendEntry_map (nodup_announcedTargets lines) (commandsOf lines) [] hf
    have hnames : announcedTargets (lines ++ [line]) =
        if target ∈ announcedTargets lines then announcedTargets lines
        else announcedTargets lines ++ [target] := by
      simp only [announcedTargets, hannounce, eraseDups_concat, List.mem_eraseDups]
    simp only [Reader.heed, ha, Reader.announce, announce, extend, hcount]
    simp only [reading, hentry, heeded, hnames, ite_self, List.append_nil]

theorem heed_current {r : Reader} {lines : List String} (h : Knows r lines) {line : String}
    (hb : Line.isBlank line = false) :
    (r.heed line).current = (announcements (lines ++ [line])).getLast? := by
  rw [announcements_concat lines hb]
  cases ha : Line.announced? line with
  | none =>
    rw [Option.toList_none, List.append_nil, ← h.current]
    by_cases ho : Line.opensBuild line <;> simp [Reader.heed, ha, ho]
  | some target => simp [Reader.heed, ha, Reader.announce]

theorem heed_compiling (r : Reader) (line : String) : (r.heed line).compiling = r.compiling := by
  by_cases ho : Line.opensBuild line <;>
    cases ha : Line.announced? line <;> simp [Reader.heed, Reader.announce, ha, ho]

@[simp] theorem capture_current (r : Reader) (c : CapturedCommand) :
    (r.capture c).current = r.current := by
  simp only [Reader.capture]
  split <;> rfl

@[simp] theorem capture_compiling (r : Reader) (c : CapturedCommand) :
    (r.capture c).compiling = r.compiling := by
  simp only [Reader.capture]
  split <;> rfl

/-- The transcript with what a line contributes. -/
def withContribution (t : Transcript) : Option (String × CapturedCommand) → Transcript
  | some (target, command) => t.extend target [command]
  | none => t

/-- The lines with one more read as what has been heeded and the contribution of that line. -/
theorem reading_concat (lines : List String) (line : String) : reading (lines ++ [line]) =
    withContribution (heeded lines line) (contribution? (lines ++ [line]) lines.length) := by
  cases hc : contribution? (lines ++ [line]) lines.length with
  | none => simp [withContribution, heeded, reading, commandsOf_concat, hc]
  | some contributed =>
    obtain ⟨target, command⟩ := contributed
    have hmem : target ∈ announcedTargets (lines ++ [line]) :=
      List.mem_eraseDups.2 (mem_announcements_of_contribution hc)
    have hentry := extendEntry_map (nodup_announcedTargets (lines ++ [line]))
      (commandsOf lines) [command] fun hnot => absurd hmem hnot
    have hcommands : ∀ n, commandsOf (lines ++ [line]) n =
        commandsOf lines n ++ if n = target then [command] else [] := by
      intro n
      by_cases hn : n = target
      · simp [commandsOf_concat, hc, hn]
      · simp [commandsOf_concat, hc, hn, Ne.symm hn]
    simp [withContribution, extend, heeded, hentry, hmem, reading, hcommands]

/-- A line with something at its start opens a block and contributes nothing. -/
theorem knows_header {r : Reader} {lines : List String} (h : Knows r lines) {line : String}
    (hb : Line.isBlank line = false) (hi : Line.isIndented line = false) :
    Knows ((r.heed line).enter line) (lines ++ [line]) := by
  have hnone : contribution? (lines ++ [line]) lines.length = none := by
    simp [contribution?_last, hi]
  refine ⟨?_, ?_, ?_⟩
  · simpa [Reader.enter, hi] using heed_current h hb
  · simp [Reader.enter, hi, headers, hb]
  · simp [Reader.enter, hi, heed_transcript h hb, reading_concat, hnone, withContribution]

/-- What a reader captures from an indented line: its command, for the current target, within a
compile block. -/
def captured? (r : Reader) (line : String) : Option (String × CapturedCommand) :=
  if r.compiling then
    (Line.command? line).bind fun command => r.current.map fun target => (target, command)
  else none

theorem enter_transcript (r : Reader) {line : String} (hi : Line.isIndented line = true) :
    (r.enter line).transcript = withContribution r.transcript (captured? r line) := by
  simp only [Reader.enter, hi, if_true, captured?]
  cases Line.command? line with
  | none => cases r.compiling <;> rfl
  | some command =>
    simp only [Reader.capture]
    cases hcompiling : r.compiling with
    | false => rfl
    | true => cases hcurrent : r.current <;> rfl

theorem contribution?_indented {r : Reader} {lines : List String} (h : Knows r lines)
    {line : String} (hb : Line.isBlank line = false) (hi : Line.isIndented line = true) :
    contribution? (lines ++ [line]) lines.length = captured? (r.heed line) line := by
  rw [contribution?_last, captured?, heed_current h hb, heed_compiling, h.compiling]
  simp only [hb, hi, Bool.not_false, Bool.true_and]

/-- An indented line leaves the block as it is and may contribute a command. -/
theorem knows_indented {r : Reader} {lines : List String} (h : Knows r lines) {line : String}
    (hb : Line.isBlank line = false) (hi : Line.isIndented line = true) :
    Knows ((r.heed line).enter line) (lines ++ [line]) := by
  have hheader : headers (lines ++ [line]) = headers lines := by simp [headers, hi]
  have henter : (r.heed line).enter line =
      ((Line.command? line).map (r.heed line).capture).getD (r.heed line) := by
    simp only [Reader.enter, hi, if_true]
    cases Line.command? line <;> rfl
  refine ⟨?_, ?_, ?_⟩
  · rw [henter, ← heed_current h hb]
    cases Line.command? line <;> simp
  · rw [henter, hheader, ← h.compiling, ← heed_compiling r line]
    cases Line.command? line <;> simp
  · rw [enter_transcript _ hi, heed_transcript h hb, reading_concat, contribution?_indented h hb hi]

theorem knows_feed {r : Reader} {lines : List String} (h : Knows r lines) (line : String) :
    Knows (r.feed line) (lines ++ [line]) := by
  cases hb : Line.isBlank line with
  | true => simpa [Reader.feed, hb] using knows_blank h hb
  | false =>
    simp only [Reader.feed, hb, Bool.false_eq_true, if_false]
    cases hi : Line.isIndented line with
    | true => exact knows_indented h hb hi
    | false => exact knows_header h hb hi

/-- Reading line by line, the reader always knows what the lines so far say. -/
theorem knows_readLines (lines : List String) : Knows (readLines lines) lines := by
  induction lines using List.reverseRecOn with
  | nil => exact knows_start
  | append_singleton lines line ih =>
    rw [readLines_append]
    exact knows_feed ih line

theorem targetNames_reading (lines : List String) :
    (reading lines).targetNames = announcedTargets lines := by
  rw [targetNames, reading, List.map_map]
  exact List.map_id' _

theorem finish_eq_ok_iff {r : Reader} {t : Transcript} :
    r.finish = .ok t ↔ r.transcript = t ∧ t.targets ≠ [] ∧ t.totalCommands ≠ 0 := by
  rw [Reader.finish]
  constructor
  · intro h
    split at h
    · cases h
    next htargets =>
      split at h
      · cases h
      next hcommands =>
        cases h
        exact ⟨rfl, htargets, hcommands⟩
  · rintro ⟨rfl, htargets, hcommands⟩
    rw [if_neg htargets, if_neg hcommands]

/-- A transcript that has been read has an entry for each target. -/
theorem nodup_targetNames_of_ofLines {lines : List String} {t : Transcript}
    (h : ofLines lines = .ok t) : t.targetNames.Nodup := by
  obtain ⟨rfl, -, -⟩ := finish_eq_ok_iff.1 h
  rw [(knows_readLines lines).transcript, targetNames_reading]
  exact nodup_announcedTargets lines

theorem targets_reading_eq_nil_iff (lines : List String) :
    (reading lines).targets = [] ↔ announcedTargets lines = [] := by
  simp [reading]

theorem totalCommands_reading_eq_zero_iff (lines : List String) :
    (reading lines).totalCommands = 0 ↔ contributions lines = [] := by
  simp only [totalCommands, reading, List.length_eq_zero_iff, List.flatMap_eq_nil_iff,
    List.forall_mem_map]
  constructor
  · intro h
    by_contra hne
    obtain ⟨⟨target, command⟩, hmem⟩ := List.exists_mem_of_ne_nil _ hne
    obtain ⟨i, -, hi⟩ := List.mem_filterMap.1 hmem
    have hnil := h target (List.mem_eraseDups.2 (mem_announcements_of_contribution hi))
    have hin : command ∈ commandsOf lines target :=
      List.mem_filterMap.2 ⟨(target, command), hmem, by simp⟩
    simp [hnil] at hin
  · intro h target _
    simp [commandsOf, h]

theorem contributions_eq_nil_iff (lines : List String) :
    contributions lines = [] ↔ ¬ ∃ i target command, Contributes lines i target command := by
  simp only [contributions, List.filterMap_eq_nil_iff, List.mem_range,
    ← contribution?_eq_some_iff]
  constructor
  · rintro h ⟨i, target, command, hi⟩
    have hlt : i < lines.length := by
      by_contra hge
      simp [contribution?, List.getElem?_eq_none (Nat.not_lt.1 hge)] at hi
    simp [h i hlt] at hi
  · intro h i _
    by_contra hne
    obtain ⟨⟨target, command⟩, hi⟩ := Option.ne_none_iff_exists'.1 hne
    exact h ⟨i, target, command, hi⟩

/-- The transcript of a log is what its lines say together, if they announce a target and contribute
a command. -/
theorem ofLines_agrees_with_reading (lines : List String) :
    (∀ i target command, contribution? lines i = some (target, command) ↔
      Contributes lines i target command) ∧
    (ofLines lines = .error .noTargets ↔ announcedTargets lines = []) ∧
    (∀ n, ofLines lines = .error (.noCommands n) ↔ announcedTargets lines ≠ [] ∧
      (¬ ∃ i target command, Contributes lines i target command) ∧
      n = (announcedTargets lines).length) ∧
    ∀ t, ofLines lines = .ok t ↔ announcedTargets lines ≠ [] ∧
      (∃ i target command, Contributes lines i target command) ∧ t = reading lines := by
  refine ⟨contribution?_eq_some_iff lines, ?_⟩
  have hlength : (reading lines).targets.length = (announcedTargets lines).length := by
    simp [reading]
  simp only [ofLines, Reader.finish, (knows_readLines lines).transcript,
    targets_reading_eq_nil_iff, totalCommands_reading_eq_zero_iff, hlength]
  have hnone := contributions_eq_nil_iff lines
  by_cases ht : announcedTargets lines = []
  · simp [ht]
  · by_cases hc : contributions lines = []
    · have hno := hnone.1 hc
      simp [ht, hc, hno, eq_comm]
    · have hsome := not_not.1 fun h => hc (hnone.2 h)
      simp [ht, hc, hsome, eq_comm]

end BitcodeReplay.Transcript
