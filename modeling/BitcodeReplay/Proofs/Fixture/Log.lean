import BitcodeReplay.Fixture.Log
import BitcodeReplay.Proofs.Text.Reading
import BitcodeReplay.Proofs.Transcript.Reading

/-!
What a log that has been made for trying things out is read as: the targets it was made of, each
with its commands. A name is written twice into the line that announces it, next to what marks a
name in a line, so the name must not hold such a mark itself.
-/

namespace BitcodeReplay

open Text

namespace Fixture.Log

/-- A name that a line can hold and from which it can be read again. -/
structure IsPlainName (name : String) : Prop where
  oneLine : '\n' ∉ name.toList
  start : ¬ "(in target '".toList <:+: name.toList
  stop : ¬ "' from ".toList <:+: name.toList

/-- A line that shows a command and announces nothing. -/
structure IsShown (command : String) : Prop where
  oneLine : '\n' ∉ command.toList
  shown : (Transcript.Line.command? command).isSome = true
  silent : Transcript.Line.announced? command = none

instance (name : String) : Decidable (IsPlainName name) :=
  decidable_of_iff ('\n' ∉ name.toList ∧ ¬ "(in target '".toList <:+: name.toList ∧
      ¬ "' from ".toList <:+: name.toList)
    ⟨fun ⟨honeLine, hstart, hstop⟩ => ⟨honeLine, hstart, hstop⟩,
      fun h => ⟨h.oneLine, h.start, h.stop⟩⟩

instance (command : String) : Decidable (IsShown command) :=
  decidable_of_iff ('\n' ∉ command.toList ∧ (Transcript.Line.command? command).isSome = true ∧
      Transcript.Line.announced? command = none)
    ⟨fun ⟨honeLine, hshown, hsilent⟩ => ⟨honeLine, hshown, hsilent⟩,
      fun h => ⟨h.oneLine, h.shown, h.silent⟩⟩

/-- A line starts as those do that head a step. -/
def OpensStep (line : String) : Prop :=
  ∃ c r, line.toList = c :: r ∧ isBlank c = false ∧ c ≠ '=' ∧ c ≠ 'B'

/-- What a line that shows a command is captured as. -/
def captured (command : String) : CapturedCommand :=
  let text := (trim command.toList).dropWhile (· ≠ '/')
  ⟨String.ofList text, if "/swiftc ".toList <:+: text then .swiftc else .clang⟩

theorem toList_owner (target : String) : (owner target).toList =
    [' '] ++ ("(in target '".toList ++ (target.toList ++ ("' from ".toList ++
      ("project '".toList ++ (target.toList ++ "')".toList))))) := by
  have hopen : " (in target '".toList = [' '] ++ "(in target '".toList := by decide
  have hmid : "' from project '".toList = "' from ".toList ++ "project '".toList := by decide
  unfold owner
  simp only [String.toList_append, hopen, hmid, List.append_assoc]

theorem OpensStep.append {line : String} (h : OpensStep line) (more : String) :
    OpensStep (line ++ more) := by
  obtain ⟨c, r, hline, hc⟩ := h
  exact ⟨c, r ++ more.toList, by rw [String.toList_append, hline, List.cons_append], hc⟩

end Fixture.Log

namespace Transcript.Line

open Fixture.Log

theorem eq_captured {line : String} {k : CapturedCommand} (h : command? line = some k) :
    k = captured line := by
  obtain ⟨hshown, hfirst⟩ := compiler_of_command? h
  obtain ⟨text, htext, h⟩ := Option.bind_eq_some_iff.1 h
  have hslash : (trim line.toList).dropWhile (· ≠ '/') = text := by
    have hsame : (fun c : Char => !(c == '/')) = fun c => decide (c ≠ '/') := by
      funext c
      by_cases hc : c = '/' <;> simp [hc]
    rw [eq_dropWhile_of_fromFirst? htext, hsame]
  split at h
  · cases h
  · obtain ⟨compiler, -, rfl⟩ := Option.map_eq_some_iff.1 h
    rw [String.toList_ofList] at hshown hfirst
    have hswift : namesBinary text .swiftc = true ↔ "/swiftc ".toList <:+: text :=
      holds_eq_true_iff
    rw [captured, hslash]
    by_cases hin : "/swiftc ".toList <:+: text
    · rw [if_pos hin, ← hfirst (hswift.2 hin)]
    · rw [if_neg hin]
      cases compiler with
      | clang => rfl
      | swiftc => exact absurd (hswift.1 hshown) hin

theorem command?_congr {l m : String} (h : trim l.toList = trim m.toList) :
    command? l = command? m := by
  rw [command?, command?, h]

/-- Neither the indentation nor the line end is part of a command. -/
theorem command?_asRead_indented (command : String) :
    command? (asRead ("    " ++ command)) = command? command := by
  have hindent : trim ("    " ++ command).toList = trim command.toList := by
    rw [String.toList_append, trim, trim, trimStart_append_of_allBlank (by decide)]
  rcases asRead_cases ("    " ++ command) with hsame | hreturn
  · rw [hsame]
    exact command?_congr hindent
  · refine command?_congr ?_
    rw [← hindent, hreturn, trim_concat_of_isBlank (by decide)]

/-- A line that heads a step names its target as the current build system does. -/
theorem announced?_of_opensStep {line : String} (h : OpensStep line) : announced? line =
    (after? "(in target '".toList line.toList).bind fun rest =>
      (before? "' from ".toList rest).map String.ofList := by
  obtain ⟨c, r, hline, hblank, hc, -⟩ := h
  have hstart : trimStart line.toList = c :: r := by
    simp [trimStart, hline, hblank]
  have hold : dropStart? "=== BUILD TARGET ".toList (c :: r) = none := by
    rw [dropStart?_eq_none_iff]
    rintro ⟨rest, hrest⟩
    exact hc (List.cons_eq_cons.1 hrest).1.symm
  rw [announced?, hstart, hold]

theorem not_start_infix {name : String} (h : IsPlainName name) {a b : List Char} (ha : '(' ∉ a)
    (hb : '\'' ∉ b) : ¬ "(in target '".toList <:+: a ++ name.toList ++ b := by
  intro hin
  have hfront : "(in target '".toList <:+: a ++ name.toList :=
    infix_of_infix_append_right (p := "(in target ".toList) hb hin
  exact h.start (infix_of_infix_append_left (p := "in target '".toList) ha hfront)

/-- A line whose front marks no name announces the target that is written behind it. -/
theorem announced?_owner {front name : String} (h : IsPlainName name) (hopens : OpensStep front)
    (hfront : ¬ "(in target '".toList <:+: front.toList ++ [' ']) :
    announced? (front ++ owner name) = some name := by
  let project := "project '".toList ++ (name.toList ++ "')".toList)
  have htext : (front ++ owner name).toList = front.toList ++ [' '] ++
      ("(in target '".toList ++ (name.toList ++ ("' from ".toList ++ project))) := by
    rw [String.toList_append, toList_owner, List.append_assoc]
  have hstart : cut? "(in target '".toList (front ++ owner name).toList =
      some (front.toList ++ [' '], name.toList ++ ("' from ".toList ++ project)) := by
    rw [htext]
    exact cut?_append_self (c := '(') (p := "in target '".toList) (by decide) hfront _
  have hstop : cut? "' from ".toList (name.toList ++ ("' from ".toList ++ project)) =
      some (name.toList, project) :=
    cut?_append_self (c := '\'') (p := " from ".toList) (by decide) h.stop _
  rw [announced?_of_opensStep (hopens.append _), after?, hstart]
  simp only [Option.map_some, Option.bind_some, before?, hstop, String.ofList_toList]

/-- Indentation does not hide what a line announces, nor does it announce anything. -/
theorem announced?_indented (command : String) :
    announced? ("    " ++ command) = announced? command := by
  have htrim : trimStart ("    " ++ command).toList = trimStart command.toList := by
    rw [String.toList_append, trimStart_append_of_allBlank (by decide)]
  have hafter : after? "(in target '".toList ("    " ++ command).toList =
      after? "(in target '".toList command.toList := by
    rw [String.toList_append]
    exact after?_append_left (c := '(') (by decide) command.toList
  rw [announced?, announced?, htrim, hafter]

/-- What starts a line in the older style starts it also without the carriage return at its end. -/
theorem dropStart?_of_concat_return {s : List Char}
    (h : dropStart? "=== BUILD TARGET ".toList (trimStart s) = none) :
    dropStart? "=== BUILD TARGET ".toList (trimStart (s ++ ['\r'])) = none := by
  rw [dropStart?_eq_none_iff] at h ⊢
  intro hstart
  by_cases hs : trimStart s = []
  · have hblank : allBlank s = true := by simpa [allBlank] using List.dropWhile_eq_nil_iff.1 hs
    rw [trimStart_append_of_allBlank hblank] at hstart
    exact absurd hstart (by decide)
  · rw [trimStart_append_of_ne_nil hs, List.prefix_concat_iff] at hstart
    rcases hstart with hwhole | hfront
    · have hlast := congrArg List.getLast? hwhole
      simp at hlast
    · exact h hfront

/-- Without the carriage return at its end, a line announces no more than with it. -/
theorem announced?_asRead {line : String} (h : announced? line = none) :
    announced? (asRead line) = none := by
  rcases asRead_cases line with hsame | hreturn
  · rwa [hsame]
  rw [announced?, hreturn] at h
  rw [announced?]
  cases hold : dropStart? "=== BUILD TARGET ".toList (trimStart (asRead line).toList) with
  | some rest =>
    have hstart := dropStart?_eq_some_iff.1 hold
    have hne : trimStart (asRead line).toList ≠ [] := by
      rw [hstart]
      exact List.append_ne_nil_of_left_ne_nil (by decide) _
    have hline : dropStart? "=== BUILD TARGET ".toList
        (trimStart ((asRead line).toList ++ ['\r'])) = some (rest ++ ['\r']) := by
      rw [dropStart?_eq_some_iff, trimStart_append_of_ne_nil hne, hstart, List.append_assoc]
    rw [hline] at h
    exact Option.map_eq_none_iff.2 (before?_eq_none_of_append (Option.map_eq_none_iff.1 h))
  | none =>
    rw [dropStart?_of_concat_return hold] at h
    cases hafter : after? "(in target '".toList (asRead line).toList with
    | none => rfl
    | some rest =>
      simp only [after?_append_right hafter, Option.bind_some] at h
      exact Option.map_eq_none_iff.2 (before?_eq_none_of_append (Option.map_eq_none_iff.1 h))

end Transcript.Line

namespace Fixture.Log

open Transcript Transcript.Line

/-! ### The lines of a log -/

/-- The lines of the step that announces a target. -/
def announcementLines (target : String) : List String :=
  ["", "WriteAuxiliaryFile /tmp/" ++ target ++ ".hmap" ++ owner target]

/-- The lines of the step of a command. -/
def stepLines (target command : String) : List String :=
  ["", header target command ++ owner target, "    cd /src", "    " ++ command]

/-- The lines of a log. -/
def logLines (targets : List (String × List String)) : List String :=
  "Build description signature: 0123456789abcdef" ::
    targets.flatMap fun entry => announcementLines entry.1 ++ entry.2.flatMap (stepLines entry.1)

theorem announcement_eq_join (target : String) :
    announcement target = String.join ((announcementLines target).map (· ++ "\n")) := by
  have hopen : "\nWriteAuxiliaryFile /tmp/" = "\n" ++ "WriteAuxiliaryFile /tmp/" := by simp
  unfold announcement announcementLines
  rw [hopen]
  simp only [List.map_cons, List.map_nil, String.join_cons, String.join_nil, String.append_assoc,
    String.empty_append, String.append_empty]

theorem step_eq_join (target command : String) :
    step target command = String.join ((stepLines target command).map (· ++ "\n")) := by
  have hplace : "\n    cd /src\n    " = "\n" ++ "    cd /src" ++ "\n" ++ "    " := by simp
  unfold step stepLines
  rw [hplace]
  simp only [List.map_cons, List.map_nil, String.join_cons, String.join_nil, String.append_assoc,
    String.empty_append, String.append_empty]

theorem join_flatMap {α : Type} {f : α → String} {g : α → List String}
    (h : ∀ x, f x = String.join (g x)) (xs : List α) :
    String.join (xs.map f) = String.join (xs.flatMap g) := by
  induction xs with
  | nil => rfl
  | cons x xs ih => rw [List.map_cons, String.join_cons, List.flatMap_cons, String.join_append, h, ih]

theorem text_eq_join (targets : List (String × List String)) :
    text targets = String.join ((logLines targets).map (· ++ "\n")) := by
  have hsteps : ∀ entry : String × List String, steps entry.1 entry.2 =
      String.join ((announcementLines entry.1 ++ entry.2.flatMap (stepLines entry.1)).map
        (· ++ "\n")) := by
    intro entry
    rw [steps, announcement_eq_join, join_flatMap (step_eq_join entry.1), List.map_append,
      String.join_append, List.map_flatMap]
  have hopen : "Build description signature: 0123456789abcdef\n" =
      "Build description signature: 0123456789abcdef" ++ "\n" := by simp
  unfold text logLines
  rw [hopen, join_flatMap hsteps, List.map_cons, String.join_cons, List.map_flatMap]

theorem newline_not_mem_owner {target : String} (h : '\n' ∉ target.toList) :
    '\n' ∉ (owner target).toList := by
  simp [toList_owner, h]

theorem newline_not_mem_header {target : String} (h : '\n' ∉ target.toList) (command : String) :
    '\n' ∉ (header target command).toList := by
  rw [header]
  split <;> simp [h]

theorem newline_not_mem_logLines {targets : List (String × List String)}
    (hnames : ∀ entry ∈ targets, IsPlainName entry.1)
    (hcommands : ∀ entry ∈ targets, ∀ command ∈ entry.2, IsShown command) :
    ∀ line ∈ logLines targets, '\n' ∉ line.toList := by
  intro line hline
  rcases List.mem_cons.1 hline with rfl | hline
  · decide
  obtain ⟨entry, hentry, hline⟩ := List.mem_flatMap.1 hline
  have hname := (hnames entry hentry).oneLine
  have howner := newline_not_mem_owner hname
  rcases List.mem_append.1 hline with hline | hline
  · simp only [announcementLines, List.mem_cons, List.not_mem_nil, or_false] at hline
    rcases hline with rfl | rfl
    · decide
    · simp [hname, howner]
  · obtain ⟨command, hcommand, hline⟩ := List.mem_flatMap.1 hline
    have hcommand := (hcommands entry hentry command hcommand).oneLine
    have hheader := newline_not_mem_header hname command
    simp only [stepLines, List.mem_cons, List.not_mem_nil, or_false] at hline
    rcases hline with rfl | rfl | rfl | rfl
    · decide
    · simp [hheader, howner]
    · decide
    · simp [hcommand]

/-! ### What the reader makes of a line -/

/-- The reader goes on with a line as it is written. -/
def feedWritten (r : Reader) (line : String) : Reader := r.feed (asRead line)

theorem feedWritten_empty (r : Reader) : feedWritten r "" = r := rfl

theorem feedWritten_place (r : Reader) : feedWritten r "    cd /src" = r := by
  have hread : asRead "    cd /src" = "    cd /src" := by decide
  have hblank : Line.isBlank "    cd /src" = false := by decide
  have hbuild : opensBuild "    cd /src" = false := by decide
  have hannounced : announced? "    cd /src" = none := by decide
  have hindented : isIndented "    cd /src" = true := by decide
  have hcommand : command? "    cd /src" = none := by decide
  simp [feedWritten, hread, Reader.feed, hblank, Reader.heed, hbuild, hannounced, Reader.enter,
    hindented, hcommand]

theorem opensBuild_of_cons {line : String} {c : Char} {rest : List Char}
    (hline : line.toList = c :: rest) (hc : c ≠ 'B') : opensBuild line = false := by
  rw [opensBuild, hline, ← Bool.not_eq_true, List.isPrefixOf_iff_prefix]
  rintro ⟨more, hmore⟩
  exact hc (List.cons_eq_cons.1 hmore).1.symm

theorem feed_of_opensStep (r : Reader) {line name : String} (h : OpensStep line)
    (hname : announced? line = some name) :
    r.feed line = ⟨some name, opensCompileBlock line, r.transcript.announce name⟩ := by
  obtain ⟨c, rest, hline, hblank, -, hbuild⟩ := h
  have hshown : Line.isBlank line = false := by simp [Line.isBlank, allBlank, hline, hblank]
  have hindented : isIndented line = false := by simp [isIndented, startsBlank, hline, hblank]
  have hopens := opensBuild_of_cons hline hbuild
  simp [Reader.feed, hshown, Reader.heed, hopens, hname, Reader.enter, hindented, Reader.announce]

/-- The line that heads a step moves on to the target that is written behind it. -/
theorem feedWritten_owner (r : Reader) {front name : String} (h : IsPlainName name)
    (hopens : OpensStep front) (hfront : ¬ "(in target '".toList <:+: front.toList ++ [' ']) :
    feedWritten r (front ++ owner name) =
      ⟨some name, opensCompileBlock (front ++ owner name), r.transcript.announce name⟩ := by
  have hend : (front ++ owner name).toList.getLast? = some ')' := by
    have hlast : "')".toList = ['\''] ++ [')'] := by decide
    rw [String.toList_append, toList_owner, hlast]
    simp only [← List.append_assoc, List.getLast?_concat]
  have hread : asRead (front ++ owner name) = front ++ owner name :=
    asRead_eq_self (by rw [hend]; decide)
  rw [feedWritten, hread]
  exact feed_of_opensStep r (hopens.append _) (announced?_owner h hopens hfront)

theorem isBlank_of_command? {line : String} {k : CapturedCommand} (h : command? line = some k) :
    Line.isBlank line = false := by
  by_contra hblank
  have hnone : trimStart line.toList = [] :=
    List.dropWhile_eq_nil_iff.2 (by simpa [Line.isBlank, allBlank] using hblank)
  rw [command?, trim, hnone] at h
  cases h

/-- An indented line adds the command it shows to those of the target announced last. -/
theorem feedWritten_command {r : Reader} {name command : String} (hcompiling : r.compiling = true)
    (hcurrent : r.current = some name) (h : IsShown command) :
    feedWritten r ("    " ++ command) =
      { r with transcript := r.transcript.extend name [captured command] } := by
  obtain ⟨k, hk⟩ := Option.isSome_iff_exists.1 h.shown
  have hshown : command? (asRead ("    " ++ command)) = some (captured command) := by
    rw [command?_asRead_indented, hk, eq_captured hk]
  have hsilent : announced? (asRead ("    " ++ command)) = none :=
    announced?_asRead ((announced?_indented command).trans h.silent)
  have hline : ∃ rest, (asRead ("    " ++ command)).toList = ' ' :: rest := by
    simp [asRead, dropReturn]
  obtain ⟨rest, hline⟩ := hline
  have hindented : isIndented (asRead ("    " ++ command)) = true := by
    rw [isIndented, hline]
    rfl
  have hbuild := opensBuild_of_cons hline (by decide)
  rw [feedWritten, Reader.feed, isBlank_of_command? hshown, Reader.heed, hbuild, hsilent]
  simp [Reader.enter, hindented, hshown, Reader.capture, hcompiling, hcurrent]

/-! ### What the reader makes of a log -/

theorem opensStep_header (target command : String) : OpensStep (header target command) := by
  have hswift : OpensStep "SwiftDriver " := ⟨'S', "wiftDriver ".toList, by decide⟩
  have hclang : OpensStep "CompileC /tmp/" := ⟨'C', "ompileC /tmp/".toList, by decide⟩
  rw [header]
  split
  · exact (hswift.append _).append _
  · exact (((hclang.append _).append _).append _).append _

theorem opensCompileBlock_append {line : String} (h : opensCompileBlock line = true)
    (more : String) : opensCompileBlock (line ++ more) = true := by
  rw [opensCompileBlock_iff] at h ⊢
  obtain ⟨kind, hkind, hprefix⟩ := h
  refine ⟨kind, hkind, hprefix.trans ?_⟩
  rw [String.toList_append]
  exact List.prefix_append _ _

theorem opensCompileBlock_header (target command : String) :
    opensCompileBlock (header target command) = true := by
  rw [header]
  split
  · exact opensCompileBlock_append (opensCompileBlock_append (by decide) _) _
  · refine opensCompileBlock_append (opensCompileBlock_append (opensCompileBlock_append
      (opensCompileBlock_append ?_ _) _) _) _
    decide

theorem not_start_infix_header {target : String} (h : IsPlainName target) (command : String) :
    ¬ "(in target '".toList <:+: (header target command).toList ++ [' '] := by
  rw [header]
  split
  · simp only [String.toList_append, List.append_assoc]
    rw [← List.append_assoc]
    exact not_start_infix h (by decide) (by decide)
  · have hsplit : ∀ a b : List Char, a ++ target.toList ++ ".o /src/".toList ++ target.toList ++ b =
        (a ++ target.toList) ++ '.' :: ("o /src/".toList ++ target.toList ++ b) := by
      simp
    rw [String.toList_append, String.toList_append, String.toList_append, String.toList_append,
      List.append_assoc _ _ [' '], hsplit, infix_append_cons_iff (by decide)]
    rintro (hin | hin)
    · exact not_start_infix h (a := "CompileC /tmp/".toList) (b := []) (by decide) (by decide)
        (by rwa [List.append_nil])
    · exact not_start_infix h (by decide) (by decide) hin

theorem foldl_announcementLines (r : Reader) {target : String} (h : IsPlainName target) :
    ((announcementLines target).foldl feedWritten r).transcript = r.transcript.announce target := by
  have hopens : OpensStep "WriteAuxiliaryFile /tmp/" :=
    ⟨'W', "riteAuxiliaryFile /tmp/".toList, by decide⟩
  have hfront : ¬ "(in target '".toList <:+:
      ("WriteAuxiliaryFile /tmp/" ++ target ++ ".hmap").toList ++ [' '] := by
    rw [String.toList_append, String.toList_append, List.append_assoc]
    exact not_start_infix h (by decide) (by decide)
  rw [announcementLines, List.foldl_cons, List.foldl_cons, feedWritten_empty,
    feedWritten_owner r h ((hopens.append _).append _) hfront]
  rfl

theorem foldl_stepLines (r : Reader) {target command : String} (htarget : IsPlainName target)
    (hcommand : IsShown command) : (stepLines target command).foldl feedWritten r =
      ⟨some target, true, (r.transcript.announce target).extend target [captured command]⟩ := by
  have hcompiling := opensCompileBlock_append (opensCompileBlock_header target command) (owner target)
  rw [stepLines, List.foldl_cons, feedWritten_empty, List.foldl_cons,
    feedWritten_owner r htarget (opensStep_header target command)
      (not_start_infix_header htarget command),
    List.foldl_cons, feedWritten_place, List.foldl_cons, hcompiling,
    feedWritten_command rfl rfl hcommand]
  rfl

end Fixture.Log

namespace Transcript

theorem extend_extend (t : Transcript) (target : String) (xs ys : List CapturedCommand) :
    (t.extend target xs).extend target ys = t.extend target (xs ++ ys) := by
  have hentries : ∀ entries : List (String × List CapturedCommand),
      extendEntry target ys (extendEntry target xs entries) = extendEntry target (xs ++ ys) entries := by
    intro entries
    induction entries with
    | nil => simp [extendEntry]
    | cons entry rest ih =>
      by_cases h : entry.1 = target <;> simp [extendEntry, h, ih]
  simp [extend, hentries]

/-- A transcript that is extended by pairs of a target and commands lists each target where it comes
first, with the commands of all its pairs. -/
theorem foldl_extend (pairs : List (String × List CapturedCommand)) (builds : Nat) :
    pairs.foldl (fun (t : Transcript) pair => t.extend pair.1 pair.2) ⟨[], builds⟩ =
      ⟨(pairs.map (·.1)).eraseDups.map fun target =>
        (target, (pairs.filter (·.1 = target)).flatMap (·.2)), builds⟩ := by
  induction pairs using List.reverseRecOn with
  | nil => rfl
  | append_singleton pairs pair ih =>
    have hnew : pair.1 ∉ (pairs.map (·.1)).eraseDups →
        (pairs.filter (·.1 = pair.1)).flatMap (·.2) = [] := by
      intro hmem
      rw [List.mem_eraseDups] at hmem
      rw [filter_key_eq_nil hmem, List.flatMap_nil]
    have hentries := extendEntry_map (nodup_eraseDups (pairs.map (·.1)))
      (fun target => (pairs.filter (·.1 = target)).flatMap (·.2)) pair.2 hnew
    have hcommands : ∀ target, ((pairs ++ [pair]).filter (·.1 = target)).flatMap (·.2) =
        (pairs.filter (·.1 = target)).flatMap (·.2) ++ if target = pair.1 then pair.2 else [] := by
      intro target
      by_cases h : pair.1 = target
      · simp [h]
      · simp [h, Ne.symm h]
    rw [List.foldl_append, ih, List.foldl_cons, List.foldl_nil, extend, hentries, List.map_append,
      List.map_singleton, eraseDups_concat]
    simp only [hcommands, List.mem_eraseDups]

end Transcript

namespace Fixture.Log

open Transcript

theorem transcript_foldl_stepLines {r : Reader} {t : Transcript} {target : String}
    {known : List CapturedCommand} (hr : r.transcript = t.extend target known)
    (htarget : IsPlainName target) {commands : List String}
    (hcommands : ∀ command ∈ commands, IsShown command) :
    ((commands.flatMap (stepLines target)).foldl feedWritten r).transcript =
      t.extend target (known ++ commands.map captured) := by
  induction commands generalizing r known with
  | nil => simp [hr]
  | cons command commands ih =>
    obtain ⟨hcommand, hrest⟩ := List.forall_mem_cons.1 hcommands
    have hstep : ((stepLines target command).foldl feedWritten r).transcript =
        t.extend target (known ++ [captured command]) := by
      rw [foldl_stepLines r htarget hcommand, announce, hr, extend_extend, extend_extend,
        List.nil_append]
    rw [List.flatMap_cons, List.foldl_append, ih hstep hrest, List.append_assoc,
      List.singleton_append, List.map_cons]

/-- The lines of a target add its commands to what has been read. -/
theorem transcript_foldl_entry (r : Reader) {entry : String × List String}
    (htarget : IsPlainName entry.1) (hcommands : ∀ command ∈ entry.2, IsShown command) :
    ((announcementLines entry.1 ++ entry.2.flatMap (stepLines entry.1)).foldl feedWritten
      r).transcript = r.transcript.extend entry.1 (entry.2.map captured) := by
  have hannounced : ((announcementLines entry.1).foldl feedWritten r).transcript =
      r.transcript.extend entry.1 [] := foldl_announcementLines r htarget
  rw [List.foldl_append, transcript_foldl_stepLines hannounced htarget hcommands, List.nil_append]

theorem transcript_foldl_entries (r : Reader) {targets : List (String × List String)}
    (hnames : ∀ entry ∈ targets, IsPlainName entry.1)
    (hcommands : ∀ entry ∈ targets, ∀ command ∈ entry.2, IsShown command) :
    ((targets.flatMap fun entry =>
      announcementLines entry.1 ++ entry.2.flatMap (stepLines entry.1)).foldl feedWritten
        r).transcript =
      (targets.map fun entry => (entry.1, entry.2.map captured)).foldl
        (fun (t : Transcript) pair => t.extend pair.1 pair.2) r.transcript := by
  induction targets generalizing r with
  | nil => rfl
  | cons entry targets ih =>
    obtain ⟨hname, hnames⟩ := List.forall_mem_cons.1 hnames
    obtain ⟨hcommand, hcommands⟩ := List.forall_mem_cons.1 hcommands
    rw [List.flatMap_cons, List.foldl_append, ih _ hnames hcommands,
      transcript_foldl_entry r hname hcommand, List.map_cons, List.foldl_cons]

/-- What a log is read as: its targets in the order in which they come first, each with its commands,
in one build. -/
def reading (targets : List (String × List String)) : Transcript where
  targets := (targets.map (·.1)).eraseDups.map fun target =>
    (target, (targets.filter (·.1 = target)).flatMap fun entry => entry.2.map captured)
  buildCount := 1

theorem transcript_readLines_text {targets : List (String × List String)}
    (hnames : ∀ entry ∈ targets, IsPlainName entry.1)
    (hcommands : ∀ entry ∈ targets, ∀ command ∈ entry.2, IsShown command) :
    (readLines (Text.lines (text targets))).transcript = reading targets := by
  have hstart : feedWritten .start "Build description signature: 0123456789abcdef" =
      ⟨none, false, ⟨[], 1⟩⟩ := by decide
  rw [text_eq_join, lines_join (newline_not_mem_logLines hnames hcommands), readLines,
    List.foldl_map]
  refine (congrArg Reader.transcript (List.foldl_cons ..)).trans ?_
  refine (transcript_foldl_entries _ hnames hcommands).trans ?_
  rw [← feedWritten, hstart, foldl_extend, reading]
  simp only [List.map_map, List.filter_map, List.flatMap_map, Function.comp_def]

theorem targets_reading_eq_nil_iff (targets : List (String × List String)) :
    (reading targets).targets = [] ↔ targets = [] := by
  cases targets <;> simp [reading, List.eraseDups_cons]

theorem totalCommands_reading_eq_zero_iff (targets : List (String × List String)) :
    (reading targets).totalCommands = 0 ↔ ∀ entry ∈ targets, entry.2 = [] := by
  simp only [totalCommands, reading, List.length_eq_zero_iff, List.flatMap_eq_nil_iff,
    List.forall_mem_map, List.mem_eraseDups, List.mem_filter, decide_eq_true_eq, List.map_eq_nil_iff]
  constructor
  · intro h entry hentry
    exact h entry hentry entry ⟨hentry, rfl⟩
  · rintro h _ _ other ⟨hother, -⟩
    exact h other hother

/-- A log of targets, whose names can be read and whose commands are shown, is read as those targets
with those commands. Without a target or without a command there is nothing to replay. -/
theorem ofLines_lines_text (targets : List (String × List String))
    (hnames : ∀ entry ∈ targets, IsPlainName entry.1)
    (hcommands : ∀ entry ∈ targets, ∀ command ∈ entry.2, IsShown command) :
    ofLines (Text.lines (text targets)) =
      if targets = [] then .error .noTargets
      else if ∀ entry ∈ targets, entry.2 = [] then
        .error (.noCommands (targets.map (·.1)).eraseDups.length)
      else .ok (reading targets) := by
  have hlength : (reading targets).targets.length = (targets.map (·.1)).eraseDups.length :=
    List.length_map ..
  rw [ofLines, Reader.finish, transcript_readLines_text hnames hcommands, hlength]
  simp only [targets_reading_eq_nil_iff, totalCommands_reading_eq_zero_iff]

/-- A target that is written twice, around one whose name is hard to tell from what follows it. -/
def twice : List (String × List String) :=
  [("A", ["builtin-SwiftDriver -- /usr/bin/swiftc -module-name A", "/usr/bin/clang -c a.m "]),
    ("B' from", ["cd /b; clang -c b.m; /usr/bin/clang -c c.m"]), ("A", ["/usr/bin/clang -c d.m"])]

theorem ofLines_lines_text_twice : (∀ entry ∈ twice, IsPlainName entry.1) ∧
    (∀ entry ∈ twice, ∀ command ∈ entry.2, IsShown command) ∧
    ofLines (Text.lines (text twice)) = .ok ⟨[("A", [⟨"/usr/bin/swiftc -module-name A", .swiftc⟩,
      ⟨"/usr/bin/clang -c a.m", .clang⟩, ⟨"/usr/bin/clang -c d.m", .clang⟩]),
      ("B' from", [⟨"/b; clang -c b.m; /usr/bin/clang -c c.m", .clang⟩])], 1⟩ := by
  have hnames : ∀ entry ∈ twice, IsPlainName entry.1 := by decide
  have hcommands : ∀ entry ∈ twice, ∀ command ∈ entry.2, IsShown command := by decide
  refine ⟨hnames, hcommands, ?_⟩
  rw [ofLines_lines_text twice hnames hcommands]
  decide

end Fixture.Log

end BitcodeReplay
