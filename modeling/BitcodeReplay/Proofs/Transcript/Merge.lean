import BitcodeReplay.Proofs.Transcript.Reading

/-!
Logs one after the other. Where the second log starts with a header and announces a target before it
shows a command, neither log says anything about the lines of the other: together they hold the
targets of both, each with the commands of the first log and then those of the second.
-/

namespace BitcodeReplay

theorem eraseDups_append_filter {α : Type} [DecidableEq α] (xs ys : List α) :
    (xs ++ ys).eraseDups = xs.eraseDups ++ ys.eraseDups.filter (· ∉ xs) := by
  induction ys using List.reverseRecOn with
  | nil => simp
  | append_singleton ys y ih =>
    rw [← List.append_assoc, eraseDups_concat, eraseDups_concat, ih]
    by_cases hx : y ∈ xs <;> by_cases hy : y ∈ ys <;> simp [hx, hy]

namespace Transcript

/-- The targets of a transcript and then the new ones of another, each with the commands of both. -/
def merge (a b : Transcript) : Transcript where
  targets := a.targets.map (fun p => (p.1, p.2 ++ b.commandsFor p.1)) ++
    b.targets.filter fun p => p.1 ∉ a.targetNames
  buildCount := a.buildCount + b.buildCount

/-- The first line that is not blank opens a block, and a target has been announced where an indented
line shows a command. -/
structure StandsAlone (lines : List String) : Prop where
  opened : ∀ line, (lines.filter fun line => !Line.isBlank line).head? = some line →
    Line.isIndented line = false
  announced : ∀ i line command, lines[i]? = some line → Line.isIndented line = true →
    Line.command? line = some command → announcements (lines.take (i + 1)) ≠ []

variable {xs ys : List String}

theorem headers_append (xs ys : List String) : headers (xs ++ ys) = headers xs ++ headers ys :=
  List.filter_append ..

/-- An indented line that is not blank stands in a block of its own log. -/
theorem StandsAlone.headers_ne_nil (h : StandsAlone ys) {i : Nat} {line : String}
    (hline : ys[i]? = some line) (hblank : Line.isBlank line = false)
    (hindent : Line.isIndented line = true) : headers (ys.take i) ≠ [] := by
  have hwritten : ys.filter (fun line => !Line.isBlank line) =
      (ys.take i).filter (fun line => !Line.isBlank line) ++
        line :: (ys.drop (i + 1)).filter fun line => !Line.isBlank line := by
    obtain ⟨hi, hget⟩ := List.getElem?_eq_some_iff.1 hline
    conv_lhs => rw [← List.take_append_drop i ys, List.drop_eq_getElem_cons hi, hget]
    simp [hblank]
  cases hbefore : (ys.take i).filter fun line => !Line.isBlank line with
  | nil =>
    -- the line would be the first that is not blank
    have hopened := h.opened line (by rw [hwritten, hbefore]; rfl)
    rw [hopened] at hindent
    cases hindent
  | cons first rest =>
    have hopened := h.opened first (by rw [hwritten, hbefore]; rfl)
    have hfirst : first ∈ (ys.take i).filter fun line => !Line.isBlank line := by simp [hbefore]
    obtain ⟨hmem, hnotblank⟩ := List.mem_filter.1 hfirst
    exact List.ne_nil_of_mem (List.mem_filter.2 ⟨hmem, by simpa [hopened] using hnotblank⟩)

/-- Behind another log, a line contributes what it contributes in its own. -/
theorem StandsAlone.contribution?_append_right (h : StandsAlone ys) (xs : List String) (i : Nat) :
    contribution? (xs ++ ys) (xs.length + i) = contribution? ys i := by
  have hline : (xs ++ ys)[xs.length + i]? = ys[i]? := by
    rw [List.getElem?_append_right (Nat.le_add_right _ _), Nat.add_sub_cancel_left]
  have htake : ∀ k, (xs ++ ys).take (xs.length + k) = xs ++ ys.take k := fun k => by
    rw [List.take_length_add_append]
  simp only [contribution?, hline, htake, Nat.add_assoc, headers_append, announcements_append]
  cases hi : ys[i]? with
  | none => rfl
  | some line =>
    simp only [Option.bind_some]
    by_cases hcond : Line.isBlank line = false ∧ Line.isIndented line = true
    · obtain ⟨hblank, hindent⟩ := hcond
      have hheaders := h.headers_ne_nil hi hblank hindent
      rw [List.getLast?_append_of_ne_nil _ hheaders]
      cases hc : Line.command? line with
      | none => simp
      | some command =>
        rw [List.getLast?_append_of_ne_nil _ (h.announced i line command hi hindent hc)]
    · have hno : (!Line.isBlank line && Line.isIndented line) = false := by
        cases hb : Line.isBlank line <;> simp_all
      simp [hno]

theorem StandsAlone.contributions_append (h : StandsAlone ys) (xs : List String) :
    contributions (xs ++ ys) = contributions xs ++ contributions ys := by
  have hfirst : (List.range xs.length).filterMap (contribution? (xs ++ ys)) = contributions xs :=
    List.filterMap_congr fun i hi => contribution?_append xs ys (List.mem_range.1 hi)
  have hsecond : ((List.range ys.length).map (xs.length + ·)).filterMap (contribution? (xs ++ ys)) =
      contributions ys := by
    rw [List.filterMap_map]
    exact List.filterMap_congr fun i _ => h.contribution?_append_right xs i
  rw [contributions, List.length_append, List.range_add, List.filterMap_append, hfirst, hsecond]

theorem StandsAlone.commandsOf_append (h : StandsAlone ys) (xs : List String) (target : String) :
    commandsOf (xs ++ ys) target = commandsOf xs target ++ commandsOf ys target := by
  rw [commandsOf, h.contributions_append, List.filterMap_append]
  rfl

theorem announcedTargets_append (xs ys : List String) : announcedTargets (xs ++ ys) =
    announcedTargets xs ++ (announcedTargets ys).filter (· ∉ announcedTargets xs) := by
  simp only [announcedTargets, announcements_append, eraseDups_append_filter, List.mem_eraseDups]

theorem commandsFor_reading (lines : List String) (target : String) :
    (reading lines).commandsFor target = commandsOf lines target := by
  rw [commandsFor]
  by_cases hmem : target ∈ announcedTargets lines
  · have hnames : ((reading lines).targets.map (·.1)).Nodup := by
      rw [← targetNames, targetNames_reading]
      exact nodup_announcedTargets lines
    have hentry : (target, commandsOf lines target) ∈ (reading lines).targets :=
      List.mem_map.2 ⟨target, hmem, rfl⟩
    rw [lookup_of_mem hnames hentry, Option.getD_some]
  · have hnone : (reading lines).targets.lookup target = none := by
      rw [List.lookup_eq_none_iff]
      intro p hp
      obtain ⟨name, hname, rfl⟩ := List.mem_map.1 hp
      have hne : target ≠ name := fun he => hmem (he ▸ hname)
      simpa using hne
    rw [hnone, Option.getD_none,
      commandsOf_eq_nil fun hannounced => hmem (List.mem_eraseDups.2 hannounced)]

/-- Every command of a transcript is shown by a line. -/
theorem exists_command?_of_mem {lines : List String} {t : Transcript} {target : String}
    {command : CapturedCommand} (ht : ofLines lines = .ok t) (hc : command ∈ t.commandsFor target) :
    ∃ line ∈ lines, Line.command? line = some command := by
  obtain ⟨rfl, -, -⟩ := finish_eq_ok_iff.1 ht
  rw [(knows_readLines lines).transcript, commandsFor_reading] at hc
  obtain ⟨⟨name, c⟩, hmem, hname⟩ := List.mem_filterMap.1 hc
  obtain ⟨i, -, hi⟩ := List.mem_filterMap.1 hmem
  obtain ⟨line, hline, -, -, hcommand⟩ := ((contribution?_eq_some_iff _ _ _ _).1 hi).shown
  obtain rfl : c = command := by
    split at hname
    · exact Option.some.inj hname
    · cases hname
  exact ⟨line, List.mem_of_getElem? hline, hcommand⟩

theorem StandsAlone.reading_append (h : StandsAlone ys) (xs : List String) :
    reading (xs ++ ys) = (reading xs).merge (reading ys) := by
  have hold : (announcedTargets xs).map (fun n => (n, commandsOf (xs ++ ys) n)) =
      (reading xs).targets.map fun p => (p.1, p.2 ++ (reading ys).commandsFor p.1) := by
    simp only [commandsFor_reading, h.commandsOf_append]
    rw [reading, List.map_map]
    rfl
  have hnew : ((announcedTargets ys).filter (· ∉ announcedTargets xs)).map
      (fun n => (n, commandsOf (xs ++ ys) n)) =
      (reading ys).targets.filter fun p => p.1 ∉ (reading xs).targetNames := by
    rw [targetNames_reading]
    simp only [reading]
    rw [List.filter_map]
    refine List.map_congr_left fun n hn => ?_
    have hnot : n ∉ announcedTargets xs := by simpa using (List.mem_filter.1 hn).2
    have hnone : commandsOf xs n = [] :=
      commandsOf_eq_nil fun hannounced => hnot (List.mem_eraseDups.2 hannounced)
    rw [h.commandsOf_append, hnone, List.nil_append]
  rw [reading, announcedTargets_append, List.map_append, hold, hnew, List.countP_append]
  rfl

theorem totalCommands_merge_ne_zero {a : Transcript} (h : a.totalCommands ≠ 0) (b : Transcript) :
    (a.merge b).totalCommands ≠ 0 := by
  simp only [totalCommands, ne_eq, List.length_eq_zero_iff, List.flatMap_eq_nil_iff, not_forall] at h ⊢
  obtain ⟨p, hp, hcommands⟩ := h
  exact ⟨_, List.mem_append_left _ (List.mem_map.2 ⟨p, hp, rfl⟩), by simp [hcommands]⟩

/-- A log that stands alone adds to the transcript of the log before it what it says by itself. If both
logs have a transcript, their lines together have the merged one. -/
theorem readLines_append_eq_merge (xs ys : List String) (h : StandsAlone ys) :
    (readLines (xs ++ ys)).transcript = (readLines xs).transcript.merge (readLines ys).transcript ∧
      ∀ a b, ofLines xs = .ok a → ofLines ys = .ok b → ofLines (xs ++ ys) = .ok (a.merge b) := by
  have hmerge : (readLines (xs ++ ys)).transcript =
      (readLines xs).transcript.merge (readLines ys).transcript := by
    rw [(knows_readLines _).transcript, (knows_readLines xs).transcript,
      (knows_readLines ys).transcript, h.reading_append]
  refine ⟨hmerge, fun a b ha hb => ?_⟩
  obtain ⟨ha, htargets, hcommands⟩ := finish_eq_ok_iff.1 ha
  obtain ⟨hb, -, -⟩ := finish_eq_ok_iff.1 hb
  rw [ha, hb] at hmerge
  refine finish_eq_ok_iff.2 ⟨hmerge, ?_, totalCommands_merge_ne_zero hcommands b⟩
  simp [merge, htargets]

/-- The log of a build. -/
def firstLog : List String :=
  ["Build description signature: 1",
    "CompileC /o/a.o /s/a.m normal arm64 objective-c (in target 'A' from project 'P')",
    "    /usr/bin/clang -c /s/a.m"]

/-- The log of a later build, with a new target and one that has been built before. -/
def laterLog : List String :=
  ["", "Build description signature: 2",
    "CompileC /o/b.o /s/b.m normal arm64 objective-c (in target 'B' from project 'P')",
    "    /usr/bin/clang -c /s/b.m",
    "CompileC /o/c.o /s/c.m normal arm64 objective-c (in target 'A' from project 'P')",
    "    /usr/bin/clang -c /s/c.m"]

theorem standsAlone_laterLog : StandsAlone laterLog where
  opened := by
    intro line hline
    have hfirst : (laterLog.filter fun line => !Line.isBlank line).head? =
        some "Build description signature: 2" := by decide
    rw [hfirst] at hline
    cases hline
    decide
  announced := by
    intro i line command hline hindent _
    -- the first two lines are not indented, and the third announces a target
    have hlate : 3 ≤ i := by
      by_contra hlt
      have hi : i = 0 ∨ i = 1 ∨ i = 2 := by omega
      rcases hi with rfl | rfl | rfl <;> cases hline <;> exact absurd hindent (by decide)
    have htake : laterLog.take (i + 1) = laterLog.take 3 ++ (laterLog.drop 3).take (i - 2) := by
      rw [← List.take_add]
      congr 1
      omega
    have hannounced : announcements (laterLog.take 3) = ["B"] := by decide
    rw [htake, announcements_append, hannounced]
    simp

theorem readLines_append_eq_merge_rebuilt : StandsAlone laterLog ∧
    ofLines (firstLog ++ laterLog) = .ok ⟨[("A", [⟨"/usr/bin/clang -c /s/a.m", .clang⟩,
      ⟨"/usr/bin/clang -c /s/c.m", .clang⟩]), ("B", [⟨"/usr/bin/clang -c /s/b.m", .clang⟩])], 2⟩ := by
  have hfirst : ofLines firstLog = .ok ⟨[("A", [⟨"/usr/bin/clang -c /s/a.m", .clang⟩])], 1⟩ := by
    decide
  have hlater : ofLines laterLog = .ok ⟨[("B", [⟨"/usr/bin/clang -c /s/b.m", .clang⟩]),
      ("A", [⟨"/usr/bin/clang -c /s/c.m", .clang⟩])], 1⟩ := by decide
  refine ⟨standsAlone_laterLog, ?_⟩
  rw [(readLines_append_eq_merge firstLog laterLog standsAlone_laterLog).2 _ _ hfirst hlater]
  decide

end Transcript

end BitcodeReplay
