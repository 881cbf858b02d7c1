import BitcodeReplay.Proofs.Invocation

/-!
Which words of a command line become arguments. A flag that a family drops wherever it stands makes no
difference; an output flag takes itself and the word after it away; and an output file map is missing
only where the first flag that names one is the last word.
-/

namespace BitcodeReplay.Invocation

/-- The flags that a family drops without looking at the words around them. -/
def dropped : Compiler → List String
  | .clang => strippedFlags
  | .swiftc => strippedFlags ++ embedFlags .swiftc

/-- Each word with the one before it, after some word or none. -/
def withPrevious (before : Option String) (words : List String) : List (Option String × String) :=
  (before :: words.map some).zip words

/-- The words that stand alone: neither output flags nor embedding flags, and not right after an output
flag. -/
def unattached (before : Option String) (words : List String) : List String :=
  ((withPrevious before words).filter fun pair =>
    pair.1 ≠ some outputFlag ∧ pair.2 ≠ outputFlag ∧ pair.2 ∉ embedFlags .clang).map (·.2)

/-- The first map flag is the last word. -/
def EndsAtMap (words : List String) : Prop := ∃ front, mapFlag ∉ front ∧ words = front ++ [mapFlag]

variable {compiler : Compiler} {before : Option String} {program path text : String}
  {words words' : List String} {failure : Failure}

/-! ### Around output flags -/

@[simp] theorem unattached_nil : unattached before [] = [] := rfl

theorem unattached_cons {word : String} : unattached before (word :: words) =
    if before ≠ some outputFlag ∧ word ≠ outputFlag ∧ word ∉ embedFlags .clang then
      word :: unattached (some word) words
    else unattached (some word) words := by
  rw [unattached, withPrevious, List.map_cons, List.zip_cons_cons, List.filter_cons]
  simp only [decide_eq_true_eq]
  split <;> rfl

/-- What stands before matters to the first word only, which goes if that is an output flag. -/
theorem unattached_after_output :
    (unattached (some outputFlag) words).Sublist (unattached before words) := by
  cases words with
  | nil => exact List.Sublist.refl _
  | cons word rest =>
    rw [unattached_cons, if_neg fun h => h.1 rfl, unattached_cons]
    split
    · exact List.sublist_cons_self _ _
    · exact List.Sublist.refl _

theorem withoutOutput_sublist (words : List String) : (withoutOutput words).Sublist words := by
  fun_induction withoutOutput words with
  | case1 => exact List.Sublist.refl _
  | case2 => exact List.nil_sublist _
  | case3 => exact List.Sublist.refl _
  | case4 next rest ih => exact (ih.cons next).cons outputFlag
  | case5 first next rest _ _ ih => exact ih.cons first
  | case6 first next rest _ _ ih => exact ih.cons_cons first

/-- Words that stand alone stay, each as often as it occurs. -/
theorem unattached_sublist_withoutOutput (h : before ≠ some outputFlag) :
    (unattached before words).Sublist (withoutOutput words) := by
  fun_induction withoutOutput words generalizing before with
  | case1 => exact List.Sublist.refl _
  | case2 word hword =>
    rw [unattached_cons, if_neg fun hfree => hword.elim hfree.2.1 hfree.2.2]
    exact List.Sublist.refl _
  | case3 word hword =>
    rw [not_or] at hword
    rw [unattached_cons, if_pos ⟨h, hword⟩]
    exact List.Sublist.refl _
  | case4 next rest ih =>
    -- the word after the flag goes too, and may itself be an output flag
    rw [unattached_cons, if_neg fun hfree => hfree.2.1 rfl, unattached_cons,
      if_neg fun hfree => hfree.1 rfl]
    by_cases hnext : next = outputFlag
    · rw [hnext]
      exact unattached_after_output.trans (ih (Option.some_ne_none outputFlag).symm)
    · exact ih fun heq => hnext (Option.some.inj heq)
  | case5 word next rest hword hembed ih =>
    rw [unattached_cons, if_neg fun hfree => hfree.2.2 hembed]
    exact ih fun heq => hword (Option.some.inj heq)
  | case6 word next rest hword hembed ih =>
    rw [unattached_cons, if_pos ⟨h, hword, hembed⟩]
    exact (ih fun heq => hword (Option.some.inj heq)).cons_cons word

/-! ### The output file map -/

theorem mapPath_cons_of_ne {word : String} (h : word ≠ mapFlag) :
    mapPath (word :: words) = mapPath words := by
  cases words <;> simp [mapPath, h]

theorem mapPath_append {front : List String} (h : mapFlag ∉ front) (rest : List String) :
    mapPath (front ++ rest) = mapPath rest := by
  induction front with
  | nil => rfl
  | cons word front ih =>
    rw [List.mem_cons, not_or] at h
    rw [List.cons_append, mapPath_cons_of_ne (Ne.symm h.1), ih h.2]

theorem EndsAtMap.mapPath_eq (h : EndsAtMap words) : mapPath words = .error .missingMapPath := by
  obtain ⟨front, hfront, rfl⟩ := h
  rw [mapPath_append hfront]
  rfl

theorem mapPath_around {front rest : List String} (h : mapFlag ∉ front) :
    mapPath (front ++ mapFlag :: path :: rest) = .ok (some path) := by
  rw [mapPath_append h]
  rfl

/-- The three ways in which words name an output file map. -/
theorem mapPath_cases (words : List String) :
    (mapFlag ∉ words ∧ mapPath words = .ok none) ∨ EndsAtMap words ∨
      ∃ front path rest, mapFlag ∉ front ∧ words = front ++ mapFlag :: path :: rest := by
  by_cases hmem : mapFlag ∈ words
  · obtain ⟨front, rest, rfl, hfront⟩ := List.eq_append_cons_of_mem hmem
    cases rest with
    | nil => exact .inr (.inl ⟨front, hfront, rfl⟩)
    | cons path rest => exact .inr (.inr ⟨front, path, rest, hfront, rfl⟩)
  · refine .inl ⟨hmem, ?_⟩
    have happend := mapPath_append hmem []
    rwa [List.append_nil] at happend

theorem mapPath_eq_error_iff :
    mapPath words = .error failure ↔ EndsAtMap words ∧ failure = .missingMapPath := by
  constructor
  · intro h
    rcases mapPath_cases words with ⟨-, hnone⟩ | hend | ⟨front, path, rest, hfront, rfl⟩
    · rw [hnone] at h
      cases h
    · rw [hend.mapPath_eq] at h
      cases h
      exact ⟨hend, rfl⟩
    · rw [mapPath_around hfront] at h
      cases h
  · rintro ⟨hend, rfl⟩
    exact hend.mapPath_eq

theorem mapPath_eq_some_iff : mapPath words = .ok (some path) ↔
    ∃ front rest, mapFlag ∉ front ∧ words = front ++ mapFlag :: path :: rest := by
  constructor
  · intro h
    rcases mapPath_cases words with ⟨-, hnone⟩ | hend | ⟨front, first, rest, hfront, rfl⟩
    · rw [hnone] at h
      cases h
    · rw [hend.mapPath_eq] at h
      cases h
    · rw [mapPath_around hfront] at h
      cases h
      exact ⟨front, rest, hfront, rfl⟩
  · rintro ⟨front, rest, hfront, rfl⟩
    exact mapPath_around hfront

/-! ### Invocations -/

theorem ensure_eq (flag : String) (words : List String) :
    ensure flag words = words ++ if flag ∈ words then [] else [flag] := by
  by_cases h : flag ∈ words <;> simp [ensure, h]

theorem filter_dropped_swiftc (words : List String) : words.filter (· ∉ dropped .swiftc) =
    (words.filter (· ∉ strippedFlags)).filter (· ∉ embedFlags .swiftc) := by
  rw [List.filter_filter]
  refine List.filter_congr fun word _ => ?_
  simp [dropped, not_or, Bool.and_comm]

/-- A family looks only at the words that it does not drop. -/
theorem adapt_filter_dropped (compiler : Compiler) (words : List String) :
    adapt compiler (words.filter (· ∉ strippedFlags)) =
      adapt compiler (words.filter (· ∉ dropped compiler)) := by
  cases compiler with
  | clang => rfl
  | swiftc =>
    simp only [adapt, filter_dropped_swiftc]
    rw [List.filter_filter]
    simp

theorem ofCaptured_of_split (h : ShellWords.split? text = some (program :: words)) :
    ofCaptured ⟨text, compiler⟩ = (adapt compiler (words.filter (· ∉ dropped compiler))).map
      fun adapted => ⟨program, adapted.1, compiler, adapted.2⟩ := by
  rw [ofCaptured]
  simp only [h]
  rw [ofWords, adapt_filter_dropped]

theorem adapt_swiftc (words : List String) : adapt .swiftc (words.filter (· ∉ dropped .swiftc)) =
    (mapPath (words.filter (· ∉ dropped .swiftc))).map fun path =>
      (ensure (bitcodeFlag .swiftc) (words.filter (· ∉ dropped .swiftc)), path) := by
  have hkept : (words.filter (· ∉ dropped .swiftc)).filter (· ∉ embedFlags .swiftc) =
      words.filter (· ∉ dropped .swiftc) := by
    rw [filter_dropped_swiftc, List.filter_filter]
    simp
  rw [adapt]
  simp only [hkept]

/-- A line of words for the one family always gives an invocation. -/
theorem ofCaptured_clang (h : ShellWords.split? text = some (program :: words)) :
    ofCaptured ⟨text, .clang⟩ = .ok ⟨program, ensure (bitcodeFlag .clang)
      (withoutOutput (words.filter (· ∉ dropped .clang))), .clang, none⟩ := ofCaptured_of_split h

theorem ofCaptured_swiftc_eq_error_iff (h : ShellWords.split? text = some (program :: words)) :
    ofCaptured ⟨text, .swiftc⟩ = .error failure ↔
      EndsAtMap (words.filter (· ∉ dropped .swiftc)) ∧ failure = .missingMapPath := by
  rw [ofCaptured_of_split h, adapt_swiftc, ← mapPath_eq_error_iff]
  cases mapPath (words.filter (· ∉ dropped .swiftc)) <;> simp [Except.map]

theorem ofCaptured_swiftc {found : Option String}
    (h : ShellWords.split? text = some (program :: words))
    (hfound : mapPath (words.filter (· ∉ dropped .swiftc)) = .ok found) :
    ofCaptured ⟨text, .swiftc⟩ = .ok ⟨program, ensure (bitcodeFlag .swiftc)
      (words.filter (· ∉ dropped .swiftc)), .swiftc, found⟩ := by
  rw [ofCaptured_of_split h, adapt_swiftc, hfound]
  rfl

/-- A captured command fails if its text does not split into words or holds none, and for the family
that names an output file map also if the first flag for that is the last word. -/
theorem ofCaptured_eq_error_iff {command : CapturedCommand} :
    ofCaptured command = .error failure ↔
      (ShellWords.split? command.text = none ∧ failure = .unsplittable command.text) ∨
      (ShellWords.split? command.text = some [] ∧ failure = .empty) ∨
      (command.compiler = .swiftc ∧ failure = .missingMapPath ∧
        ∃ program words, ShellWords.split? command.text = some (program :: words) ∧
          EndsAtMap (words.filter (· ∉ dropped .swiftc))) := by
  obtain ⟨text, compiler⟩ := command
  cases hsplit : ShellWords.split? text with
  | none => simp [ofCaptured, hsplit, eq_comm]
  | some split =>
    cases split with
    | nil => simp [ofCaptured, hsplit, ofWords, eq_comm]
    | cons program words =>
      cases compiler with
      | clang => simp [ofCaptured_clang hsplit]
      | swiftc =>
        rw [ofCaptured_swiftc_eq_error_iff hsplit]
        simp [and_comm]

/-- Of the words after the program, clang keeps, in order, all that stand alone, and none of the flags
that it drops; swiftc keeps all but those flags, and fails if the first map flag is the last word then.
Both add the flag for bitcode at the end, unless it is there. Lines that differ by dropped flags only
give the same, and nothing else fails but a text that does not split or that holds no words. -/
theorem ofCaptured_arguments (text : String) :
    (∀ program words, ShellWords.split? text = some (program :: words) →
      (∃ i, ofCaptured ⟨text, .clang⟩ = .ok i ∧ i.program = program ∧ i.outputFileMap = none ∧
        (∀ word ∈ i.arguments,
          word ∉ strippedFlags ∧ word ∉ embedFlags .clang ∧ word ≠ outputFlag) ∧
        bitcodeFlag .clang ∈ i.arguments ∧
        ∃ kept, kept.Sublist words ∧
          (unattached none (words.filter (· ∉ strippedFlags))).Sublist kept ∧
          i.arguments = kept ++ if bitcodeFlag .clang ∈ kept then [] else [bitcodeFlag .clang]) ∧
      ((∃ failure, ofCaptured ⟨text, .swiftc⟩ = .error failure) ↔
        EndsAtMap (words.filter (· ∉ dropped .swiftc))) ∧
      (¬ EndsAtMap (words.filter (· ∉ dropped .swiftc)) →
        ∃ i, ofCaptured ⟨text, .swiftc⟩ = .ok i ∧ i.program = program ∧
          i.arguments = words.filter (· ∉ dropped .swiftc) ++
            (if bitcodeFlag .swiftc ∈ words.filter (· ∉ dropped .swiftc) then []
            else [bitcodeFlag .swiftc]) ∧
          ∀ path, i.outputFileMap = some path ↔ ∃ front rest, mapFlag ∉ front ∧
            words.filter (· ∉ dropped .swiftc) = front ++ mapFlag :: path :: rest)) ∧
    (∀ compiler text' program words words',
      ShellWords.split? text = some (program :: words) →
      ShellWords.split? text' = some (program :: words') →
      words.filter (· ∉ dropped compiler) = words'.filter (· ∉ dropped compiler) →
      ofCaptured ⟨text, compiler⟩ = ofCaptured ⟨text', compiler⟩) ∧
    ∀ compiler failure, ofCaptured ⟨text, compiler⟩ = .error failure ↔
      (ShellWords.split? text = none ∧ failure = .unsplittable text) ∨
      (ShellWords.split? text = some [] ∧ failure = .empty) ∨
      (compiler = .swiftc ∧ failure = .missingMapPath ∧
        ∃ program words, ShellWords.split? text = some (program :: words) ∧
          EndsAtMap (words.filter (· ∉ dropped .swiftc))) := by
  refine ⟨fun program words hsplit => ⟨?_, ?_, fun hnot => ?_⟩,
    fun compiler text' program words words' hsplit hsplit' hwords => ?_,
    fun compiler failure => ofCaptured_eq_error_iff⟩
  · have hstripped : ∀ word ∈ words.filter (· ∉ strippedFlags), word ∉ strippedFlags :=
      fun word hword => by simpa using List.of_mem_filter hword
    have hadapt : adapt .clang (words.filter (· ∉ strippedFlags)) = .ok (ensure (bitcodeFlag .clang)
        (withoutOutput (words.filter (· ∉ strippedFlags))), none) := rfl
    have hadapted := isAdapted_adapt hstripped hadapt
    refine ⟨_, ofCaptured_clang hsplit, rfl, rfl, fun word hword => ?_, hadapted.flag,
      withoutOutput (words.filter (· ∉ strippedFlags)), ?_, ?_, ensure_eq _ _⟩
    · refine ⟨hadapted.stripped word hword, hadapted.embedding word hword, ?_⟩
      rintro rfl
      exact hadapted.output rfl hword
    · exact (withoutOutput_sublist _).trans List.filter_sublist
    · exact unattached_sublist_withoutOutput (Option.some_ne_none outputFlag).symm
  · simp [ofCaptured_swiftc_eq_error_iff hsplit]
  · cases hfound : mapPath (words.filter (· ∉ dropped .swiftc)) with
    | error failure => exact absurd (mapPath_eq_error_iff.1 hfound).1 hnot
    | ok found =>
      refine ⟨_, ofCaptured_swiftc hsplit hfound, rfl, ensure_eq _ _, fun path => ?_⟩
      rw [← mapPath_eq_some_iff, hfound]
      exact Except.ok.injEq _ _ ▸ Iff.rfl
  · rw [ofCaptured_of_split hsplit, ofCaptured_of_split hsplit', hwords]

/-- An output flag that takes another one, with a dropped flag in between, one at the end, and a path
that comes after its flag once an embedding flag is gone. -/
def mixedLine : String :=
  "cc -o -parseable-output -o a.c b.c -output-file-map -embed-bitcode m -o"

theorem ofCaptured_arguments_mixed :
    (∃ i, ofCaptured ⟨mixedLine, .clang⟩ = .ok i ∧
      ["b.c", "-output-file-map", "-embed-bitcode", "m"].Sublist i.arguments) ∧
    (∃ i, ofCaptured ⟨mixedLine, .swiftc⟩ = .ok i ∧
      i.arguments = ["-o", "-o", "a.c", "b.c", "-output-file-map", "m", "-o", "-emit-bc"]) ∧
    ofCaptured ⟨mixedLine, .swiftc⟩ =
      ofCaptured ⟨"cc -o -o a.c b.c -output-file-map m -o", .swiftc⟩ := by
  obtain ⟨hwords, hsame, -⟩ := ofCaptured_arguments mixedLine
  have hsplit : ShellWords.split? mixedLine =
      some ["cc", "-o", "-parseable-output", "-o", "a.c", "b.c", "-output-file-map",
        "-embed-bitcode", "m", "-o"] := by decide
  obtain ⟨⟨i, hclang, -, -, -, -, kept, -, hkept, hargs⟩, -, hswiftc⟩ := hwords _ _ hsplit
  refine ⟨⟨i, hclang, ?_⟩, ?_, ?_⟩
  · rw [hargs]
    exact (List.Sublist.trans (by decide) hkept).trans (List.sublist_append_left _ _)
  · obtain ⟨i, hi, -, hargs, -⟩ := hswiftc fun h => absurd h.mapPath_eq (by decide)
    exact ⟨i, hi, hargs.trans (by decide)⟩
  · exact hsame .swiftc _ "cc" _ ["-o", "-o", "a.c", "b.c", "-output-file-map", "m", "-o"] hsplit
      (by decide) (by decide)

end BitcodeReplay.Invocation
