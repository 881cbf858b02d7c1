import BitcodeReplay.Invocation
import BitcodeReplay.Proofs.Text.ShellWords

/-!
What an invocation keeps of a command line. One pass over the words drops all there is to drop and
adds the family's flag, so a second pass changes nothing; and since quoting loses no word, writing
an invocation as a line and reading the line again gives the invocation back.
-/

namespace BitcodeReplay.Invocation

variable {compiler : Compiler} {word : String} {words args : List String} {path : Option String}

/-! ### The flags -/

theorem mem_ensure : word ∈ ensure word words := by
  rw [ensure]
  split
  · next h => simpa using h
  · simp

theorem mem_of_mem_ensure {flag : String} (h : word ∈ ensure flag words) :
    word ∈ words ∨ word = flag := by
  rw [ensure] at h
  split at h
  · exact .inl h
  · simpa using h

theorem ensure_of_mem (h : word ∈ words) : ensure word words = words := by
  rw [ensure, if_pos (by simpa using h)]

/-- Of the words around output flags only others stay. -/
theorem mem_withoutOutput (h : word ∈ withoutOutput words) :
    word ∈ words ∧ word ≠ outputFlag ∧ word ∉ embedFlags .clang := by
  fun_induction withoutOutput words with
  | case1 => cases h
  | case2 last _ => cases h
  | case3 last hlast =>
    rw [not_or] at hlast
    obtain rfl := List.mem_singleton.1 h
    exact ⟨h, hlast⟩
  | case4 next rest ih =>
    obtain ⟨hmem, hother⟩ := ih h
    exact ⟨List.mem_cons_of_mem _ (List.mem_cons_of_mem _ hmem), hother⟩
  | case5 first next rest _ _ ih =>
    obtain ⟨hmem, hother⟩ := ih h
    exact ⟨List.mem_cons_of_mem _ hmem, hother⟩
  | case6 first next rest houtput hembed ih =>
    rcases List.mem_cons.1 h with rfl | h
    · exact ⟨List.mem_cons_self, houtput, hembed⟩
    · obtain ⟨hmem, hother⟩ := ih h
      exact ⟨List.mem_cons_of_mem _ hmem, hother⟩

/-- Without flags to drop all words stay. -/
theorem withoutOutput_eq_self (houtput : outputFlag ∉ words)
    (hembed : ∀ word ∈ words, word ∉ embedFlags .clang) : withoutOutput words = words := by
  fun_induction withoutOutput words with
  | case1 => rfl
  | case2 last hlast =>
    rcases hlast with rfl | hlast
    · exact absurd List.mem_cons_self houtput
    · exact absurd hlast (hembed last List.mem_cons_self)
  | case3 last _ => rfl
  | case4 next rest ih => exact absurd List.mem_cons_self houtput
  | case5 first next rest _ hfirst ih => exact absurd hfirst (hembed first List.mem_cons_self)
  | case6 first next rest _ _ ih =>
    rw [ih (fun h => houtput (List.mem_cons_of_mem _ h))
      fun word h => hembed word (List.mem_cons_of_mem _ h)]

/-- A word at the end does not change the path after the first map flag. -/
theorem mapPath_concat (h : mapPath words = .ok path) (hword : word ≠ mapFlag) :
    mapPath (words ++ [word]) = .ok path := by
  induction words with
  | nil =>
    cases h
    simp [mapPath, hword]
  | cons first rest ih =>
    by_cases hfirst : first = mapFlag
    · cases rest with
      | nil => simp [mapPath, hfirst] at h
      | cons next rest => simpa [mapPath, hfirst] using h
    · simp only [mapPath, if_neg hfirst] at h
      simpa only [List.cons_append, mapPath, if_neg hfirst] using ih h

theorem mapPath_ensure {flag : String} (h : mapPath words = .ok path) (hflag : flag ≠ mapFlag) :
    mapPath (ensure flag words) = .ok path := by
  rw [ensure]
  split
  · exact h
  · exact mapPath_concat h hflag

/-! ### Arguments that have been adapted -/

theorem map_eq_ok {ε α β : Type} {f : α → β} {x : Except ε α} {b : β} (h : x.map f = .ok b) :
    ∃ a, x = .ok a ∧ f a = b := by
  cases x with
  | error e => cases h
  | ok a => exact ⟨a, rfl, Except.ok.inj h⟩

/-- Arguments with the flag of their family and without any that it drops. -/
structure IsAdapted (compiler : Compiler) (args : List String) : Prop where
  stripped : ∀ word ∈ args, word ∉ strippedFlags
  embedding : ∀ word ∈ args, word ∉ embedFlags compiler
  output : compiler = .clang → outputFlag ∉ args
  flag : bitcodeFlag compiler ∈ args

theorem isAdapted_ensure (hstripped : ∀ word ∈ words, word ∉ strippedFlags)
    (hembedding : ∀ word ∈ words, word ∉ embedFlags compiler)
    (houtput : compiler = .clang → outputFlag ∉ words) :
    IsAdapted compiler (ensure (bitcodeFlag compiler) words) where
  stripped := by
    intro word hword
    rcases mem_of_mem_ensure hword with hword | rfl
    · exact hstripped word hword
    · cases compiler <;> decide
  embedding := by
    intro word hword
    rcases mem_of_mem_ensure hword with hword | rfl
    · exact hembedding word hword
    · cases compiler <;> decide
  output := by
    intro hclang hmem
    rcases mem_of_mem_ensure hmem with hmem | heq
    · exact houtput hclang hmem
    · subst hclang
      exact absurd heq (by decide)
  flag := mem_ensure

theorem isAdapted_adapt (hstripped : ∀ word ∈ words, word ∉ strippedFlags)
    (h : adapt compiler words = .ok (args, path)) : IsAdapted compiler args := by
  cases compiler with
  | clang =>
    cases h
    refine isAdapted_ensure (fun word hword => ?_) (fun word hword => ?_) fun _ hmem => ?_
    · exact hstripped word (mem_withoutOutput hword).1
    · exact (mem_withoutOutput hword).2.2
    · exact (mem_withoutOutput hmem).2.1 rfl
  | swiftc =>
    obtain ⟨found, -, hargs⟩ := map_eq_ok h
    cases hargs
    refine isAdapted_ensure (fun word hword => ?_) (fun word hword => ?_) (by simp)
    · exact hstripped word (List.mem_of_mem_filter hword)
    · simpa using List.of_mem_filter hword

/-- What has been adapted once stays as it is. -/
theorem adapt_adapt (hstripped : ∀ word ∈ words, word ∉ strippedFlags)
    (h : adapt compiler words = .ok (args, path)) : adapt compiler args = .ok (args, path) := by
  have hargs := isAdapted_adapt hstripped h
  cases compiler with
  | clang =>
    obtain rfl : none = path := by
      cases h
      rfl
    rw [adapt, withoutOutput_eq_self (hargs.output rfl) hargs.embedding, ensure_of_mem hargs.flag]
  | swiftc =>
    have hkept : args.filter (· ∉ embedFlags .swiftc) = args :=
      List.filter_eq_self.2 fun word hword => decide_eq_true (hargs.embedding word hword)
    have hpath : mapPath args = .ok path := by
      obtain ⟨found, hfound, hpair⟩ := map_eq_ok h
      cases hpair
      exact mapPath_ensure hfound (by decide)
    simp only [adapt, hkept, hpath, ensure_of_mem hargs.flag]
    rfl

/-! ### Lines -/

theorem ofWords_program_arguments {i : Invocation} (h : ofWords compiler words = .ok i) :
    i.compiler = compiler ∧ ofWords compiler (i.program :: i.arguments) = .ok i := by
  cases words with
  | nil => cases h
  | cons program rest =>
    obtain ⟨⟨args, path⟩, hadapt, rfl⟩ := map_eq_ok h
    have hstripped : ∀ word ∈ rest.filter (· ∉ strippedFlags), word ∉ strippedFlags :=
      fun word hword => by simpa using List.of_mem_filter hword
    have hkept : args.filter (· ∉ strippedFlags) = args :=
      List.filter_eq_self.2 fun word hword =>
        decide_eq_true ((isAdapted_adapt hstripped hadapt).stripped word hword)
    refine ⟨rfl, ?_⟩
    rw [ofWords]
    simp only [hkept, adapt_adapt hstripped hadapt]
    rfl

theorem compiler_of_ofCaptured {command : CapturedCommand} {i : Invocation}
    (h : ofCaptured command = .ok i) : i.compiler = command.compiler := by
  rw [ofCaptured] at h
  split at h
  · cases h
  · exact (ofWords_program_arguments h).1

/-- An invocation can be written as a line unless it holds a NUL, and reading that line again gives
the same invocation. -/
theorem ofCaptured_commandLine {command : CapturedCommand} {i : Invocation}
    (h : ofCaptured command = .ok i) :
    (i.commandLine = .error .unquotable ↔
      ∃ word ∈ i.program :: i.arguments, '\x00' ∈ word.toList) ∧
    ((∀ word ∈ i.program :: i.arguments, '\x00' ∉ word.toList) →
      ∃ line, i.commandLine = .ok line ∧ ofCaptured ⟨line, command.compiler⟩ = .ok i) := by
  rw [← ShellWords.join?_eq_none_iff, commandLine]
  constructor
  · cases ShellWords.join? (i.program :: i.arguments) <;> simp
  · intro hquotable
    cases hjoin : ShellWords.join? (i.program :: i.arguments) with
    | none =>
      obtain ⟨word, hword, hnul⟩ := ShellWords.join?_eq_none_iff.1 hjoin
      exact absurd hnul (hquotable word hword)
    | some line =>
      refine ⟨line, rfl, ?_⟩
      rw [ofCaptured] at h
      split at h
      · cases h
      · rw [ofCaptured]
        simp only [ShellWords.split?_of_join? hjoin]
        exact (ofWords_program_arguments h).2

/-- An output flag takes another one with it, and a word needs three styles of quoting. -/
theorem ofCaptured_commandLine_clang :
    ofCaptured ⟨"clang -o -o '' \"it's\"^ -fembed-bitcode", .clang⟩ =
        .ok ⟨"clang", ["", "it's^", "-save-temps=cwd"], .clang, none⟩ ∧
      ∃ line, commandLine ⟨"clang", ["", "it's^", "-save-temps=cwd"], .clang, none⟩ = .ok line ∧
        ofCaptured ⟨line, .clang⟩ =
          .ok ⟨"clang", ["", "it's^", "-save-temps=cwd"], .clang, none⟩ := by
  have h : ofCaptured ⟨"clang -o -o '' \"it's\"^ -fembed-bitcode", .clang⟩ =
      .ok ⟨"clang", ["", "it's^", "-save-temps=cwd"], .clang, none⟩ := by decide
  exact ⟨h, (ofCaptured_commandLine h).2 (by decide)⟩

end BitcodeReplay.Invocation
