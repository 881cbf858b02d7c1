import BitcodeReplay.Replay.Harvest
import BitcodeReplay.Proofs.FileTree.Edit
import Mathlib.Data.List.Nodup

/-!
The names under which bitcode is kept: they are components, and there is always a free one.
-/

namespace BitcodeReplay.Replay

open Path FileTree

variable {t : FileTree} {compiler : Compiler} {directory path name : String}

theorem isComponent_bitcodeName {stem : String} (h : '/' ∉ stem.toList) :
    IsComponent (bitcodeName stem) := by
  have hlast : (bitcodeName stem).toList.getLast? = some 'c' := by
    simp [bitcodeName, String.toList_append]
  refine ⟨fun he => ?_, fun he => ?_, fun he => ?_, ?_⟩
  · rw [he] at hlast
    exact absurd hlast (by decide)
  · rw [he] at hlast
    exact absurd hlast (by decide)
  · rw [he] at hlast
    exact absurd hlast (by decide)
  · simp [bitcodeName, String.toList_append, h]

theorem not_mem_toDigits {c : Char} (hc : c.isDigit = false) (n : Nat) :
    c ∉ Nat.toDigits 10 n := by
  intro hmem
  have hdigit := Nat.isDigit_of_mem_toDigits (by decide) (by decide) hmem
  rw [hc] at hdigit
  cases hdigit

theorem isComponent_numberedName (h : IsComponent name) (n : Nat) :
    IsComponent (numberedName name n) := by
  apply isComponent_bitcodeName
  simp [String.toList_append, slash_not_mem_nameStem h, not_mem_toDigits]

theorem isPrefix_withoutArchitecture (stem : List Char) : withoutArchitecture stem <+: stem := by
  rw [withoutArchitecture]
  cases hfind : architectures.findSome? (beforeArchitecture? stem) with
  | none => exact List.prefix_rfl
  | some before =>
    obtain ⟨architecture, -, hbefore⟩ := List.exists_of_findSome?_eq_some hfind
    rw [beforeArchitecture?, Option.filter_eq_some_iff, dropEnd?_eq_some_iff] at hbefore
    exact ⟨_, hbefore.1.symm⟩

/-- The name under which a file is kept leads to an entry of a directory. -/
theorem isComponent_keptName? (h : keptName? compiler path = some name) : IsComponent name := by
  cases compiler with
  | swiftc => exact (isComponent_of_fileName? h).1
  | clang =>
    obtain ⟨stem, hstem, rfl⟩ := Option.map_eq_some_iff.1 h
    obtain ⟨file, hfile, rfl⟩ := Option.map_eq_some_iff.1 hstem
    apply isComponent_bitcodeName
    have hslash := slash_not_mem_nameStem (isComponent_of_fileName? hfile).1
    rw [String.toList_ofList]
    exact fun hmem => hslash ((isPrefix_withoutArchitecture _).subset hmem)

theorem toDigits_injective {m n : Nat} (h : Nat.toDigits 10 m = Nat.toDigits 10 n) : m = n := by
  have hvalue := congrArg (Nat.ofDigitChars 10 · 0) h
  simpa only [Nat.ofDigitChars_toDigits (b := 10) (by decide) (by decide)] using hvalue

theorem numberedName_injective (name : String) {m n : Nat}
    (h : numberedName name m = numberedName name n) : m = n := by
  simp only [numberedName, bitcodeName] at h
  exact toDigits_injective (by simpa using congrArg String.toList h)

/-! ### Free names -/

theorem get?_of_not_isFree {left : Nat} {out : Location} (hlead : t.LeadsTo directory left out)
    (hc : IsComponent name) (h : isFree t directory name = false) :
    t.get? (out ++ [name]) ≠ none := by
  rw [isFree, isPresent, Bool.not_eq_false', Option.isSome_iff_exists] at h
  obtain ⟨⟨l, e⟩, he⟩ := h
  obtain ⟨left', out', hlead', hwalk⟩ := leadsTo_of_resolve_join hc (find?_eq_some_iff.1 he)
  obtain ⟨rfl, rfl⟩ := hlead.unique hlead'
  exact get?_of_walk_found hc hwalk

theorem length_namesIn_le (t : FileTree) (out : Location) :
    (t.namesIn out).length ≤ t.entries.length := by
  rw [namesIn, List.length_reverse]
  apply Nat.le_trans (List.length_filterMap_le _ _)
  rw [below, List.length_map]
  exact List.length_filter_le _ _

/-- Numbers that do not make a name free are those of as many names in the directory. -/
theorem le_length_of_taken {left : Nat} {out : Location} (hlead : t.LeadsTo directory left out)
    (hc : IsComponent name) {n : Nat}
    (htaken : ∀ i < n, isFree t directory (numberedName name (i + 1)) = false) :
    n ≤ (t.namesIn out).length := by
  let numbered := (List.range n).map fun i => numberedName name (i + 1)
  have hnodup : numbered.Nodup := by
    refine List.Nodup.map (fun i j hij => ?_) List.nodup_range
    have hnumber := numberedName_injective name hij
    omega
  have hsub : numbered ⊆ t.namesIn out := by
    intro other hother
    obtain ⟨i, hi, rfl⟩ := List.mem_map.1 hother
    have hne := get?_of_not_isFree hlead (isComponent_numberedName hc (i + 1))
      (htaken i (List.mem_range.1 hi))
    exact mem_namesIn.2 (Option.isSome_iff_ne_none.2 hne)
  have hlength := hnodup.length_le_of_subset hsub
  simpa [numbered] using hlength

/-- As there are more numbers than entries, one of them makes a name free. -/
theorem isFree_freeNumber {left : Nat} {out : Location} (hlead : t.LeadsTo directory left out)
    (hc : IsComponent name) :
    isFree t directory (numberedName name (freeNumber t directory name)) = true := by
  rw [freeNumber]
  cases hfind : (List.range (t.entries.length + 1)).find? fun i =>
      isFree t directory (numberedName name (i + 1)) with
  | some i => simpa using List.find?_some hfind
  | none =>
    exfalso
    have htaken : ∀ i < t.entries.length + 1,
        isFree t directory (numberedName name (i + 1)) = false := by
      intro i hi
      simpa using List.find?_eq_none.1 hfind i (List.mem_range.2 hi)
    have hmany := le_length_of_taken hlead hc htaken
    have hfew := length_namesIn_le t out
    omega

/-- The free name is the name itself, or it is numbered and the name is taken. -/
theorem freeName_cases (t : FileTree) (directory name : String) :
    (isFree t directory name = true ∧ freeName t directory name = name) ∨
      (isFree t directory name = false ∧
        ∃ n, freeName t directory name = numberedName name (n + 1)) := by
  rw [freeName]
  split
  · next h => exact .inl ⟨h, rfl⟩
  · next h => exact .inr ⟨by simpa using h, _, rfl⟩

/-- A name that is taken is that of an entry of a directory. -/
theorem leadsTo_of_not_isFree (hc : IsComponent name) (h : isFree t directory name = false) :
    ∃ left out, t.LeadsTo directory left out := by
  rw [isFree, isPresent, Bool.not_eq_false', Option.isSome_iff_exists] at h
  obtain ⟨⟨l, e⟩, he⟩ := h
  obtain ⟨left, out, hlead, -⟩ := leadsTo_of_resolve_join hc (find?_eq_some_iff.1 he)
  exact ⟨left, out, hlead⟩

theorem isFree_freeName (hc : IsComponent name) :
    isFree t directory (freeName t directory name) = true := by
  rw [freeName]
  split
  · assumption
  next htaken =>
    obtain ⟨left, out, hlead⟩ := leadsTo_of_not_isFree hc (by simpa using htaken)
    exact isFree_freeNumber hlead hc

/-- No smaller number makes the name free. -/
theorem isFree_of_lt_freeNumber {n : Nat} (h : n + 1 < freeNumber t directory name) :
    isFree t directory (numberedName name (n + 1)) = false := by
  rw [freeNumber] at h
  cases hfind : (List.range (t.entries.length + 1)).find? fun i =>
      isFree t directory (numberedName name (i + 1)) with
  | some i =>
    rw [hfind, Option.getD_some] at h
    simpa using (List.find?_range_eq_some.1 hfind).2.2 n (by omega)
  | none =>
    rw [hfind, Option.getD_none] at h
    simpa using List.find?_eq_none.1 hfind n (List.mem_range.2 (by omega))

/-- Where the same names are free, the same free name is found. -/
theorem freeName_congr {t' : FileTree} (hc : IsComponent name)
    (h : ∀ other, IsComponent other → isFree t' directory other = isFree t directory other) :
    freeName t' directory name = freeName t directory name := by
  rw [freeName, freeName, h name hc]
  split
  · rfl
  next hnot =>
    have htaken : isFree t directory name = false := by simpa using hnot
    obtain ⟨left, out, hlead⟩ := leadsTo_of_not_isFree hc htaken
    obtain ⟨left', out', hlead'⟩ := leadsTo_of_not_isFree hc ((h name hc).trans htaken)
    have hfree := isFree_freeNumber hlead hc
    have hfree' := isFree_freeNumber hlead' hc
    obtain ⟨m, hm⟩ : ∃ m, freeNumber t directory name = m + 1 := ⟨_, rfl⟩
    obtain ⟨n, hn⟩ : ∃ n, freeNumber t' directory name = n + 1 := ⟨_, rfl⟩
    have hnumbered := fun k => h _ (isComponent_numberedName hc k)
    rw [hm] at hfree
    rw [hn, hnumbered] at hfree'
    -- both numbers are the least
    rcases Nat.lt_trichotomy m n with hlt | rfl | hlt
    · have hsmaller : m + 1 < freeNumber t' directory name := by omega
      have hearlier := isFree_of_lt_freeNumber hsmaller
      rw [hnumbered, hfree] at hearlier
      cases hearlier
    · rw [hm, hn]
    · have hsmaller : n + 1 < freeNumber t directory name := by omega
      have hearlier := isFree_of_lt_freeNumber hsmaller
      rw [hfree'] at hearlier
      cases hearlier

theorem isComponent_freeName (hc : IsComponent name) :
    IsComponent (freeName t directory name) := by
  rcases freeName_cases t directory name with ⟨-, h⟩ | ⟨-, n, h⟩
  · rwa [h]
  · rw [h]
    exact isComponent_numberedName hc (n + 1)

/-! ### The search for a number -/

/-- Numbers are tried one after the other, up to the first that makes the name free. -/
inductive Finds (t : FileTree) (directory name : String) : Nat → Nat → Prop
  | free {n : Nat} (h : isFree t directory (numberedName name n) = true) :
    Finds t directory name n n
  | taken {n m : Nat} (h : isFree t directory (numberedName name n) = false)
    (rest : Finds t directory name (n + 1) m) : Finds t directory name n m

/-- A search ends with the least number, from where it starts, that makes the name free. -/
theorem finds_iff {n m : Nat} : Finds t directory name n m ↔
    n ≤ m ∧ isFree t directory (numberedName name m) = true ∧
      ∀ k, n ≤ k → k < m → isFree t directory (numberedName name k) = false := by
  constructor
  · intro h
    induction h with
    | free hfree => exact ⟨Nat.le_refl _, hfree, fun k hle hlt => absurd hle (Nat.not_le.2 hlt)⟩
    | taken htaken rest ih =>
      obtain ⟨hle, hfree, hothers⟩ := ih
      refine ⟨by omega, hfree, fun k hk hlt => ?_⟩
      rcases Nat.eq_or_lt_of_le hk with rfl | hlater
      · exact htaken
      · exact hothers k hlater hlt
  · rintro ⟨hle, hfree, htaken⟩
    -- on how far the number is away
    obtain ⟨distance, rfl⟩ := Nat.exists_eq_add_of_le hle
    induction distance generalizing n with
    | zero => exact .free hfree
    | succ distance ih =>
      have hstep : n + (distance + 1) = n + 1 + distance := by omega
      rw [hstep] at hfree htaken ⊢
      refine .taken (htaken n (Nat.le_refl n) (by omega)) (ih (by omega) hfree fun k hk hlt => ?_)
      exact htaken k (by omega) hlt

/-- The search for a free number ends, as the directory has so many names only. -/
theorem finds_freeNumber {left : Nat} {out : Location} (hlead : t.LeadsTo directory left out)
    (hc : IsComponent name) : Finds t directory name 1 (freeNumber t directory name) ∧
      freeNumber t directory name ≤ (t.namesIn out).length + 1 := by
  obtain ⟨n, hn⟩ : ∃ n, freeNumber t directory name = n + 1 := ⟨_, rfl⟩
  have htaken : ∀ i < n, isFree t directory (numberedName name (i + 1)) = false := by
    intro i hi
    apply isFree_of_lt_freeNumber
    omega
  constructor
  · refine finds_iff.2 ⟨by omega, isFree_freeNumber hlead hc, fun k hk hlt => ?_⟩
    obtain ⟨i, rfl⟩ := Nat.exists_eq_add_of_le' hk
    exact htaken i (by omega)
  · have hmany := le_length_of_taken hlead hc htaken
    omega

/-- A module goes to a path of the directory where nothing is found: to that of its own name, or, if
something is there, to that of the name with the least number from one on which nothing is found
at. The search for this number ends after no more steps than the directory has names, and one. -/
theorem freeName_is_first_free (t : FileTree) (directory : String) (hc : IsComponent name) :
    names (join directory (freeName t directory name)) =
      names directory ++ [freeName t directory name] ∧
    t.isPresent (join directory (freeName t directory name)) = false ∧
    (t.isPresent (join directory name) = false → freeName t directory name = name) ∧
    (t.isPresent (join directory name) = true → ∃ n, Finds t directory name 1 n ∧
      freeName t directory name = nameStem name ++ "-" ++ toString n ++ ".bc" ∧
      (∀ k, 1 ≤ k → k < n →
        t.isPresent (join directory (nameStem name ++ "-" ++ toString k ++ ".bc")) = true) ∧
      ∀ left out, t.LeadsTo directory left out → n ≤ (t.namesIn out).length + 1) := by
  have hfree : isFree t directory (freeName t directory name) = true := isFree_freeName hc
  refine ⟨names_join directory (isComponent_freeName hc), by simpa [isFree] using hfree,
    fun habsent => ?_, fun hpresent => ?_⟩
  · have hname : isFree t directory name = true := by simp [isFree, habsent]
    rw [freeName, if_pos hname]
  · have htaken : isFree t directory name = false := by simp [isFree, hpresent]
    obtain ⟨left, out, hlead⟩ := leadsTo_of_not_isFree hc htaken
    obtain ⟨hfinds, -⟩ := finds_freeNumber hlead hc
    refine ⟨freeNumber t directory name, hfinds, ?_, fun k hk hlt => ?_,
      fun left' out' hlead' => ?_⟩
    · rw [freeName, htaken, if_neg Bool.false_ne_true]
      rfl
    · have hk := (finds_iff.1 hfinds).2.2 k hk hlt
      simpa [isFree, numberedName, bitcodeName] using hk
    · exact (finds_freeNumber hlead' hc).2

/-- A directory with a module and with two others that really have its first numbers. -/
def numberedTree : FileTree :=
  ⟨[(["o"], .dir), (["o", "u.bc"], .file .empty false), (["o", "u-1.bc"], .file .empty false),
    (["o", "u-2.bc"], .file .empty false)]⟩

theorem isPresent_numbered (hc : IsComponent name) (hpath : IsResolvable (join "/o" name))
    (hshort : name.utf8ByteSize ≤ maxName) :
    numberedTree.isPresent (join "/o" name) = (numberedTree.get? ["o", name]).isSome := by
  have hlead : numberedTree.LeadsTo "/o" maxLinks ["o"] :=
    leadsTo_of_names (by decide) (by decide) (by decide) (by decide)
  have hlink : ∀ target, numberedTree.get? ["o", name] ≠ some (.link target) := by
    intro target hget
    have hmem := mem_entries_of_get? (by simp) hget
    simp [numberedTree] at hmem
  rw [isPresent, find?, resolve_join hlead hc hpath, walk_name hc fun _ => hlink,
    if_neg (Nat.not_lt.2 hshort)]
  cases hget : numberedTree.get? ["o", name] with
  | none => rw [placeIn_of_none hget]; rfl
  | some e => rw [placeIn_of_some hget]; rfl

/-- Both numbers are tried, and the third is taken. -/
theorem freeName_is_first_free_numbered : IsComponent "u.bc" ∧
    numberedTree.isPresent (join "/o" "u.bc") = true ∧
    freeName numberedTree "/o" "u.bc" = "u-3.bc" := by
  have hpresent : ∀ name ∈ ["u.bc", "u-1.bc", "u-2.bc"],
      numberedTree.isPresent (join "/o" name) = true := by
    intro name hname
    have hall : ∀ name ∈ ["u.bc", "u-1.bc", "u-2.bc"], IsComponent name ∧
        IsResolvable (join "/o" name) ∧ name.utf8ByteSize ≤ maxName ∧
        (numberedTree.get? ["o", name]).isSome = true := by decide
    obtain ⟨hc, hpath, hshort, hsome⟩ := hall name hname
    rw [isPresent_numbered hc hpath hshort, hsome]
  have habsent : numberedTree.isPresent (join "/o" "u-3.bc") = false := by
    rw [isPresent_numbered (by decide) (by decide) (by decide)]
    decide
  have hc : IsComponent "u.bc" := by decide
  refine ⟨hc, hpresent _ (by simp), ?_⟩
  obtain ⟨-, hfree, -, hnumber⟩ := freeName_is_first_free numberedTree "/o" hc
  obtain ⟨n, hfinds, hn, hbefore, -⟩ := hnumber (hpresent _ (by simp))
  have hone : 1 ≤ n := (finds_iff.1 hfinds).1
  rw [hn] at hfree ⊢
  rcases Nat.lt_trichotomy n 3 with hlt | rfl | hlt
  · have htaken : n = 1 ∨ n = 2 := by omega
    rcases htaken with rfl | rfl
    · exact absurd (hfree.symm.trans (hpresent "u-1.bc" (by simp))) (by decide)
    · exact absurd (hfree.symm.trans (hpresent "u-2.bc" (by simp))) (by decide)
  · decide
  · exact absurd (habsent.symm.trans (hbefore 3 (by decide) hlt)) (by decide)

end BitcodeReplay.Replay
