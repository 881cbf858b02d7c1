import BitcodeReplay.Path
import Mathlib.Data.List.Basic

/-!
Joining paths joins the names they lead through. A component is a name that stands for itself: it
is one step on the way, whatever it is joined to.
-/

namespace BitcodeReplay.Path

/-- A name that leads to an entry of a directory. -/
structure IsComponent (name : String) : Prop where
  ne_empty : name ≠ ""
  ne_dot : name ≠ "."
  ne_dots : name ≠ ".."
  slash : '/' ∉ name.toList

instance (name : String) : Decidable (IsComponent name) :=
  decidable_of_iff (name ≠ "" ∧ name ≠ "." ∧ name ≠ ".." ∧ '/' ∉ name.toList)
    ⟨fun ⟨hempty, hdot, hup, hslash⟩ => ⟨hempty, hdot, hup, hslash⟩,
      fun ⟨hempty, hdot, hup, hslash⟩ => ⟨hempty, hdot, hup, hslash⟩⟩

theorem toList_ne_nil {s : String} (h : s ≠ "") : s.toList ≠ [] := by
  intro hs
  exact h (String.toList_inj.1 (by simpa using hs))

theorem toList_ne {s : String} {cs : List Char} (h : s ≠ String.ofList cs) : s.toList ≠ cs := by
  rintro rfl
  exact h (by simp)

/-! ### Names -/

/-- A slash separates the names before it from those behind it. -/
theorem names_append_slash (a b : String) : names (a ++ "/" ++ b) = names a ++ names b := by
  have hsplit : (a ++ "/" ++ b).toList.splitOn '/' =
      a.toList.splitOn '/' ++ b.toList.splitOn '/' := by
    rw [← List.splitOn_append_cons_self]
    simp
  rw [names, hsplit, List.filter_append, List.map_append]
  rfl

theorem names_of_isComponent {name : String} (h : IsComponent name) : names name = [name] := by
  have hempty := toList_ne_nil h.ne_empty
  have hdot : name.toList ≠ ['.'] := toList_ne h.ne_dot
  rw [names, List.splitOn_eq_singleton h.slash]
  simp [hempty, hdot]

theorem isAbsolute_of_isComponent {name : String} (h : IsComponent name) :
    isAbsolute name = false := by
  have hslash := h.slash
  rw [isAbsolute]
  cases hname : name.toList with
  | nil => rfl
  | cons c rest =>
    rw [hname] at hslash
    have hc : c ≠ '/' := fun he => hslash (he ▸ List.mem_cons_self)
    simp [List.isPrefixOf, hc.symm]

/-- Joining a path to a base that is no path of its own adds its names. -/
theorem names_join_of_relative (base : String) {path : String} (h : isAbsolute path = false) :
    names (join base path) = names base ++ names path := by
  rw [join, h, if_neg Bool.false_ne_true]
  split
  · next hbase =>
    rcases hbase with rfl | hslash
    · rw [String.empty_append]
      exact (List.nil_append _).symm
    · obtain ⟨front, hfront⟩ := List.isSuffixOf_iff_suffix.1 hslash
      have hb : base = String.ofList front ++ "/" := String.toList_inj.1 (by simp [← hfront])
      have hnames : names base = names (String.ofList front) := by
        have happend := names_append_slash (String.ofList front) ""
        rw [String.append_empty, ← hb] at happend
        rw [happend]
        simp [names]
      rw [hnames, ← names_append_slash, ← hb]
  · exact names_append_slash base path

/-- Joining a component to a path adds one name. -/
theorem names_join (base : String) {name : String} (h : IsComponent name) :
    names (join base name) = names base ++ [name] := by
  rw [names_join_of_relative base (isAbsolute_of_isComponent h), names_of_isComponent h]

/-- Names that stand between slashes are those of the path. -/
theorem names_intercalate {parts : List String} (hc : ∀ name ∈ parts, IsComponent name) :
    names (String.intercalate "/" parts) = parts := by
  induction parts with
  | nil => decide
  | cons name rest ih =>
    have hname := hc name List.mem_cons_self
    by_cases hrest : rest = []
    · rw [hrest, String.intercalate_singleton, names_of_isComponent hname]
    · rw [String.intercalate_cons_of_ne_nil hrest, names_append_slash, names_of_isComponent hname,
        ih fun n hn => hc n (List.mem_cons_of_mem _ hn), List.singleton_append]

/-- A path that ends in a component does not ask for a directory. -/
theorem wantsDirectory_append (base : String) {name : String} (h : IsComponent name) :
    wantsDirectory (base ++ name) = false := by
  have hslash : '/' ∉ name.toList.reverse := by
    rw [List.mem_reverse]
    exact h.slash
  have hdot : name.toList.reverse ≠ ['.'] := by
    intro he
    have hname := congrArg List.reverse he
    rw [List.reverse_reverse] at hname
    exact @toList_ne name ['.'] h.ne_dot hname
  rw [wantsDirectory, String.toList_append, List.reverse_append]
  cases hname : name.toList.reverse with
  | nil => exact absurd (List.reverse_eq_nil_iff.1 hname) (toList_ne_nil h.ne_empty)
  | cons c rest =>
    rw [hname] at hslash hdot
    have hc : c ≠ '/' := fun he => hslash (he ▸ List.mem_cons_self)
    cases rest with
    | nil =>
      have hcd : c ≠ '.' := fun he => hdot (he ▸ rfl)
      simp [hc, hcd]
    | cons d rest =>
      have hd : d ≠ '/' := fun he => hslash (he ▸ List.mem_cons_of_mem _ List.mem_cons_self)
      simp [hc, hd]

theorem wantsDirectory_join (base : String) {name : String} (h : IsComponent name) :
    wantsDirectory (join base name) = false := by
  rw [join, isAbsolute_of_isComponent h, if_neg Bool.false_ne_true]
  split
  · exact wantsDirectory_append base h
  · exact wantsDirectory_append (base ++ "/") h

/-- A path whose last part is a dot asks for a directory. -/
theorem endsInDot_of_wantsDirectory {path : String} (h : wantsDirectory path = false) :
    endsInDot path = false := by
  rw [wantsDirectory] at h
  rw [endsInDot]
  cases hpath : path.toList.reverse with
  | nil => rfl
  | cons c rest =>
    rw [hpath] at h
    by_cases hc : c = '/'
    · simp [hc] at h
    · rw [List.dropWhile_cons_of_neg (by simpa using hc)]
      by_cases hdot : c = '.'
      · subst hdot
        cases rest with
        | nil => simp at h
        | cons d rest =>
          by_cases hd : d = '/' <;> simp_all
      · simp [hdot]

theorem join_ne_empty (base : String) {name : String} (h : name ≠ "") : join base name ≠ "" := by
  have hname := toList_ne_nil h
  intro he
  have hjoin := congrArg String.toList he
  rw [join] at hjoin
  split at hjoin
  · exact hname hjoin
  split at hjoin
  · simp [hname] at hjoin
  · simp at hjoin

/-- The first part of a path says whether it is absolute. -/
theorem isAbsolute_append {first : String} (h : first ≠ "") (more : String) :
    isAbsolute (first ++ more) = isAbsolute first := by
  have hfirst := toList_ne_nil h
  rw [isAbsolute, isAbsolute, String.toList_append]
  cases hcs : first.toList with
  | nil => exact absurd hcs hfirst
  | cons c rest => rfl

/-- What is joined to a path may be several names. -/
theorem names_join_intercalate (base : String) {parts : List String}
    (hc : ∀ name ∈ parts, IsComponent name) :
    names (join base (String.intercalate "/" parts)) = names base ++ parts := by
  have habsolute : isAbsolute (String.intercalate "/" parts) = false := by
    cases parts with
    | nil => decide
    | cons name rest =>
      have hname := hc name List.mem_cons_self
      cases rest with
      | nil => rw [String.intercalate_singleton, isAbsolute_of_isComponent hname]
      | cons next rest =>
        rw [String.intercalate_cons_cons, String.append_assoc,
          isAbsolute_append hname.ne_empty, isAbsolute_of_isComponent hname]
  rw [names_join_of_relative base habsolute, names_intercalate hc]

/-- What follows the first part of a joined path can be joined later. -/
theorem join_append (base : String) {first : String} (h : first ≠ "") (more : String) :
    join base (first ++ more) = join base first ++ more := by
  simp only [join, isAbsolute_append h more]
  split
  · rfl
  split
  · exact (String.append_assoc ..).symm
  · exact (String.append_assoc ..).symm

/-! ### File names -/

theorem not_mem_of_mem_splitOn {c : Char} {s part : List Char} (h : part ∈ s.splitOn c) :
    c ∉ part := by
  induction s generalizing part with
  | nil =>
    rw [List.splitOn_nil, List.mem_singleton] at h
    simp [h]
  | cons x rest ih =>
    rw [List.splitOn_cons_eq_if_modifyHead] at h
    split at h
    · rcases List.mem_cons.1 h with rfl | h
      · simp
      · exact ih h
    · next hx =>
      cases hparts : rest.splitOn c with
      | nil => exact absurd hparts (List.splitOn_ne_nil c rest)
      | cons first others =>
        rw [hparts] at h ih
        rcases List.mem_cons.1 h with rfl | h
        · rw [List.mem_cons, not_or]
          exact ⟨fun he => hx (by simp [he]), ih List.mem_cons_self⟩
        · exact ih (List.mem_cons_of_mem _ h)

theorem isComponent_of_mem_names {path name : String} (h : name ∈ names path)
    (hup : name ≠ "..") : IsComponent name := by
  obtain ⟨part, hpart, rfl⟩ := List.mem_map.1 h
  obtain ⟨hsplit, hkeep⟩ := List.mem_filter.1 hpart
  simp only [ne_eq, decide_eq_true_eq] at hkeep
  refine ⟨fun he => hkeep.1 ?_, fun he => hkeep.2 ?_, hup, ?_⟩
  · simpa using congrArg String.toList he
  · simpa using congrArg String.toList he
  · rw [String.toList_ofList]
    exact not_mem_of_mem_splitOn hsplit

/-- The file name of a path is a component, and the last of its names. -/
theorem isComponent_of_fileName? {path name : String} (h : fileName? path = some name) :
    IsComponent name ∧ ∃ front, names path = front ++ [name] := by
  rw [fileName?] at h
  split at h
  · next last hlast =>
    split at h
    · cases h
    · next hup =>
      obtain rfl := Option.some.inj h
      obtain ⟨front, hfront⟩ := List.getLast?_eq_some_iff.1 hlast
      have hmem : last ∈ names path := by simp [hfront]
      exact ⟨isComponent_of_mem_names hmem hup, front, hfront⟩
  · cases h

theorem isPrefix_splitName (name : List Char) : (splitName name).1 <+: name := by
  rw [splitName]
  split
  · next stem extension hcut =>
    split
    · exact List.prefix_rfl
    · rw [Text.cutLast?_eq_append hcut]
      exact List.prefix_append _ _
  · exact List.prefix_rfl

theorem slash_not_mem_nameStem {name : String} (h : IsComponent name) :
    '/' ∉ (nameStem name).toList := by
  rw [nameStem, String.toList_ofList]
  exact fun hmem => h.slash ((isPrefix_splitName _).subset hmem)

theorem stem?_of_isComponent {name : String} (h : IsComponent name) :
    stem? name = some (nameStem name) := by
  simp [stem?, fileName?, names_of_isComponent h, h.ne_dots]

/-- What a name loses with its extension stands behind what is left. -/
theorem nameStem_append (name : String) : ∃ more, name = nameStem name ++ more := by
  obtain ⟨more, hmore⟩ := isPrefix_splitName name.toList
  refine ⟨String.ofList more, String.toList_inj.1 ?_⟩
  rw [nameStem, String.toList_append, String.toList_ofList, String.toList_ofList, hmore]

/-- Something is left of a name: a dot at its start separates nothing. -/
theorem nameStem_ne_empty {name : String} (h : name ≠ "") : nameStem name ≠ "" := by
  intro hempty
  have hnil : (splitName name.toList).1 = [] := by simpa [nameStem] using hempty
  rw [splitName] at hnil
  split at hnil
  · split at hnil
    · exact h (String.toList_inj.1 (by simpa using hnil))
    next hstem => exact hstem hnil
  · exact h (String.toList_inj.1 (by simpa using hnil))

/-! ### Long names and paths -/

theorem utf8ByteSize_replicate (n : Nat) {c : Char} (hc : c.utf8Size = 1) :
    (String.ofList (List.replicate n c)).utf8ByteSize = n := by
  induction n with
  | zero => rfl
  | succ n ih =>
    have hcons : String.ofList (List.replicate (n + 1) c) =
        String.singleton c ++ String.ofList (List.replicate n c) := by
      apply String.toList_inj.1
      simp [List.replicate_succ]
    rw [hcons, String.utf8ByteSize_append, ih]
    simp [hc]
    omega

/-- A path behind some slashes, which make it longer and no more. -/
def slashed (n : Nat) (path : String) : String := String.ofList (List.replicate n '/') ++ path

theorem utf8ByteSize_slashed (n : Nat) (path : String) :
    (slashed n path).utf8ByteSize = n + path.utf8ByteSize := by
  rw [slashed, String.utf8ByteSize_append, utf8ByteSize_replicate n (by decide)]

theorem names_slashed (n : Nat) (path : String) : names (slashed n path) = names path := by
  induction n with
  | zero => simp [slashed]
  | succ n ih =>
    have hslash : slashed (n + 1) path = "" ++ "/" ++ slashed n path := by
      apply String.toList_inj.1
      simp [slashed, List.replicate_succ]
    rw [hslash, names_append_slash, ih]
    rfl

theorem join_slashed (n : Nat) {base path : String} (hbase : base ≠ "")
    (hpath : isAbsolute path = false) : join (slashed n base) path = slashed n (join base path) := by
  have hne : slashed n base ≠ "" := by simp [slashed, hbase]
  have hends : ['/'].isSuffixOf (slashed n base).toList = ['/'].isSuffixOf base.toList := by
    rw [Bool.eq_iff_iff, List.isSuffixOf_iff_suffix, List.isSuffixOf_iff_suffix,
      List.singleton_suffix_iff_getLast?_eq_some, List.singleton_suffix_iff_getLast?_eq_some,
      slashed, String.toList_append, List.getLast?_append_of_ne_nil _ (toList_ne_nil hbase)]
  simp only [join, hpath, hends, hne, hbase, false_or, Bool.false_eq_true, if_false]
  split
  · rw [slashed, slashed, String.append_assoc]
  · rw [slashed, slashed, String.append_assoc, String.append_assoc, String.append_assoc]

theorem isComponent_replicate {n : Nat} (hn : 0 < n) {c : Char} (hdot : c ≠ '.') (hslash : c ≠ '/') :
    IsComponent (String.ofList (List.replicate n c)) := by
  have hmem : c ∈ (String.ofList (List.replicate n c)).toList := by
    simp [List.mem_replicate, Nat.ne_of_gt hn]
  refine ⟨fun h => ?_, fun h => ?_, fun h => ?_, fun h => ?_⟩
  · rw [h] at hmem
    cases hmem
  · rw [h] at hmem
    simp at hmem
    exact hdot hmem
  · rw [h] at hmem
    simp at hmem
    exact hdot hmem
  · rw [String.toList_ofList] at h
    exact hslash (List.eq_of_mem_replicate h).symm

end BitcodeReplay.Path
