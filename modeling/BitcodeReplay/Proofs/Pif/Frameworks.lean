import BitcodeReplay.Proofs.Pif.Cache
import Mathlib.Data.List.Basic
import Mathlib.Data.List.Induction
import Mathlib.Order.Lattice

/-!
Which target builds the framework of a file. A file of a snapshot has a place: the number of its
project, and the number of the child to go to at each group on the way down. The order of the text is
the lexicographic order of the places. The index of frameworks is what the places say: the last file
of an identifier that has a builder counts.
-/

namespace BitcodeReplay.Pif

variable {ι α β γ : Type}

/-! ### Lists that stand for places -/

/-- A list holds what is found at all places, in their order. -/
def Enumerates [LT ι] (at? : ι → Option β) (found : List β) : Prop :=
  ∃ placed : List (ι × β), placed.Pairwise (fun p q => p.1 < q.1) ∧
    (∀ place x, at? place = some x ↔ (place, x) ∈ placed) ∧ found = placed.map (·.2)

theorem enumerates_getElem? (xs : List β) : Enumerates (fun i : Nat => xs[i]?) xs := by
  refine ⟨xs.zipIdx.map fun entry => (entry.2, entry.1), ?_, fun i x => ?_, ?_⟩
  · rw [List.pairwise_map]
    have hsorted : (xs.zipIdx.map (·.2)).Pairwise (· < ·) := by
      rw [List.zipIdx_map_snd]
      exact List.pairwise_lt_range'
    exact List.pairwise_map.1 hsorted
  · rw [← List.mk_mem_zipIdx_iff_getElem?]
    simp
  · rw [List.map_map]
    exact (List.zipIdx_map_fst 0 xs).symm

/-- What is found at a place of a list: the first number of the place says in which element, and the
others where in it. -/
def within? (at? : α → List Nat → Option β) (xs : List α) : List Nat → Option β
  | [] => none
  | i :: place => (xs[i]?).bind fun x => at? x place

/-- The same place in the next element. -/
def later : List Nat → List Nat
  | [] => []
  | i :: place => (i + 1) :: place

theorem later_lt {p q : List Nat} (h : p < q) : later p < later q := by
  cases p with
  | nil =>
    cases q with
    | nil => exact h
    | cons j q => exact List.nil_lt_cons ..
  | cons i p =>
    cases q with
    | nil => cases h
    | cons j q =>
      rw [List.cons_lt_cons_iff] at h
      simp only [later, List.cons_lt_cons_iff]
      exact h.imp (Nat.succ_lt_succ ·) fun ⟨hij, hpq⟩ => ⟨congrArg (· + 1) hij, hpq⟩

theorem enumerates_nil (at? : α → List Nat → Option β) : Enumerates (within? at? []) [] :=
  ⟨[], .nil, fun place x => by cases place <;> simp [within?], rfl⟩

theorem mem_map_first {ps : List (List Nat × β)} {place : List Nat} {y : β} :
    (place, y) ∈ ps.map (fun p => (0 :: p.1, p.2)) ↔ ∃ rest, place = 0 :: rest ∧ (rest, y) ∈ ps := by
  simp only [List.mem_map, Prod.mk.injEq, Prod.exists]
  constructor
  · rintro ⟨rest, y, hmem, rfl, rfl⟩
    exact ⟨rest, rfl, hmem⟩
  · rintro ⟨rest, rfl, hmem⟩
    exact ⟨rest, y, hmem, rfl, rfl⟩

theorem mem_map_later {ps : List (List Nat × β)} (hne : ∀ p ∈ ps, p.1 ≠ []) {place : List Nat}
    {y : β} : (place, y) ∈ ps.map (fun p => (later p.1, p.2)) ↔
      ∃ i rest, place = (i + 1) :: rest ∧ (i :: rest, y) ∈ ps := by
  simp only [List.mem_map, Prod.mk.injEq, Prod.exists]
  constructor
  · rintro ⟨place, y, hmem, rfl, rfl⟩
    obtain ⟨i, rest, rfl⟩ := List.exists_cons_of_ne_nil (hne _ hmem)
    exact ⟨i, rest, rfl, hmem⟩
  · rintro ⟨i, rest, rfl, hmem⟩
    exact ⟨i :: rest, y, hmem, rfl, rfl⟩

/-- The places in the first of some elements come before those in the others. -/
theorem Enumerates.cons {at? : α → List Nat → Option β} {x : α} {xs : List α} {first rest : List β}
    (hfirst : Enumerates (at? x) first) (hrest : Enumerates (within? at? xs) rest) :
    Enumerates (within? at? (x :: xs)) (first ++ rest) := by
  obtain ⟨ps, hps, hfirst, rfl⟩ := hfirst
  obtain ⟨qs, hqs, hrest, rfl⟩ := hrest
  have hne : ∀ q ∈ qs, q.1 ≠ [] := by
    rintro ⟨place, y⟩ hq rfl
    cases (hrest [] y).2 hq
  refine ⟨ps.map (fun p => (0 :: p.1, p.2)) ++ qs.map (fun q => (later q.1, q.2)), ?_, ?_, ?_⟩
  · refine List.pairwise_append.2 ⟨?_, ?_, ?_⟩
    · exact List.pairwise_map.2 (hps.imp fun h => List.cons_lt_cons_iff.2 (.inr ⟨rfl, h⟩))
    · exact List.pairwise_map.2 (hqs.imp fun h => later_lt h)
    · rintro ⟨p, y⟩ hp ⟨q, z⟩ hq
      obtain ⟨p, rfl, -⟩ := mem_map_first.1 hp
      obtain ⟨i, q, rfl, -⟩ := (mem_map_later hne).1 hq
      simp [List.cons_lt_cons_iff]
  · intro place y
    rw [List.mem_append, mem_map_first, mem_map_later hne]
    cases place with
    | nil => simp [within?]
    | cons i place =>
      cases i with
      | zero => simp [within?, hfirst]
      | succ i =>
        have hsame : within? at? (x :: xs) ((i + 1) :: place) = within? at? xs (i :: place) := rfl
        simp [hsame, hrest]
  · simp [Function.comp_def]

theorem enumerates_flatMap {at? : α → List Nat → Option β} {found : α → List β} {xs : List α}
    (h : ∀ x ∈ xs, Enumerates (at? x) (found x)) : Enumerates (within? at? xs) (xs.flatMap found) := by
  induction xs with
  | nil => exact enumerates_nil at?
  | cons x xs ih =>
    rw [List.flatMap_cons]
    exact (h x List.mem_cons_self).cons (ih fun y hy => h y (List.mem_cons_of_mem _ hy))

theorem Enumerates.filter [LT ι] {at? : ι → Option β} {found : List β} (h : Enumerates at? found)
    (keep : β → Bool) : Enumerates (fun place => (at? place).filter keep) (found.filter keep) := by
  obtain ⟨placed, hsorted, hat, rfl⟩ := h
  refine ⟨placed.filter fun p => keep p.2, hsorted.filter _, fun place x => ?_, ?_⟩
  · rw [Option.filter_eq_some_iff, hat, List.mem_filter]
  · rw [List.filter_map]
    rfl

/-- The last element that gives something is the one at the last place where one does. -/
theorem Enumerates.findSome?_reverse [LT ι] (hasymm : ∀ i j : ι, i < j → ¬ j < i)
    {at? : ι → Option β} {found : List β} (h : Enumerates at? found) (f : β → Option γ) (z : γ) :
    found.reverse.findSome? f = some z ↔ ∃ place x, at? place = some x ∧ f x = some z ∧
      ∀ place' y, place < place' → at? place' = some y → f y = none := by
  obtain ⟨placed, hsorted, hat, rfl⟩ := h
  simp only [hat]
  clear hat
  induction placed using List.reverseRecOn with
  | nil => simp
  | append_singleton placed last ih =>
    obtain ⟨top, y⟩ := last
    obtain ⟨hplaced, -, hbelow⟩ := List.pairwise_append.1 hsorted
    have hbelow : ∀ p ∈ placed, p.1 < top := fun p hp => hbelow p hp _ (List.mem_singleton_self _)
    rw [List.map_append, List.map_singleton, List.reverse_append, List.reverse_singleton,
      List.singleton_append, List.findSome?_cons]
    simp only [List.mem_append, List.mem_singleton, Prod.mk.injEq]
    cases hy : f y with
    | some w =>
      constructor
      · rintro ⟨⟩
        refine ⟨top, y, .inr ⟨rfl, rfl⟩, hy, ?_⟩
        rintro place x hlt (hmem | ⟨rfl, rfl⟩)
        · exact absurd (hbelow _ hmem) (hasymm _ _ hlt)
        · exact absurd hlt (hasymm _ _ hlt)
      · rintro ⟨place, x, hmem | ⟨rfl, rfl⟩, hx, hlater⟩
        · have hnone := hlater top y (hbelow _ hmem) (.inr ⟨rfl, rfl⟩)
          rw [hy] at hnone
          cases hnone
        · rw [← hy, hx]
    | none =>
      rw [ih hplaced]
      constructor
      · rintro ⟨place, x, hmem, hx, hlater⟩
        refine ⟨place, x, .inl hmem, hx, ?_⟩
        rintro place' x' hlt (hmem' | ⟨rfl, rfl⟩)
        · exact hlater place' x' hlt hmem'
        · exact hy
      · rintro ⟨place, x, hmem | ⟨rfl, rfl⟩, hx, hlater⟩
        · exact ⟨place, x, hmem, hx, fun place' x' hlt hmem' => hlater place' x' hlt (.inl hmem')⟩
        · rw [hy] at hx
          cases hx

/-! ### Files and their places -/

/-- The file at the end of a way down the tree, which says at each group which child to go to. -/
def Reference.fileAt? : Reference → List Nat → Option FileReference
  | .file f, [] => some f
  | .file _, _ :: _ => none
  | .group _ _ _, [] => none
  | .group _ _ children, i :: way => (children[i]?).bind fun child => child.fileAt? way

theorem Reference.filesOf_eq (children : List Reference) :
    filesOf children = children.flatMap files := by
  induction children with
  | nil => rfl
  | cons child rest ih => rw [filesOf, ih, List.flatMap_cons]

/-- The files below a node are those at its ways, in lexicographic order. -/
theorem Reference.enumerates_files : ∀ node : Reference, Enumerates node.fileAt? node.files
  | .file f => by
    refine ⟨[([], f)], List.pairwise_singleton _ _, fun way x => ?_, by simp [files]⟩
    cases way <;> simp [fileAt?, eq_comm]
  | .group kind node children => by
    have hsame : (Reference.group kind node children).fileAt? = within? fileAt? children := by
      funext way
      cases way <;> rfl
    rw [hsame, files, filesOf_eq]
    exact enumerates_flatMap fun child _ => enumerates_files child

namespace Cache

variable {c : Cache} {key : String} {f : FileReference} {t : Target} {file guid : Guid}

/-- The file at a place of the snapshot: the number of a project, and a way down its group tree. -/
def fileAt? (c : Cache) : List Nat → Option FileReference
  | [] => none
  | i :: way => (c.projects[i]?).bind fun p => p.groupTree.fileAt? way

/-- A file at a place that stands for a framework. -/
def FrameworkAt (c : Cache) (place : List Nat) (f : FileReference) : Prop :=
  c.fileAt? place = some f ∧ f.fileType = "wrapper.framework"

/-- What a framework target is found by is the name of its product, or else its identifier. -/
def IsFoundBy (t : Target) (key : String) : Prop :=
  t.productType.isFramework = true ∧
    (t.productName ≠ "" ∧ t.productName = key ∨ t.productName = "" ∧ t.guid = key)

/-- The last target of the snapshot that is found by a key. -/
def IsLastFoundBy (c : Cache) (key : String) (t : Target) : Prop :=
  ∃ i, c.targets[i]? = some t ∧ IsFoundBy t key ∧
    ∀ (j : Nat) u, i < j → c.targets[j]? = some u → ¬ IsFoundBy u key

/-- The target that builds the framework of a file: the last one found by the file's path, or else
the last one found by its name, which is the path of a file without one. -/
def Builds (c : Cache) (f : FileReference) (t : Target) : Prop :=
  c.IsLastFoundBy f.node.path t ∨
    (¬ ∃ u, c.IsLastFoundBy f.node.path u) ∧ c.IsLastFoundBy (f.node.name.getD f.node.path) t

theorem enumerates_frameworkFiles (c : Cache) : Enumerates
    (fun place => (c.fileAt? place).filter (·.fileType == "wrapper.framework"))
    c.frameworkFiles := by
  have hfiles : Enumerates c.fileAt? (c.projects.flatMap Project.files) := by
    have hsame : c.fileAt? = within? (fun p : Project => p.groupTree.fileAt?) c.projects := by
      funext place
      cases place <;> rfl
    rw [hsame]
    exact enumerates_flatMap fun p _ => p.groupTree.enumerates_files
  have hfilter : c.frameworkFiles =
      (c.projects.flatMap Project.files).filter (·.fileType == "wrapper.framework") := by
    rw [List.filter_flatMap]
    rfl
  rw [hfilter]
  exact hfiles.filter _

theorem isFoundBy_iff : IsFoundBy t key ↔
    (t.productType.isFramework && frameworkKey t == key) = true := by
  rw [IsFoundBy, frameworkKey]
  by_cases h : t.productName = "" <;> simp [h]

theorem frameworkTarget?_eq_some_iff :
    c.frameworkTarget? key = some t ↔ c.IsLastFoundBy key t := by
  rw [frameworkTarget?, ← List.findSome?_guard,
    (enumerates_getElem? c.targets).findSome?_reverse fun _ _ => Nat.lt_asymm]
  simp only [Option.guard_eq_some_iff, Option.guard_eq_none_iff, IsLastFoundBy, isFoundBy_iff,
    Bool.not_eq_true]
  constructor
  · rintro ⟨i, t, hi, ⟨rfl, hkey⟩, hlast⟩
    exact ⟨i, hi, hkey, hlast⟩
  · rintro ⟨i, hi, hkey, hlast⟩
    exact ⟨i, t, hi, ⟨rfl, hkey⟩, hlast⟩

theorem builder?_eq_some_iff : c.builder? f = some t ↔ c.Builds f t := by
  have hnone : c.frameworkTarget? f.node.path = none ↔ ¬ ∃ u, c.IsLastFoundBy f.node.path u := by
    simp only [← frameworkTarget?_eq_some_iff, ← Option.isSome_iff_exists, Option.not_isSome_iff_eq_none]
  rw [builder?, Option.orElse_eq_orElse, Option.orElse_eq_or, Option.or_eq_some_iff, hnone,
    frameworkTarget?_eq_some_iff, frameworkTarget?_eq_some_iff]
  rfl

theorem lookup_putPair (key value other : Guid) (pairs : List (Guid × Guid)) :
    (putPair key value pairs).lookup other =
      if other = key then some value else pairs.lookup other := by
  induction pairs with
  | nil =>
    by_cases h : other = key
    · simp [putPair, h]
    · simp [putPair, List.lookup_cons, beq_false_of_ne h, h]
  | cons pair rest ih =>
    obtain ⟨k, v⟩ := pair
    by_cases hk : other = k
    · subst hk
      by_cases h : other = key <;> simp [putPair, h]
    · by_cases h : k = key
      · subst h
        simp [putPair, List.lookup_cons, beq_false_of_ne hk, hk]
      · simpa [putPair, h, List.lookup_cons, beq_false_of_ne hk] using ih

/-- Each identifier has the builder of the last file that has one. -/
theorem lookup_frameworks (c : Cache) (file : Guid) : c.frameworks.lookup file =
    c.frameworkFiles.reverse.findSome? fun f =>
      if f.node.guid = file then (c.builder? f).map (·.guid) else none := by
  rw [frameworks]
  induction c.frameworkFiles using List.reverseRecOn with
  | nil => rfl
  | append_singleton files f ih =>
    rw [List.foldl_append, List.foldl_cons, List.foldl_nil, List.reverse_append,
      List.reverse_singleton, List.singleton_append, List.findSome?_cons, ← ih]
    cases hb : c.builder? f with
    | none => simp
    | some t =>
      rw [lookup_putPair]
      by_cases h : f.node.guid = file
      · simp [h]
      · simp [h, Ne.symm h]

/-- A target that has been found builds a framework and is one of the snapshot. -/
theorem Builds.mem (h : c.Builds f t) : t ∈ c.targets ∧ t.productType.isFramework = true := by
  rcases h with ⟨i, hi, ⟨hframework, -⟩, -⟩ | ⟨-, i, hi, ⟨hframework, -⟩, -⟩
  · exact ⟨List.mem_of_getElem? hi, hframework⟩
  · exact ⟨List.mem_of_getElem? hi, hframework⟩

/-- The last file of an identifier that has a builder, and that builder. -/
def LastBuilt (c : Cache) (file : Guid) (t : Target) : Prop :=
  ∃ place f, c.FrameworkAt place f ∧ f.node.guid = file ∧ c.Builds f t ∧
    ∀ after g, place < after → c.FrameworkAt after g → g.node.guid = file → ¬ ∃ u, c.Builds g u

theorem lookup_frameworks_iff :
    c.frameworks.lookup file = some guid ↔ ∃ t, c.LastBuilt file t ∧ t.guid = guid := by
  have hbuilt : ∀ f guid, (if f.node.guid = file then (c.builder? f).map (·.guid) else none) =
      some guid ↔ f.node.guid = file ∧ ∃ t, c.Builds f t ∧ t.guid = guid := by
    intro f guid
    by_cases h : f.node.guid = file <;> simp [h, builder?_eq_some_iff]
  have hunbuilt : ∀ f, (if f.node.guid = file then (c.builder? f).map (·.guid) else none) = none ↔
      (f.node.guid = file → ¬ ∃ t, c.Builds f t) := by
    intro f
    rw [Option.eq_none_iff_forall_ne_some]
    simp only [ne_eq, hbuilt]
    grind
  rw [lookup_frameworks, (enumerates_frameworkFiles c).findSome?_reverse fun _ _ => List.lt_asymm]
  simp only [Option.filter_eq_some_iff, beq_iff_eq, hbuilt, hunbuilt]
  constructor
  · rintro ⟨place, f, hf, ⟨hfile, t, ht, hguid⟩, hlast⟩
    exact ⟨t, ⟨place, f, hf, hfile, ht, fun after g hlt hg => hlast after g hlt hg⟩, hguid⟩
  · rintro ⟨t, ⟨place, f, hf, hfile, ht, hlast⟩, hguid⟩
    exact ⟨place, f, hf, ⟨hfile, t, ht, hguid⟩, fun after g hlt hg => hlast after g hlt hg⟩

/-- What the index holds is the identifier of a framework target of the snapshot. -/
theorem mem_of_lookup_frameworks (h : c.frameworks.lookup file = some guid) :
    ∃ t ∈ c.targets, t.guid = guid ∧ t.productType.isFramework = true := by
  obtain ⟨t, ⟨_, _, -, -, hbuilds, -⟩, hguid⟩ := lookup_frameworks_iff.1 h
  exact ⟨t, hbuilds.mem.1, hguid, hbuilds.mem.2⟩

theorem lookup_of_frameworkForFile? (h : c.frameworkForFile? file = some t) :
    c.frameworks.lookup file = some t.guid := by
  obtain ⟨guid, hguid, ht⟩ := Option.bind_eq_some_iff.1 h
  rw [hguid, guid_of_target? ht]

theorem exists_frameworkForFile? (h : c.frameworks.lookup file = some guid) :
    ∃ t, c.frameworkForFile? file = some t := by
  obtain ⟨t, ht, rfl, -⟩ := mem_of_lookup_frameworks h
  obtain ⟨u, hu⟩ := mem_guids_iff.1 (List.mem_map_of_mem ht)
  exact ⟨u, by rw [frameworkForFile?, h, Option.bind_some, hu]⟩

/-- The index gives a file the target that builds the framework of the last file with its identifier
that any target builds. It gives targets of the snapshot only, so that a file has a target exactly if
the index holds the file. -/
theorem frameworks_give_last_builder (c : Cache) (file : Guid) :
    (∀ guid, c.frameworks.lookup file = some guid ↔
      ∃ t, c.LastBuilt file t ∧ t.guid = guid) ∧
    (∀ guid, c.frameworks.lookup file = some guid → ∃ t ∈ c.targets, t.guid = guid) ∧
    (∀ t, c.frameworkForFile? file = some t → c.frameworks.lookup file = some t.guid) ∧
    ((∃ t, c.frameworkForFile? file = some t) ↔ ∃ guid, c.frameworks.lookup file = some guid) := by
  refine ⟨fun guid => lookup_frameworks_iff, fun guid h => ?_, fun t => lookup_of_frameworkForFile?,
    ?_⟩
  · obtain ⟨t, ht, hguid, -⟩ := mem_of_lookup_frameworks h
    exact ⟨t, ht, hguid⟩
  · exact ⟨fun ⟨t, ht⟩ => ⟨_, lookup_of_frameworkForFile? ht⟩,
      fun ⟨_, hguid⟩ => exists_frameworkForFile? hguid⟩

end Cache

end BitcodeReplay.Pif
