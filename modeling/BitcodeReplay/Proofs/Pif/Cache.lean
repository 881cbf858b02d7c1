import BitcodeReplay.Pif.Load
import BitcodeReplay.Proofs.List
import Mathlib.Data.List.Nodup

/-!
A snapshot holds each identifier once, and what is found in it by name is one of its targets. Direct
dependencies are targets of the snapshot as well, each once and never the target itself.
-/

namespace BitcodeReplay.Pif.Cache

variable {c : Cache} {name : String} {t : Target}

/-! ### What is found -/

/-- A target found by a name is one of the snapshot. -/
theorem mem_of_targetNamed? (h : c.targetNamed? name = some t) : t ∈ c.targets := by
  simp only [targetNamed?, Option.orElse_eq_orElse, Option.orElse_eq_or,
    Option.or_eq_some_iff] at h
  rcases h with hname | ⟨-, hproduct⟩
  · exact List.mem_of_find?_eq_some hname
  · exact List.mem_of_find?_eq_some hproduct

theorem target?_of_mem (hc : c.guids.Nodup) (ht : t ∈ c.targets) : c.target? t.guid = some t :=
  find?_key_of_mem hc ht

theorem guid_of_target? {a : Guid} {t : Target} (h : c.target? a = some t) : t.guid = a := by
  simpa using List.find?_some h

/-- A target is found by its identifier once it has been found by any. -/
theorem target?_guid {a : Guid} {t : Target} (h : c.target? a = some t) :
    c.target? t.guid = some t := by
  rwa [guid_of_target? h]

theorem mem_guids_of_target? {a : Guid} {t : Target} (h : c.target? a = some t) :
    a ∈ c.guids := by
  rw [← guid_of_target? h]
  exact List.mem_map_of_mem (List.mem_of_find?_eq_some h)

theorem mem_guids_iff {a : Guid} : a ∈ c.guids ↔ ∃ t, c.target? a = some t := by
  constructor
  · intro h
    obtain ⟨t, ht, rfl⟩ := List.mem_map.1 h
    exact Option.isSome_iff_exists.1 (List.find?_isSome.2 ⟨t, ht, by simp⟩)
  · rintro ⟨t, ht⟩
    exact mem_guids_of_target? ht

/-! ### Putting together -/

theorem guids_recordTarget (t : Target) (targets : List Target) :
    (recordTarget t targets).map (·.guid) =
      if t.guid ∈ targets.map (·.guid) then targets.map (·.guid)
      else targets.map (·.guid) ++ [t.guid] := by
  induction targets with
  | nil => rfl
  | cons u rest ih =>
    rw [recordTarget]
    by_cases h : u.guid = t.guid
    · simp [h]
    · rw [if_neg h, List.map_cons, ih]
      by_cases hmem : t.guid ∈ rest.map (·.guid) <;> simp [hmem, Ne.symm h]

theorem assemble_concat (workspace : Workspace) (projects : List Project) (targets : List Target)
    (t : Target) : (assemble workspace projects (targets ++ [t])).targets =
      recordTarget t (assemble workspace projects targets).targets := by
  rw [assemble, List.foldl_append]
  rfl

/-- Each identifier has the place where it comes first. -/
theorem guids_assemble (workspace : Workspace) (projects : List Project) (targets : List Target) :
    (assemble workspace projects targets).guids = (targets.map (·.guid)).eraseDups := by
  induction targets using List.reverseRecOn with
  | nil => rfl
  | append_singleton targets t ih =>
    have hmem : t.guid ∈ (targets.map (·.guid)).eraseDups ↔ t.guid ∈ targets.map (·.guid) :=
      List.mem_eraseDups
    rw [guids] at ih ⊢
    rw [assemble_concat, guids_recordTarget, ih, List.map_append, List.map_singleton,
      eraseDups_concat]
    simp only [hmem]

theorem nodup_guids_assemble (workspace : Workspace) (projects : List Project)
    (targets : List Target) : (assemble workspace projects targets).guids.Nodup := by
  rw [guids_assemble]
  exact nodup_eraseDups _

theorem find?_recordTarget (t : Target) (targets : List Target) (guid : Guid) :
    (recordTarget t targets).find? (·.guid == guid) =
      if t.guid = guid then some t else targets.find? (·.guid == guid) := by
  induction targets with
  | nil => by_cases h : t.guid = guid <;> simp [recordTarget, h]
  | cons u rest ih =>
    rw [recordTarget]
    by_cases hsame : u.guid = t.guid
    · by_cases h : t.guid = guid <;> simp [hsame, h]
    · rw [if_neg hsame]
      by_cases hu : u.guid = guid
      · have ht : t.guid ≠ guid := fun h => hsame (hu.trans h.symm)
        simp [hu, ht]
      · simp [hu, ih]

/-- Each identifier has the target that comes last. -/
theorem target?_assemble (workspace : Workspace) (projects : List Project) (targets : List Target)
    (guid : Guid) : (assemble workspace projects targets).target? guid =
      targets.reverse.find? (·.guid == guid) := by
  induction targets using List.reverseRecOn with
  | nil => rfl
  | append_singleton targets t ih =>
    rw [target?] at ih ⊢
    rw [assemble_concat, find?_recordTarget, ih, List.reverse_append, List.reverse_singleton,
      List.singleton_append, List.find?_cons]
    by_cases h : t.guid = guid
    · rw [if_pos h, beq_iff_eq.2 h]
    · rw [if_neg h, beq_false_of_ne h]

/-- A snapshot that has been loaded holds each identifier once. -/
theorem nodup_guids_of_load {tree : FileTree} {root : String} (h : load tree root = .ok c) :
    c.guids.Nodup := by
  simp only [load, bind, Except.bind] at h
  split at h
  · cases h
  split at h
  · cases h
  split at h
  · cases h
  split at h
  · cases h
  cases h
  exact nodup_guids_assemble _ _ _

/-! ### Direct dependencies -/

theorem mem_firstOfEach {seen : List Guid} {ts : List Target} {t : Target}
    (h : t ∈ firstOfEach seen ts) : t ∈ ts ∧ t.guid ∉ seen := by
  induction ts generalizing seen with
  | nil => simp [firstOfEach] at h
  | cons u rest ih =>
    rw [firstOfEach] at h
    split at h
    · exact ⟨List.mem_cons_of_mem _ (ih h).1, (ih h).2⟩
    · next hu =>
      rcases List.mem_cons.1 h with rfl | h
      · exact ⟨List.mem_cons_self, hu⟩
      · exact ⟨List.mem_cons_of_mem _ (ih h).1, fun hs => (ih h).2 (List.mem_cons_of_mem _ hs)⟩

theorem nodup_firstOfEach (seen : List Guid) (ts : List Target) :
    ((firstOfEach seen ts).map (·.guid)).Nodup := by
  induction ts generalizing seen with
  | nil => simp [firstOfEach]
  | cons u rest ih =>
    rw [firstOfEach]
    split
    · exact ih seen
    · rw [List.map_cons, List.nodup_cons]
      refine ⟨fun hu => ?_, ih _⟩
      obtain ⟨t, ht, hguid⟩ := List.mem_map.1 hu
      exact (mem_firstOfEach ht).2 (hguid ▸ List.mem_cons_self)

theorem target?_of_declared? {a : Guid} {t : Target} (h : c.declared? a = some t) :
    c.target? t.guid = some t := by
  obtain ⟨u, hu, h⟩ := Option.bind_eq_some_iff.1 h
  split at h
  · obtain ⟨b, -, hb⟩ := Option.bind_eq_some_iff.1 h
    exact target?_guid hb
  · exact Option.some.inj h ▸ target?_guid hu
  · exact Option.some.inj h ▸ target?_guid hu

theorem target?_of_linked? {file : BuildFile} {t : Target} (h : c.linked? file = some t) :
    c.target? t.guid = some t := by
  rw [linked?] at h
  split at h
  · obtain ⟨b, -, hb⟩ := Option.bind_eq_some_iff.1 h
    exact target?_guid hb
  · exact absurd h (by simp)

/-- Direct dependencies are targets of the snapshot, and never the target itself. -/
theorem target?_of_mem_dependencies {t u : Target} (h : u ∈ c.dependencies t) :
    c.target? u.guid = some u ∧ u.guid ≠ t.guid := by
  obtain ⟨hu, hne⟩ := mem_firstOfEach h
  refine ⟨?_, by simpa using hne⟩
  rcases List.mem_append.1 hu with hu | hu
  · obtain ⟨d, -, hd⟩ := List.mem_filterMap.1 hu
    exact target?_of_declared? hd
  · obtain ⟨f, -, hf⟩ := List.mem_filterMap.1 hu
    exact target?_of_linked? hf

theorem filterMap_target?_dependencies (u : Target) :
    ((c.dependencies u).map (·.guid)).filterMap c.target? = c.dependencies u := by
  rw [List.filterMap_map]
  calc
    _ = (c.dependencies u).filterMap (some ∘ id) := by
      apply List.filterMap_congr
      intro v hv
      exact (target?_of_mem_dependencies hv).1
    _ = c.dependencies u := by rw [List.filterMap_eq_map, List.map_id]

theorem dependencyGuids_eq {a : Guid} {t : Target} (h : c.target? a = some t) :
    c.dependencyGuids a = (c.dependencies t).map (·.guid) := by
  simp only [dependencyGuids, h]

theorem nodup_dependencyGuids (a : Guid) : (c.dependencyGuids a).Nodup := by
  rw [dependencyGuids]
  split
  · exact nodup_firstOfEach _ _
  · exact List.nodup_nil

/-- An edge of the traversal leads from a target to a direct dependency of it. -/
theorem mem_dependencyGuids {a b : Guid} : b ∈ c.dependencyGuids a ↔
    ∃ t u, c.target? a = some t ∧ c.target? b = some u ∧ u ∈ c.dependencies t := by
  constructor
  · intro h
    rw [dependencyGuids] at h
    split at h
    · next t ht =>
      obtain ⟨u, hu, rfl⟩ := List.mem_map.1 h
      exact ⟨t, u, ht, (target?_of_mem_dependencies hu).1, hu⟩
    · simp at h
  · rintro ⟨t, u, ht, hu, hd⟩
    rw [dependencyGuids_eq ht]
    exact List.mem_map.2 ⟨u, hd, guid_of_target? hu⟩

/-- The name of the target of an identifier. -/
def nameOf (c : Cache) (a : Guid) : String := ((c.target? a).map (·.name)).getD ""

theorem nameOf_guid {a : Guid} {t : Target} (h : c.target? a = some t) : c.nameOf a = t.name := by
  simp [nameOf, h]

end BitcodeReplay.Pif.Cache
