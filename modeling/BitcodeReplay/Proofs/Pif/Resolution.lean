import BitcodeReplay.Proofs.Pif.Frameworks

/-!
What the direct dependencies of a target are: the targets that its declared identifiers and the
framework files of its build phases stand for, each at its first place. A package product stands for
the package target of its own name, so that package products do not appear among dependencies.
-/

namespace BitcodeReplay.Pif

namespace Guid

theorem untagged?_eq_some_iff {tag : String} {guid : Guid} {name : String} :
    untagged? tag guid = some name ↔ guid = tag ++ name := by
  rw [untagged?, Option.map_eq_some_iff]
  simp only [Text.dropStart?_eq_some_iff]
  constructor
  · rintro ⟨rest, hrest, rfl⟩
    rw [← String.toList_inj, hrest]
    simp
  · rintro rfl
    exact ⟨name.toList, by simp, by simp⟩

end Guid

theorem TargetKind.ofName?_eq_packageProduct {name : String}
    (h : ofName? name = some .packageProduct) : name = "packageProduct" := by
  unfold ofName? at h
  split at h
  · cases h
  · cases h
  · rfl
  · next => cases h

namespace Target

/-- A target that has been read from its object. -/
def IsDecoded (t : Target) : Prop := ∃ value, ofJson value = .ok t

/-- A package product has a product type of its own. -/
theorem IsDecoded.productType {t : Target} (h : t.IsDecoded) (hkind : t.kind = .packageProduct) :
    t.productType = .packageProduct := by
  obtain ⟨value, h⟩ := h
  simp only [ofJson, bind, Except.bind] at h
  split at h
  · cases h
  next kind _ =>
    split at h
    · cases h
    split at h
    · cases h
    split at h
    · cases h
    split at h
    · cases h
    split at h
    · next known hknown =>
      cases h
      simp only at hkind
      subst hkind
      rw [Fields.type, if_pos (TargetKind.ofName?_eq_packageProduct hknown)]
    · cases h

/-- The name of a package product as its package target has it: the one that its identifier is tagged
with, or else the name of the target. -/
def HasBareName (product : Target) (name : String) : Prop :=
  product.guid = "PACKAGE-PRODUCT:" ++ name ∨
    (∀ other, product.guid ≠ "PACKAGE-PRODUCT:" ++ other) ∧ product.name = name

theorem hasBareName_iff {product : Target} {name : String} : product.HasBareName name ↔
    (Guid.packageProduct? product.guid).getD product.name = name := by
  have htagged : ∀ other, product.guid = "PACKAGE-PRODUCT:" ++ other ↔
      Guid.packageProduct? product.guid = some other := fun _ => Guid.untagged?_eq_some_iff.symm
  simp only [HasBareName, ne_eq, htagged]
  cases Guid.packageProduct? product.guid <;> simp

end Target

namespace Cache

variable {c : Cache} {guid : Guid} {t u : Target}

/-- What a declared identifier stands for. -/
inductive Resolves (c : Cache) (guid : Guid) : Target → Prop
  | self {t : Target} : c.target? guid = some t → t.kind ≠ .packageProduct → Resolves c guid t
  | package {product t : Target} {name : String} : c.target? guid = some product →
      product.kind = .packageProduct → product.HasBareName name →
      "PACKAGE-TARGET:" ++ name ∈ product.dependencies.map (·.guid) →
      c.target? ("PACKAGE-TARGET:" ++ name) = some t → Resolves c guid t

theorem packageTarget?_eq_some_iff {product : Target} : c.packageTarget? product = some t ↔
    ∃ name, product.HasBareName name ∧
      "PACKAGE-TARGET:" ++ name ∈ product.dependencies.map (·.guid) ∧
      c.target? ("PACKAGE-TARGET:" ++ name) = some t := by
  simp only [Target.hasBareName_iff, exists_eq_left', packageTarget?]
  generalize (Guid.packageProduct? product.guid).getD product.name = name
  have hsame : ∀ g : Guid, (Guid.packageTarget? g == some name) = (g == "PACKAGE-TARGET:" ++ name) := by
    intro g
    rw [Bool.eq_iff_iff, beq_iff_eq, beq_iff_eq]
    exact Guid.untagged?_eq_some_iff
  simp only [hsame, Option.bind_eq_some_iff]
  constructor
  · rintro ⟨g, hg, ht⟩
    obtain rfl : g = "PACKAGE-TARGET:" ++ name := by simpa using List.find?_some hg
    exact ⟨List.mem_of_find?_eq_some hg, ht⟩
  · rintro ⟨hmem, ht⟩
    obtain ⟨g, hg⟩ := Option.isSome_iff_exists.1
      (List.find?_isSome (p := (· == "PACKAGE-TARGET:" ++ name)).2 ⟨_, hmem, beq_self_eq_true _⟩)
    obtain rfl : g = "PACKAGE-TARGET:" ++ name := by simpa using List.find?_some hg
    exact ⟨_, hg, ht⟩

theorem declared?_eq_some_iff : c.declared? guid = some t ↔ c.Resolves guid t := by
  constructor
  · intro h
    obtain ⟨u, hu, h⟩ := Option.bind_eq_some_iff.1 h
    cases hkind : u.kind with
    | packageProduct =>
      rw [hkind] at h
      obtain ⟨name, hname, hmem, ht⟩ := packageTarget?_eq_some_iff.1 h
      exact .package hu hkind hname hmem ht
    | standard =>
      rw [hkind] at h
      cases h
      exact .self hu (by simp [hkind])
    | aggregate =>
      rw [hkind] at h
      cases h
      exact .self hu (by simp [hkind])
  · rintro (⟨ht, hkind⟩ | ⟨hproduct, hkind, hname, hmem, ht⟩)
    · rw [declared?, ht, Option.bind_some]
      split
      · next h => exact absurd h hkind
      · rfl
      · rfl
    · rw [declared?, hproduct, Option.bind_some, hkind]
      exact packageTarget?_eq_some_iff.2 ⟨_, hname, hmem, ht⟩

/-- Of targets that are kept by their identifiers, the first ones are kept. -/
theorem eraseDupsBy_filter (keep : Guid → Bool) (ts : List Target) :
    (ts.filter (keep ·.guid)).eraseDupsBy (fun a b => a.guid == b.guid) =
      (ts.eraseDupsBy fun a b => a.guid == b.guid).filter (keep ·.guid) := by
  -- what is left after the first target is no tail of the list
  induction hn : ts.length using Nat.strongRecOn generalizing ts with
  | ind n ih =>
    cases ts with
    | nil => rfl
    | cons t rest =>
      have hlt : (rest.filter fun u => decide ((u.guid == t.guid) = false)).length < n :=
        lt_of_le_of_lt (List.length_filter_le _ _) (by simp [← hn])
      rw [List.eraseDupsBy_cons, List.filter_cons, List.filter_cons, ← ih _ hlt _ rfl,
        List.filter_filter]
      by_cases hkeep : keep t.guid = true
      · rw [if_pos hkeep, if_pos hkeep, List.eraseDupsBy_cons, List.filter_filter]
        simp only [Bool.and_comm]
      · rw [if_neg hkeep, if_neg hkeep]
        congr 1
        refine List.filter_congr fun u _ => ?_
        by_cases hu : u.guid = t.guid
        · simp [hu, hkeep]
        · simp [hu]

theorem firstOfEach_eq (seen : List Guid) (ts : List Target) : firstOfEach seen ts =
    (ts.eraseDupsBy fun a b => a.guid == b.guid).filter fun t => decide (t.guid ∉ seen) := by
  rw [← eraseDupsBy_filter fun g => decide (g ∉ seen)]
  induction ts generalizing seen with
  | nil => rfl
  | cons t rest ih =>
    rw [firstOfEach, List.filter_cons]
    by_cases h : t.guid ∈ seen
    · simp [h, ih]
    · rw [if_neg h, if_pos (by simpa using h), List.eraseDupsBy_cons, ih, List.filter_filter]
      congr 2
      refine List.filter_congr fun u _ => ?_
      by_cases hu : u.guid = t.guid <;> simp [hu]

/-- A snapshot that has been put together from objects. -/
def IsAssembled (c : Cache) : Prop :=
  ∃ workspace projects targets, c = assemble workspace projects targets ∧
    ∀ t ∈ targets, t.IsDecoded

theorem IsAssembled.nodup (h : c.IsAssembled) : c.guids.Nodup := by
  obtain ⟨workspace, projects, targets, rfl, -⟩ := h
  exact nodup_guids_assemble workspace projects targets

theorem mem_recordTarget {ts : List Target} (h : u ∈ recordTarget t ts) : u = t ∨ u ∈ ts := by
  induction ts with
  | nil => exact .inl (List.mem_singleton.1 h)
  | cons v rest ih =>
    rw [recordTarget] at h
    split at h
    · exact (List.mem_cons.1 h).imp_right (List.mem_cons_of_mem _)
    · rcases List.mem_cons.1 h with rfl | h
      · exact .inr List.mem_cons_self
      · exact (ih h).imp_right (List.mem_cons_of_mem _)

theorem IsAssembled.isDecoded (h : c.IsAssembled) (ht : t ∈ c.targets) : t.IsDecoded := by
  obtain ⟨workspace, projects, targets, rfl, hdecoded⟩ := h
  refine hdecoded t ?_
  clear hdecoded
  induction targets using List.reverseRecOn with
  | nil => cases ht
  | append_singleton targets last ih =>
    rw [assemble_concat] at ht
    rcases mem_recordTarget ht with rfl | ht
    · simp
    · exact List.mem_append_left _ (ih ht)

/-- No package product is linked as a framework. -/
theorem IsAssembled.kind_of_frameworkForFile? (h : c.IsAssembled) {file : Guid}
    (ht : c.frameworkForFile? file = some t) : t.kind ≠ .packageProduct := by
  intro hkind
  obtain ⟨u, hu, hguid, hframework⟩ := mem_of_lookup_frameworks (lookup_of_frameworkForFile? ht)
  obtain ⟨_, -, ht⟩ := Option.bind_eq_some_iff.1 ht
  obtain rfl : u = t := by
    have hfound := target?_of_mem h.nodup hu
    rw [hguid, target?_guid ht] at hfound
    exact (Option.some.inj hfound).symm
  rw [(h.isDecoded hu).productType hkind] at hframework
  cases hframework

/-- The direct dependencies of a target are what its declared identifiers resolve to and then the
frameworks that its build phases link by file, without what resolves to nothing, each target at its
first place and the target itself nowhere. They are targets of the snapshot, and package products
only if a package product is identified as a package target. -/
theorem dependencies_are_first_resolved (c : Cache) (t : Target) :
    (∀ guid u, c.declared? guid = some u ↔ c.Resolves guid u) ∧
    c.dependencies t =
      ((t.dependencies.filterMap (fun d => c.declared? d.guid) ++
        (t.buildPhases.flatMap (·.buildFiles)).filterMap fun entry =>
          match entry.subject with
          | .file file => c.frameworkForFile? file
          | .target _ => none).eraseDupsBy fun a b => a.guid == b.guid).filter
        (fun u => decide (u.guid ≠ t.guid)) ∧
    ((c.dependencies t).map (·.guid)).Nodup ∧ t.guid ∉ (c.dependencies t).map (·.guid) ∧
    (∀ u ∈ c.dependencies t, u ∈ c.targets) ∧
    (c.IsAssembled → ∀ u ∈ c.dependencies t, u.kind = .packageProduct →
      ∃ name, u.guid = "PACKAGE-TARGET:" ++ name) := by
  refine ⟨fun guid u => declared?_eq_some_iff, ?_, nodup_firstOfEach _ _, ?_, ?_, ?_⟩
  · rw [dependencies, firstOfEach_eq]
    simp only [List.mem_singleton]
    rfl
  · intro hmem
    obtain ⟨u, hu, hguid⟩ := List.mem_map.1 hmem
    exact (target?_of_mem_dependencies hu).2 hguid
  · intro u hu
    exact List.mem_of_find?_eq_some (target?_of_mem_dependencies hu).1
  · intro hc u hu hkind
    rcases List.mem_append.1 (mem_firstOfEach hu).1 with hu | hu
    · obtain ⟨d, -, hd⟩ := List.mem_filterMap.1 hu
      rcases declared?_eq_some_iff.1 hd with ⟨-, hother⟩ | ⟨-, -, -, -, hfound⟩
      · exact absurd hkind hother
      · exact ⟨_, guid_of_target? hfound⟩
    · obtain ⟨entry, -, hentry⟩ := List.mem_filterMap.1 hu
      rw [linked?] at hentry
      split at hentry
      · exact absurd hkind (hc.kind_of_frameworkForFile? hentry)
      · cases hentry

/-! ### A package product in the place of a package target -/

def appObject : Json := .object [("type", .string "standard"), ("guid", .string "A"),
  ("name", .string "App"), ("dependencies", .array [.object [("guid", .string "A")],
    .object [("guid", .string "PACKAGE-PRODUCT:Kit")], .object [("guid", .string "gone")]])]

def kitObject : Json := .object [("type", .string "packageProduct"),
  ("guid", .string "PACKAGE-PRODUCT:Kit"), ("name", .string "Other"),
  ("dependencies", .array [.object [("guid", .string "PACKAGE-TARGET:Other")],
    .object [("guid", .string "PACKAGE-TARGET:Kit")]])]

def nestedObject : Json := .object [("type", .string "packageProduct"),
  ("guid", .string "PACKAGE-TARGET:Kit"), ("name", .string "Kit")]

def dependencyOn (guid : Guid) : TargetDependency := ⟨guid, []⟩

def app : Target := ⟨.standard, "A", "App",
  ["A", "PACKAGE-PRODUCT:Kit", "gone"].map dependencyOn, [], [], .none, ""⟩

def kit : Target := ⟨.packageProduct, "PACKAGE-PRODUCT:Kit", "Other",
  ["PACKAGE-TARGET:Other", "PACKAGE-TARGET:Kit"].map dependencyOn, [], [], .packageProduct, ""⟩

def nested : Target :=
  ⟨.packageProduct, "PACKAGE-TARGET:Kit", "Kit", [], [], [], .packageProduct, ""⟩

def nestedCache : Cache := assemble ⟨"W", "W", "/w", []⟩ [] [app, kit, nested]

theorem isAssembled_nestedCache : nestedCache.IsAssembled := by
  refine ⟨_, _, _, rfl, ?_⟩
  simp only [List.forall_mem_cons, List.not_mem_nil, false_implies, implies_true, and_true]
  exact ⟨⟨appObject, rfl⟩, ⟨kitObject, rfl⟩, ⟨nestedObject, rfl⟩⟩

theorem dependencies_are_first_resolved_nested :
    nestedCache.IsAssembled ∧ nestedCache.dependencies app = [nested] ∧
      nested.kind = .packageProduct ∧ ∃ name, nested.guid = "PACKAGE-TARGET:" ++ name := by
  have hdependencies : nestedCache.dependencies app = [nested] := rfl
  obtain ⟨-, -, -, -, -, hpackage⟩ := dependencies_are_first_resolved nestedCache app
  exact ⟨isAssembled_nestedCache, hdependencies, rfl,
    hpackage isAssembled_nestedCache nested (by simp [hdependencies]) rfl⟩

end Cache

end BitcodeReplay.Pif
