import BitcodeReplay.Pif.Reference
import BitcodeReplay.Pif.Target
import BitcodeReplay.Proofs.Json.Record
import Mathlib.Logic.Relation

/-!
What has no meaning here has no part in what an object of a project decodes to. A step removes one
thing somewhere in a value: a member of a name that is not known there, a child or a phase of a kind
that is not modelled, or such a phase beside the others of a package product. However many steps are
taken, the outcome stays the same, be it a value or the error that comes first.
-/

namespace BitcodeReplay.Pif

open Json

/-! ### What is looked at where -/

/-- How a part of a project object is looked at. A plain part is a text or nothing that is looked
into, and settings are kept as they are. -/
inductive Shape where
  | plain
  | settings
  | list (item : Shape)
  | reference
  | phase
  | target
  | dependency
  | platformFilter
  | buildFile
  | configuration
  | product
  deriving DecidableEq, Repr

namespace Shape

/-- Fields with the shapes of their values. -/
def shaped (fields : List Field) (shapes : List Shape) : List (String × Shape) :=
  (fields.map (·.name)).zip shapes

/-- The fields of a node of the group tree, which depend on its kind. -/
def nodeFields (kind : String) : List (String × Shape) :=
  let shared := shaped Node.fields [.plain, .plain, .plain, .plain]
  if (Reference.groupKind? kind).isSome then ("children", .list .reference) :: shared
  else if kind = "file" then ("fileType", .plain) :: shared
  else []

/-- The fields of a phase, which are looked at only where the kind of the phase is modelled. -/
def phaseFields (kind : String) : List (String × Shape) :=
  if (PhaseKind.ofIdentifier? kind).isSome then
    shaped BuildPhase.fields [.plain, .list .buildFile]
  else []

/-- The fields that are known in a part, in their order. -/
def fields (shape : Shape) (value : Json) : List (String × Shape) :=
  match shape with
  | .plain | .settings | .list _ => []
  | .reference => (kindOf value).toOption.elim [] nodeFields
  | .phase => (kindOf value).toOption.elim [] phaseFields
  | .target => shaped Target.fields
    [.plain, .plain, .list .dependency, .list .phase, .phase, .list .configuration, .plain,
      .product]
  | .dependency => shaped TargetDependency.fields [.plain, .list .platformFilter]
  | .platformFilter => shaped PlatformFilter.fields [.plain, .plain]
  | .buildFile => shaped BuildFile.fields [.plain, .plain, .plain, .list .platformFilter]
  | .configuration => shaped BuildConfiguration.fields [.plain, .plain, .settings]
  | .product => shaped ProductReference.fields [.plain, .plain]

/-- The shape of a member whose name is known. In settings all names are. -/
def member? (shape : Shape) (value : Json) (name : String) : Option Shape :=
  if shape = .settings then some .settings else (shape.fields value).lookup name

/-- The shape of an item of an array, which is one of a list or a field of a record. -/
def item (shape : Shape) (value : Json) (i : Nat) : Shape :=
  match shape with
  | .list item => item
  | .settings => .settings
  | shape => (((shape.fields value)[i]?).map (·.2)).getD .plain

/-- A part that has fields, if any. -/
def IsRecord (shape : Shape) : Prop := shape ≠ .settings ∧ ∀ item, shape ≠ .list item

end Shape

/-- One thing that has no meaning has been removed somewhere in a part of some shape. -/
inductive Drops : Shape → Json → Json → Prop
  | key {shape : Shape} {front back : List (String × Json)} {name : String} {value : Json}
      (htype : name ≠ "type")
      (hunknown : shape.member? (.object (front ++ (name, value) :: back)) name = none) :
      Drops shape (.object (front ++ (name, value) :: back)) (.object (front ++ back))
  | child {front back : List Json} {members : List (String × Json)} {kind : String}
      (hkind : kindOf (.object members) = .ok kind) (hgroup : Reference.groupKind? kind = none)
      (hfile : kind ≠ "file") :
      Drops (.list .reference) (.array (front ++ .object members :: back)) (.array (front ++ back))
  | phase {front back : List Json} {members : List (String × Json)} {kind : String}
      (hkind : kindOf (.object members) = .ok kind)
      (hphase : PhaseKind.ofIdentifier? kind = none) :
      Drops (.list .phase) (.array (front ++ .object members :: back)) (.array (front ++ back))
  | extraPhase {front back members : List (String × Json)} {kind : String}
      (hkind : kindOf (.object members) = .ok kind)
      (hphase : PhaseKind.ofIdentifier? kind = none) :
      Drops .target (.object (front ++ ("frameworksBuildPhase", .object members) :: back))
        (.object (front ++ ("frameworksBuildPhase", .null) :: back))
  | member {shape : Shape} {front back : List (String × Json)} {name : String} {value value' : Json}
      (h : Drops ((shape.member? (.object (front ++ (name, value) :: back)) name).getD .plain)
        value value') :
      Drops shape (.object (front ++ (name, value) :: back))
        (.object (front ++ (name, value') :: back))
  | item {shape : Shape} {front back : List Json} {value value' : Json}
      (h : Drops (shape.item (.array (front ++ value :: back)) front.length) value value') :
      Drops shape (.array (front ++ value :: back)) (.array (front ++ value' :: back))

variable {shape : Shape} {value value' : Json} {ρ σ τ : Type}

theorem Drops.isContainer (h : Drops shape value value') :
    value.IsContainer ∧ value'.IsContainer := by
  cases h with
  | key | extraPhase | member => exact ⟨.inr ⟨_, rfl⟩, .inr ⟨_, rfl⟩⟩
  | child | phase | item => exact ⟨.inl ⟨_, rfl⟩, .inl ⟨_, rfl⟩⟩

theorem Drops.text_eq (h : Drops shape value value') :
    (text value : Except (Json.DecodeError ρ) String) = text value' := by
  rw [h.isContainer.1.text_eq, h.isContainer.2.text_eq]

theorem Drops.nullable_eq (h : Drops shape value value')
    {decode : Json → Except (Json.DecodeError ρ) τ} (hdecode : decode value = decode value') :
    nullable decode value = nullable decode value' := by
  rw [h.isContainer.1.nullable_eq, h.isContainer.2.nullable_eq, hdecode]

/-- Nothing is removed from settings. -/
theorem not_drops_settings : ¬ Drops .settings value value' := by
  intro h
  generalize hshape : Shape.settings = shape at h
  induction h with
  | key htype hunknown =>
    subst hshape
    cases hunknown
  | child | phase | extraPhase => cases hshape
  | member h ih =>
    subst hshape
    exact ih rfl
  | item h ih =>
    subst hshape
    exact ih rfl

/-- What is removed from a list is an item without a meaning, or something in an item. -/
theorem Drops.listOf_eq {item : Shape} (h : Drops (.list item) value value')
    (hreference : item ≠ .reference) (hphase : item ≠ .phase)
    {decode : Json → Except (Json.DecodeError ρ) τ}
    (hitem : ∀ w w', Drops item w w' → decode w = decode w') :
    listOf decode value = listOf decode value' := by
  cases h with
  | key | member => rfl
  | child => exact absurd rfl hreference
  | phase => exact absurd rfl hphase
  | item h =>
    rw [listOf, listOf]
    simp only [Json.Node.view]
    rw [mapM_changed (hitem _ _ h)]

/-! ### Records -/

/-- The kind of a part stays. -/
theorem Drops.kindOf_eq (h : Drops shape value value') (hrecord : shape.IsRecord) :
    kindOf value = kindOf value' := by
  have hread : ∀ {inner : Shape} {w w' : Json}, Drops inner w w' → ∀ name,
      AcceptsAlike (· = ·) (fun (_ : Option String) (_ : String) (node : Json) =>
        ((text node).map some : Except DecodeError (Option String))) name w w' :=
    fun hinner _ => acceptsAlike_of_eq fun _ => by rw [hinner.text_eq]
  rw [kindOf, kindOf]
  congr 1
  refine SameOutcome.eq ?_
  cases h with
  | @key _ front back name _ htype =>
    have hname : [(⟨"type", false⟩ : Field)].any (·.name == name) = false := by
      simpa using htype.symm
    rw [record_object, record_object]
    exact visitMembers_dropped (respects_eq _) hname front back [] rfl
  | child | phase => exact absurd rfl (hrecord.2 _)
  | @extraPhase front back =>
    rw [record_object, record_object]
    exact visitMembers_changed (respects_eq _) (by simp) front back [] rfl
  | @member _ front back name _ _ hinner =>
    rw [record_object, record_object]
    exact visitMembers_changed (respects_eq _) (fun _ => hread hinner name) front back [] rfl
  | @item _ front back _ _ hinner =>
    rw [record_array, record_array]
    exact visitItems_changed (respects_eq _) front back _
      (fun field _ => hread hinner field.name) rfl

theorem Shape.IsRecord.member?_eq (h : shape.IsRecord) (value : Json) (name : String) :
    shape.member? value name = (shape.fields value).lookup name := if_neg h.1

theorem Shape.IsRecord.item_eq (h : shape.IsRecord) (value : Json) (i : Nat) :
    shape.item value i = (((shape.fields value)[i]?).map (·.2)).getD .plain := by
  cases shape with
  | settings => exact absurd rfl h.1
  | list item => exact absurd rfl (h.2 item)
  | _ => rfl

theorem not_mem_of_lookup {fields : List (String × Shape)} {name : String}
    (h : fields.lookup name = none) : name ∉ fields.map (·.1) := by
  intro hmem
  obtain ⟨field, hfield, rfl⟩ := List.mem_map.1 hmem
  simpa using List.lookup_eq_none_iff.1 h field hfield

/-- A record decodes alike if what is removed from one of its fields does not count there. -/
theorem Drops.record_related {R : σ → σ → Prop} {known : List Field}
    {accept : σ → String → Json → Except (Json.DecodeError ρ) σ} {init : σ}
    (h : Drops shape value value') (hrecord : shape.IsRecord) (hrefl : R init init)
    (hknown : (shape.fields value).map (·.1) = known.map (·.name)) (hsame : Respects R accept)
    (hfield : ∀ name inner, (name, inner) ∈ shape.fields value → ∀ w w', Drops inner w w' →
      AcceptsAlike R accept name w w')
    (hextra : shape = .target → ∀ members kind, kindOf (.object members) = .ok kind →
      PhaseKind.ofIdentifier? kind = none →
        AcceptsAlike R accept "frameworksBuildPhase" (.object members) .null) :
    SameOutcome R (record known accept init value) (record known accept init value') := by
  have hany : ∀ name, known.any (·.name == name) = true ↔
      name ∈ (shape.fields value).map (·.1) := by
    intro name
    simp [hknown]
  cases h with
  | @key _ front back name removed _ hunknown =>
    rw [hrecord.member?_eq] at hunknown
    have hname : known.any (·.name == name) = false := by
      rw [← Bool.not_eq_true, hany]
      exact not_mem_of_lookup hunknown
    rw [record_object, record_object]
    exact visitMembers_dropped hsame hname front back [] hrefl
  | child | phase => exact absurd rfl (hrecord.2 _)
  | @extraPhase front back members kind hkind hphase =>
    rw [record_object, record_object]
    exact visitMembers_changed hsame (fun _ => hextra rfl members kind hkind hphase) front back []
      hrefl
  | @member _ front back name old new hinner =>
    rw [record_object, record_object]
    refine visitMembers_changed hsame (fun hname => ?_) front back [] hrefl
    rw [hrecord.member?_eq] at hinner
    cases hlookup : (shape.fields (.object (front ++ (name, old) :: back))).lookup name with
    | none =>
      obtain ⟨field, hmem, hfieldname⟩ := List.mem_map.1 ((hany name).1 hname)
      have hne := List.lookup_eq_none_iff.1 hlookup field hmem
      simp [hfieldname] at hne
    | some inner =>
      rw [hlookup, Option.getD_some] at hinner
      obtain ⟨before, behind, hsplit, -⟩ := List.lookup_eq_some_iff.1 hlookup
      exact hfield name inner (by simp [hsplit]) old new hinner
  | @item _ front back old new hinner =>
    rw [record_array, record_array]
    refine visitItems_changed hsame front back known (fun field hat => ?_) hrefl
    rw [hrecord.item_eq] at hinner
    have hname := congrArg (·[front.length]?) hknown
    simp only [List.getElem?_map, hat, Option.map_some] at hname
    obtain ⟨⟨_, inner⟩, hat', rfl⟩ := Option.map_eq_some_iff.1 hname
    rw [hat', Option.map_some, Option.getD_some] at hinner
    exact hfield _ inner (List.mem_of_getElem? hat') old new hinner

/-- A record decodes alike if what is removed from one of its fields does not count there. -/
theorem Drops.record_eq {known : List Field}
    {accept : σ → String → Json → Except (Json.DecodeError ρ) σ} {init : σ}
    (h : Drops shape value value') (hrecord : shape.IsRecord) (htarget : shape ≠ .target)
    (hknown : (shape.fields value).map (·.1) = known.map (·.name))
    (hfield : ∀ name inner, (name, inner) ∈ shape.fields value → ∀ w w', Drops inner w w' →
      ∀ state, accept state name w = accept state name w') :
    record known accept init value = record known accept init value' :=
  (h.record_related hrecord rfl hknown (respects_eq accept)
    (fun name inner hmem w w' hw => acceptsAlike_of_eq (hfield name inner hmem w w' hw))
    fun he => absurd he htarget).eq

/-! ### Parts of a target -/

theorem Drops.platformFilter_eq (h : Drops .platformFilter value value') :
    PlatformFilter.decode value = PlatformFilter.decode value' := by
  refine h.record_eq ⟨by simp, by simp⟩ (by simp) rfl fun name inner hmem w w' hw state => ?_
  simp only [PlatformFilter.accept, hw.text_eq, hw.nullable_eq hw.text_eq]

theorem Drops.platformFilters_eq (h : Drops (.list .platformFilter) value value') :
    listOf PlatformFilter.decode value = listOf PlatformFilter.decode value' :=
  h.listOf_eq (by simp) (by simp) fun _ _ hw => hw.platformFilter_eq

theorem Drops.buildFile_eq (h : Drops .buildFile value value') :
    BuildFile.decode value = BuildFile.decode value' := by
  rw [BuildFile.decode, BuildFile.decode]
  congr 1
  refine h.record_eq ⟨by simp, by simp⟩ (by simp) rfl fun name inner hmem w w' hw state => ?_
  have hfields : (name, inner) ∈ [("guid", Shape.plain), ("fileReference", .plain),
    ("targetReference", .plain), ("platformFilters", .list .platformFilter)] := hmem
  simp only [List.mem_cons, Prod.mk.injEq, List.not_mem_nil, or_false] at hfields
  rcases hfields with ⟨rfl, rfl⟩ | ⟨rfl, rfl⟩ | ⟨rfl, rfl⟩ | ⟨rfl, rfl⟩
  · simp only [BuildFile.Fields.accept, hw.text_eq]
  · simp only [BuildFile.Fields.accept, hw.nullable_eq hw.text_eq]
  · simp only [BuildFile.Fields.accept, hw.nullable_eq hw.text_eq]
  · simp only [BuildFile.Fields.accept, hw.platformFilters_eq]

/-- The fields of a phase of a kind that is modelled. -/
theorem fields_phase {kind : String} {known : PhaseKind} (hkind : kindOf value = .ok kind)
    (hknown : PhaseKind.ofIdentifier? kind = some known) : Shape.fields .phase value =
      [("guid", .plain), ("buildFiles", .list .buildFile)] := by
  rw [Shape.fields, hkind, Except.toOption, Option.elim_some, Shape.phaseFields, hknown]
  rfl

theorem Drops.phase_eq (h : Drops .phase value value') :
    BuildPhase.ofJson? value = BuildPhase.ofJson? value' := by
  have hkind := h.kindOf_eq ⟨by simp, by simp⟩
  rw [BuildPhase.ofJson?, BuildPhase.ofJson?, ← hkind]
  cases hvalue : kindOf value with
  | error e => rfl
  | ok kind =>
    cases hknown : PhaseKind.ofIdentifier? kind with
    | none => simp only [bind, Except.bind, hknown]
    | some known =>
      have hfields := fields_phase hvalue hknown
      have hrecord : record BuildPhase.fields BuildPhase.accept (none, []) value =
          record BuildPhase.fields BuildPhase.accept (none, []) value' := by
        refine h.record_eq ⟨by simp, by simp⟩ (by simp) (by rw [hfields]; rfl)
          fun name inner hmem w w' hw state => ?_
        rw [hfields] at hmem
        simp only [List.mem_cons, Prod.mk.injEq, List.not_mem_nil, or_false] at hmem
        rcases hmem with ⟨rfl, rfl⟩ | ⟨rfl, rfl⟩
        · simp only [BuildPhase.accept, hw.text_eq]
        · simp only [BuildPhase.accept,
            hw.listOf_eq (by simp) (by simp) fun _ _ hfile => hfile.buildFile_eq]
      simp only [bind, Except.bind, hknown, hrecord]

theorem ofJson?_of_unmodelled {kind : String} (hkind : kindOf value = .ok kind)
    (hphase : PhaseKind.ofIdentifier? kind = none) : BuildPhase.ofJson? value = .ok none := by
  rw [BuildPhase.ofJson?, hkind]
  simp only [bind, Except.bind, hphase]
  rfl

theorem listOfJson_array (items : List Json) : BuildPhase.listOfJson (.array items) =
    (items.mapM BuildPhase.ofJson?).map List.reduceOption := by
  rw [BuildPhase.listOfJson, listOf]
  simp only [Json.Node.view]
  cases items.mapM BuildPhase.ofJson? with
  | ok phases => rfl
  | error e => rfl

/-- A list of phases is read alike if one of a kind that is not modelled is missing. -/
theorem Drops.phases_eq (h : Drops (.list .phase) value value') :
    BuildPhase.listOfJson value = BuildPhase.listOfJson value' := by
  cases h with
  | key | member => rfl
  | phase hkind hphase =>
    rw [listOfJson_array, listOfJson_array]
    exact reduceOption_mapM_dropped (ofJson?_of_unmodelled hkind hphase) _ _
  | item h =>
    rw [listOfJson_array, listOfJson_array, mapM_changed h.phase_eq]

theorem Drops.dependency_eq (h : Drops .dependency value value') :
    TargetDependency.ofJson value = TargetDependency.ofJson value' := by
  rw [TargetDependency.ofJson, TargetDependency.ofJson]
  congr 1
  refine h.record_eq ⟨by simp, by simp⟩ (by simp) rfl fun name inner hmem w w' hw state => ?_
  have hfields : (name, inner) ∈ [("guid", Shape.plain),
    ("platformFilters", .list .platformFilter)] := hmem
  simp only [List.mem_cons, Prod.mk.injEq, List.not_mem_nil, or_false] at hfields
  rcases hfields with ⟨rfl, rfl⟩ | ⟨rfl, rfl⟩
  · simp only [TargetDependency.accept, hw.text_eq]
  · simp only [TargetDependency.accept, hw.platformFilters_eq]

theorem Drops.configuration_eq (h : Drops .configuration value value') :
    BuildConfiguration.ofJson value = BuildConfiguration.ofJson value' := by
  rw [BuildConfiguration.ofJson, BuildConfiguration.ofJson]
  congr 1
  refine h.record_eq ⟨by simp, by simp⟩ (by simp) rfl fun name inner hmem w w' hw state => ?_
  have hfields : (name, inner) ∈ [("guid", Shape.plain), ("name", .plain),
    ("buildSettings", .settings)] := hmem
  simp only [List.mem_cons, Prod.mk.injEq, List.not_mem_nil, or_false] at hfields
  rcases hfields with ⟨rfl, rfl⟩ | ⟨rfl, rfl⟩ | ⟨rfl, rfl⟩
  · simp only [BuildConfiguration.Fields.accept, hw.nullable_eq hw.text_eq]
  · simp only [BuildConfiguration.Fields.accept, hw.text_eq]
  · exact absurd hw not_drops_settings

theorem Drops.product_eq (h : Drops .product value value') :
    ProductReference.ofJson value = ProductReference.ofJson value' := by
  rw [ProductReference.ofJson, ProductReference.ofJson]
  congr 1
  refine h.record_eq ⟨by simp, by simp⟩ (by simp) rfl fun name inner hmem w w' hw state => ?_
  simp only [ProductReference.accept, hw.text_eq]

/-! ### Targets -/

/-- Two sets of fields tell the same about a target, though they may hold different phases beside
the others, as long as these decode alike. -/
def SameFields (f f' : Target.Fields) : Prop :=
  ∃ phase, f' = { f with frameworksPhase := phase } ∧ f.extraPhase = f'.extraPhase

theorem SameFields.refl (f : Target.Fields) : SameFields f f := ⟨f.frameworksPhase, rfl, rfl⟩

/-- A part that is read and put in the same place keeps what two sets of fields tell. -/
theorem SameFields.bind {put put' : τ → Target.Fields} {x : Except DecodeError τ}
    (hput : ∀ a, SameFields (put a) (put' a)) :
    SameOutcome SameFields (x >>= fun a => pure (put a)) (x >>= fun a => pure (put' a)) :=
  (SameOutcome.refl (fun _ => rfl) x).bind fun a _ h => h ▸ .ok (hput a)

theorem respects_target : Respects SameFields Target.Fields.accept := by
  rintro field value f _ ⟨phase, rfl, hextra⟩
  unfold Target.Fields.accept
  split
  case h_5 => exact SameFields.bind fun _ => .refl _
  case h_9 => exact .ok ⟨phase, rfl, hextra⟩
  all_goals exact SameFields.bind fun _ => ⟨phase, rfl, hextra⟩

theorem accept_frameworksPhase (h : value.IsContainer) (f : Target.Fields) :
    f.accept "frameworksBuildPhase" value = .ok { f with frameworksPhase := some value } := by
  simp only [Target.Fields.accept, h.nullable_eq]
  rfl

/-- The fields of a target are found alike, up to a phase beside the others that decodes alike. -/
theorem Drops.targetFields_related (h : Drops .target value value') :
    SameOutcome SameFields (record Target.fields Target.Fields.accept {} value)
      (record Target.fields Target.Fields.accept {} value') := by
  refine h.record_related ⟨by simp, by simp⟩ (.refl _) rfl respects_target
    (fun name inner hmem w w' hw => ?_) fun _ members kind hkind hphase => ?_
  · have hfields : (name, inner) ∈ [("guid", Shape.plain), ("name", .plain),
      ("dependencies", .list .dependency), ("buildPhases", .list .phase),
      ("frameworksBuildPhase", .phase), ("buildConfigurations", .list .configuration),
      ("productTypeIdentifier", .plain), ("productReference", .product)] := hmem
    simp only [List.mem_cons, Prod.mk.injEq, List.not_mem_nil, or_false] at hfields
    rcases hfields with ⟨rfl, rfl⟩ | ⟨rfl, rfl⟩ | ⟨rfl, rfl⟩ | ⟨rfl, rfl⟩ | ⟨rfl, rfl⟩ |
      ⟨rfl, rfl⟩ | ⟨rfl, rfl⟩ | ⟨rfl, rfl⟩
    case inr.inr.inr.inr.inl =>
      rintro f _ ⟨phase, rfl, hextra⟩
      rw [accept_frameworksPhase hw.isContainer.1, accept_frameworksPhase hw.isContainer.2]
      exact .ok ⟨some w', rfl, by simp only [Target.Fields.extraPhase, hw.phase_eq]⟩
    all_goals refine respects_target.acceptsAlike fun f => ?_
    · simp only [Target.Fields.accept, hw.text_eq]
    · simp only [Target.Fields.accept, hw.text_eq]
    · simp only [Target.Fields.accept,
        hw.listOf_eq (by simp) (by simp) fun _ _ hitem => hitem.dependency_eq]
    · simp only [Target.Fields.accept, hw.phases_eq]
    · simp only [Target.Fields.accept,
        hw.listOf_eq (by simp) (by simp) fun _ _ hitem => hitem.configuration_eq]
    · simp only [Target.Fields.accept, hw.nullable_eq hw.text_eq]
    · simp only [Target.Fields.accept, hw.nullable_eq hw.product_eq]
  · rintro f _ ⟨phase, rfl, hextra⟩
    rw [accept_frameworksPhase (.inr ⟨_, rfl⟩)]
    refine .ok ⟨none, rfl, ?_⟩
    simp only [Target.Fields.extraPhase, ofJson?_of_unmodelled hkind hphase]
    rfl

theorem Drops.target_eq (h : Drops .target value value') :
    Target.ofJson value = Target.ofJson value' := by
  rw [Target.ofJson, Target.ofJson, ← h.kindOf_eq ⟨by simp, by simp⟩]
  refine SameOutcome.eq ((SameOutcome.refl (fun _ => rfl) _).bind fun kind _ hkind => ?_)
  subst hkind
  refine h.targetFields_related.bind fun f _ hsame => ?_
  obtain ⟨phase, rfl, hextra⟩ := hsame
  exact .of_eq (fun _ => rfl) (by simp only [hextra]; rfl)

/-! ### Nodes of the group tree -/

/-- What the value of the children of a group stands for, if there is one. -/
def childrenIn (value : Option Json) : Except DecodeError (List Reference) :=
  match value with
  | some (.array items) => (items.mapM Reference.ofJson?).map List.reduceOption
  | some _ => .error .invalidType
  | none => .ok []

theorem ofItems_eq (items : List Json) :
    Reference.ofItems items = childrenIn (some (.array items)) := by
  induction items with
  | nil =>
    rw [Reference.ofItems]
    rfl
  | cons item items ih =>
    rw [Reference.ofItems, ih, childrenIn, childrenIn, List.mapM_cons]
    cases Reference.ofJson? item with
    | error e => rfl
    | ok child =>
      cases items.mapM Reference.ofJson? with
      | error e => rfl
      | ok children =>
        cases child with
        | none => rfl
        | some child => rfl

theorem childrenOf_eq (members : List (String × Json)) :
    Reference.childrenOf members = childrenIn (members.lookup "children") := by
  induction members with
  | nil =>
    rw [Reference.childrenOf]
    rfl
  | cons member members ih =>
    obtain ⟨name, value⟩ := member
    rw [Reference.childrenOf.eq_def, List.lookup_cons]
    by_cases hname : name = "children"
    · subst hname
      cases value with
      | array items => exact ofItems_eq items
      | _ => rfl
    · rw [beq_eq_false_iff_ne.2 (Ne.symm hname)]
      simpa only [if_neg hname] using ih

theorem fileTypeOf_eq (members : List (String × Json)) :
    Reference.fileTypeOf members = ((members.lookup "fileType").map text).getD (.ok "") := by
  rw [Reference.fileTypeOf]
  cases members.lookup "fileType" with
  | none => rfl
  | some value => rfl

section Members

variable {name key : String}

theorem lookup_dropped (hname : name ≠ key) (front back : List (String × Json)) :
    (front ++ (name, value) :: back).lookup key = (front ++ back).lookup key := by
  rw [List.lookup_append, List.lookup_append, List.lookup_cons,
    beq_eq_false_iff_ne.2 (Ne.symm hname)]

/-- What is made of the member of a name stays if a changed one means the same under that name. -/
theorem lookup_changed (meaning : Option Json → τ)
    (h : name = key → meaning (some value) = meaning (some value'))
    (front back : List (String × Json)) :
    meaning ((front ++ (name, value) :: back).lookup key) =
      meaning ((front ++ (name, value') :: back).lookup key) := by
  rw [List.lookup_append, List.lookup_append, List.lookup_cons, List.lookup_cons]
  cases front.lookup key with
  | some found => rfl
  | none =>
    by_cases hname : name = key
    · subst hname
      simpa using h rfl
    · rw [beq_eq_false_iff_ne.2 (Ne.symm hname)]

theorem ofMembers_dropped (hname : Node.fields.any (·.name == name) = false)
    (front back : List (String × Json)) :
    Node.ofMembers (front ++ (name, value) :: back) = Node.ofMembers (front ++ back) := by
  rw [Node.ofMembers, Node.ofMembers, record_object, record_object,
    (visitMembers_dropped (respects_eq _) hname front back [] rfl).eq]

/-- The shared fields of a node are texts, so no container is one. -/
theorem ofMembers_changed (h : value.IsContainer) (h' : value'.IsContainer)
    (front back : List (String × Json)) :
    Node.ofMembers (front ++ (name, value) :: back) =
      Node.ofMembers (front ++ (name, value') :: back) := by
  have haccept : ∀ state, Node.Fields.accept state name value =
      Node.Fields.accept state name value' := by
    intro state
    simp only [Node.Fields.accept, h.text_eq, h'.text_eq, h.nullable_eq, h'.nullable_eq]
  rw [Node.ofMembers, Node.ofMembers, record_object, record_object, (visitMembers_changed
    (respects_eq _) (fun _ => acceptsAlike_of_eq haccept) front back [] rfl).eq]

end Members

/-- A node is read alike from members in which the parts that its kind asks for are. -/
theorem ofJson?_object_congr {members members' : List (String × Json)}
    (hkind : kindOf (.object members) = kindOf (.object members'))
    (hnode : ∀ kind, kindOf (.object members) = .ok kind →
      ((Reference.groupKind? kind).isSome ∨ kind = "file") →
        Node.ofMembers members = Node.ofMembers members')
    (hchildren : ∀ kind, kindOf (.object members) = .ok kind →
      (Reference.groupKind? kind).isSome →
        childrenIn (members.lookup "children") = childrenIn (members'.lookup "children"))
    (hfile : kindOf (.object members) = .ok "file" →
      ((members.lookup "fileType").map text).getD (.ok "") =
        (((members'.lookup "fileType").map text).getD (.ok "") : Except DecodeError String)) :
    Reference.ofJson? (.object members) = Reference.ofJson? (.object members') := by
  rw [Reference.ofJson?, Reference.ofJson?, ← hkind]
  cases hvalue : kindOf (.object members) with
  | error e => rfl
  | ok kind =>
    simp only [bind, Except.bind]
    cases hgroup : Reference.groupKind? kind with
    | some k =>
      have hsome : (Reference.groupKind? kind).isSome := by simp [hgroup]
      simp only [childrenOf_eq, hchildren kind hvalue hsome, hnode kind hvalue (.inl hsome)]
    | none =>
      by_cases hname : kind = "file"
      · subst hname
        simp only [fileTypeOf_eq, hfile hvalue, hnode _ hvalue (.inr rfl)]
      · simp only [if_neg hname]

/-- A node that is not written as an object is read by its kind alone. -/
theorem ofJson?_array_congr {items items' : List Json}
    (hkind : kindOf (.array items) = kindOf (.array items')) :
    Reference.ofJson? (.array items) = Reference.ofJson? (.array items') := by
  rw [Reference.ofJson?, Reference.ofJson?, hkind]
  · simp
  · simp

theorem ofJson?_of_unmodelled_kind {members : List (String × Json)} {kind : String}
    (hkind : kindOf (.object members) = .ok kind) (hgroup : Reference.groupKind? kind = none)
    (hfile : kind ≠ "file") : Reference.ofJson? (.object members) = .ok none := by
  rw [Reference.ofJson?, hkind]
  simp only [bind, Except.bind, hgroup, if_neg hfile]
  rfl

/-- A known node has fields. -/
theorem fields_reference {kind : String} (hkind : kindOf value = .ok kind) :
    Shape.fields .reference value = Shape.nodeFields kind := by
  rw [Shape.fields, hkind, Except.toOption, Option.elim_some]

theorem mem_nodeFields_of_shared {kind : String} {field : Field}
    (hknown : (Reference.groupKind? kind).isSome ∨ kind = "file") (hfield : field ∈ Node.fields) :
    field.name ∈ (Shape.nodeFields kind).map (·.1) := by
  have hshared : field.name ∈
      (Shape.shaped Node.fields [.plain, .plain, .plain, .plain]).map (·.1) := by
    rw [Shape.shaped, List.map_fst_zip (by decide)]
    exact List.mem_map_of_mem hfield
  rw [Shape.nodeFields]
  split
  · exact List.mem_cons_of_mem _ hshared
  next hgroup =>
    rw [if_pos (hknown.resolve_left hgroup)]
    exact List.mem_cons_of_mem _ hshared

theorem mem_nodeFields_children {kind : String} (hgroup : (Reference.groupKind? kind).isSome) :
    "children" ∈ (Shape.nodeFields kind).map (·.1) := by
  rw [Shape.nodeFields, if_pos hgroup]
  exact List.mem_cons_self

/-- What is removed from a node, or from the children of a group, is of no consequence. -/
theorem Drops.node_eq (h : Drops shape value value') :
    (shape = .reference → Reference.ofJson? value = Reference.ofJson? value') ∧
      (shape = .list .reference → childrenIn (some value) = childrenIn (some value')) := by
  have hrecord : Shape.IsRecord .reference := ⟨by simp, by simp⟩
  induction h with
  | @key shape front back name value htype hunknown =>
    refine ⟨?_, fun _ => rfl⟩
    rintro rfl
    have hkind := (Drops.key htype hunknown).kindOf_eq hrecord
    have hne : ∀ {kind other : String},
        kindOf (.object (front ++ (name, value) :: back)) = .ok kind →
          other ∈ (Shape.nodeFields kind).map (·.1) → name ≠ other := by
      intro kind other hvalue hother
      rw [hrecord.member?_eq, fields_reference hvalue] at hunknown
      exact (ne_of_mem_of_not_mem hother (not_mem_of_lookup hunknown)).symm
    refine ofJson?_object_congr hkind (fun kind hvalue hknown => ?_)
      (fun kind hvalue hgroup => ?_) (fun hvalue => ?_)
    · refine ofMembers_dropped (List.any_eq_false.2 fun field hfield => ?_) front back
      simpa using (hne hvalue (mem_nodeFields_of_shared hknown hfield)).symm
    · rw [lookup_dropped (hne hvalue (mem_nodeFields_children hgroup))]
    · rw [lookup_dropped (hne hvalue (by decide))]
  | child hkind hgroup hfile =>
    refine ⟨nofun, fun _ => ?_⟩
    exact reduceOption_mapM_dropped (ofJson?_of_unmodelled_kind hkind hgroup hfile) _ _
  | phase | extraPhase => exact ⟨nofun, nofun⟩
  | @member shape front back name value value' hinner ih =>
    refine ⟨?_, fun _ => rfl⟩
    rintro rfl
    have hkind := hinner.member.kindOf_eq hrecord
    rw [hrecord.member?_eq] at hinner ih
    refine ofJson?_object_congr hkind (fun kind hvalue hknown => ?_)
      (fun kind hvalue hgroup => ?_) (fun hvalue => ?_)
    · exact ofMembers_changed hinner.isContainer.1 hinner.isContainer.2 front back
    · refine lookup_changed childrenIn (fun hname => ih.2 ?_) front back
      rw [fields_reference hvalue, Shape.nodeFields, if_pos hgroup, hname, List.lookup_cons_self]
      rfl
    · exact lookup_changed (fun found => (found.map text).getD (.ok ""))
        (fun _ => hinner.text_eq) front back
  | @item shape front back value value' hinner ih =>
    refine ⟨?_, ?_⟩
    · rintro rfl
      exact ofJson?_array_congr (hinner.item.kindOf_eq hrecord)
    · rintro rfl
      exact congrArg (Except.map List.reduceOption) (mapM_changed (ih.1 rfl) front back)

/-! ### The law -/

/-- An object of a project decodes to the same value, or fails for the same reason, however much
without a meaning is removed from it. -/
theorem decode_eq_of_drops (value value' : Json) :
    (Relation.ReflTransGen (Drops .reference) value value' →
      Reference.ofJson value = Reference.ofJson value') ∧
    (Relation.ReflTransGen (Drops .target) value value' →
      Target.ofJson value = Target.ofJson value') := by
  refine ⟨fun h => ?_, fun h => ?_⟩
  · induction h with
    | refl => rfl
    | tail _ hdrop ih => rw [ih, Reference.ofJson, Reference.ofJson, hdrop.node_eq.1 rfl]
  · induction h with
    | refl => rfl
    | tail _ hdrop ih => exact ih.trans hdrop.target_eq

/-- A group of a folder without a guid and a file with a note. -/
def crowdedGroup : Json :=
  .object [("type", .string "group"), ("guid", .string "G"), ("children", .array [
    .object [("type", .string "folder")],
    .object [("type", .string "file"), ("guid", .string "F"), ("note", .bool true)]])]

def tidyGroup : Json :=
  .object [("type", .string "group"), ("guid", .string "G"), ("children", .array [
    .object [("type", .string "file"), ("guid", .string "F")]])]

theorem drops_crowdedGroup : Relation.ReflTransGen (Drops .reference) crowdedGroup tidyGroup := by
  have hfolder : Drops (.list .reference)
      (.array [.object [("type", .string "folder")],
        .object [("type", .string "file"), ("guid", .string "F"), ("note", .bool true)]])
      (.array [.object [("type", .string "file"), ("guid", .string "F"), ("note", .bool true)]]) :=
    @Drops.child [] _ _ "folder" rfl rfl (by decide)
  have hnote : Drops .reference
      (.object [("type", .string "file"), ("guid", .string "F"), ("note", .bool true)])
      (.object [("type", .string "file"), ("guid", .string "F")]) :=
    @Drops.key _ [("type", .string "file"), ("guid", .string "F")] [] _ _ (by decide) rfl
  refine .head (@Drops.member _ [("type", .string "group"), ("guid", .string "G")] [] "children"
    _ _ hfolder) (.single ?_)
  exact @Drops.member _ [("type", .string "group"), ("guid", .string "G")] [] "children" _ _
    (@Drops.item (.list .reference) [] [] _ _ hnote)

/-- A package product with a phase that copies headers, and a script beside its phases. -/
def crowdedTarget : Json :=
  .object [("type", .string "packageProduct"), ("guid", .string "T"), ("name", .string "t"),
    ("buildPhases", .array [.object [("type", .string "headers"), ("buildFiles", .null)]]),
    ("frameworksBuildPhase", .object [("type", .string "script")])]

def tidyTarget : Json :=
  .object [("type", .string "packageProduct"), ("guid", .string "T"), ("name", .string "t"),
    ("buildPhases", .array []), ("frameworksBuildPhase", .null)]

theorem drops_crowdedTarget : Relation.ReflTransGen (Drops .target) crowdedTarget tidyTarget := by
  have hheaders : Drops (.list .phase)
      (.array [.object [("type", .string "headers"), ("buildFiles", .null)]]) (.array []) :=
    @Drops.phase [] _ _ "headers" rfl rfl
  refine .head (@Drops.member _
    [("type", .string "packageProduct"), ("guid", .string "T"), ("name", .string "t")]
    [("frameworksBuildPhase", .object [("type", .string "script")])] "buildPhases" _ _ hheaders)
    (.single ?_)
  exact @Drops.extraPhase [("type", .string "packageProduct"), ("guid", .string "T"),
    ("name", .string "t"), ("buildPhases", .array [])] [] _ "script" rfl rfl

theorem decode_eq_of_drops_crowded :
    (Relation.ReflTransGen (Drops .reference) crowdedGroup tidyGroup ∧
      Reference.ofJson crowdedGroup = Reference.ofJson tidyGroup) ∧
    (Relation.ReflTransGen (Drops .target) crowdedTarget tidyTarget ∧
      Target.ofJson crowdedTarget = Target.ofJson tidyTarget) :=
  ⟨⟨drops_crowdedGroup, (decode_eq_of_drops _ _).1 drops_crowdedGroup⟩,
    ⟨drops_crowdedTarget, (decode_eq_of_drops _ _).2 drops_crowdedTarget⟩⟩

end BitcodeReplay.Pif
