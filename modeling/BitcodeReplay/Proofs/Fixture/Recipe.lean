import BitcodeReplay.Fixture.Snapshot
import BitcodeReplay.Pif.Cache
import BitcodeReplay.Proofs.Json.RoundTrip
import BitcodeReplay.Proofs.List

/-!
What the objects of a small snapshot are read as. An object that is made for a target, whatever
names it is given and however often files are linked to it, decodes to the target that was meant;
and so do the workspace and the project around it.
-/

namespace BitcodeReplay.Fixture

open Snapshot

/-- How a target is made: a target that builds a product or one behind a package product, to which
files have been linked some times, or a package product. -/
inductive Recipe where
  | standard (guid name productType productName : String) (dependencies : List String)
      (linked : List (List String))
  | packageTarget (name : String) (linked : List (List String))
  | packageProduct (name : String) (packageTargets : List String)
  deriving DecidableEq, Repr

namespace Recipe

/-- The object that is made. -/
def object : Recipe → Json
  | standard guid name productType productName dependencies linked =>
    linked.foldl withLinkedFiles (standardTarget guid name productType productName dependencies)
  | packageTarget name linked => linked.foldl withLinkedFiles (Snapshot.packageTarget name)
  | packageProduct name packageTargets => Snapshot.packageProduct name packageTargets

def kind : Recipe → Pif.TargetKind
  | standard .. | packageTarget .. => .standard
  | packageProduct .. => .packageProduct

def guid : Recipe → Pif.Guid
  | standard guid .. => guid
  | packageTarget name _ => Pif.Guid.targetTag ++ name
  | packageProduct name _ => Pif.Guid.productTag ++ name

def name : Recipe → String
  | standard _ name .. => name
  | packageTarget name _ | packageProduct name _ => name

/-- The name of the product; a package product has none. -/
def productName : Recipe → String
  | standard _ _ _ productName .. => productName
  | packageTarget name _ => name ++ ".o"
  | packageProduct .. => ""

def productType : Recipe → Pif.ProductType
  | standard _ _ productType .. => .ofIdentifier productType
  | packageTarget .. => .other "com.apple.product-type.objfile"
  | packageProduct .. => .packageProduct

/-- The targets that it depends on. -/
def dependencies : Recipe → List Pif.Guid
  | standard _ _ _ _ dependencies _ => dependencies
  | packageTarget .. => []
  | packageProduct _ packageTargets => packageTargets.map (Pif.Guid.targetTag ++ ·)

/-- The files that have been linked to it, in that order. -/
def linkedFiles : Recipe → List Pif.Guid
  | standard _ _ _ _ _ linked | packageTarget _ linked => linked.flatten
  | packageProduct .. => []

/-- A target is the one that the recipe describes. -/
structure Makes (r : Recipe) (t : Pif.Target) : Prop where
  kind : t.kind = r.kind
  guid : t.guid = r.guid
  name : t.name = r.name
  productName : t.productName = r.productName
  productType : t.productType = r.productType
  dependencies : t.dependencies.map (·.guid) = r.dependencies
  linkedFiles : t.buildFiles.map (·.subject) = r.linkedFiles.map .file

end Recipe

/-! ### Linking -/

/-- The object of a target with some phases. -/
def phasedTarget (guid name productType productName : String) (dependencies : List String)
    (phases : List Json) : Json :=
  .object
    [("guid", .string guid),
      ("type", .string "standard"),
      ("name", .string name),
      ("productTypeIdentifier", .string productType),
      ("productReference", .object
        [("guid", .string (guid ++ "-product")), ("name", .string productName),
          ("type", .string "file")]),
      ("buildPhases", .array phases),
      ("dependencies", guidObjects dependencies),
      ("buildConfigurations", .array
        [.object
          [("guid", .string (guid ++ "-release")), ("name", .string "Release"),
            ("buildSettings", .object [("SKIP_INSTALL", .string "NO")])]])]

section Linking

variable (guid name productType productName : String) (dependencies : List String)

theorem withLinkedFiles_phasedTarget (phases : List Json) (files : List String) :
    withLinkedFiles (phasedTarget guid name productType productName dependencies phases) files =
      phasedTarget guid name productType productName dependencies
        (phases ++ [linkPhase guid files]) := rfl

/-- Each time files are linked, a phase is added. -/
theorem foldl_withLinkedFiles (phases : List Json) (linked : List (List String)) :
    linked.foldl withLinkedFiles
        (phasedTarget guid name productType productName dependencies phases) =
      phasedTarget guid name productType productName dependencies
        (phases ++ linked.map (linkPhase guid)) := by
  induction linked generalizing phases with
  | nil => rw [List.foldl_nil, List.map_nil, List.append_nil]
  | cons files rest ih =>
    rw [List.foldl_cons, withLinkedFiles_phasedTarget, ih, List.map_cons, List.append_assoc,
      List.singleton_append]

theorem foldl_standardTarget (linked : List (List String)) :
    linked.foldl withLinkedFiles
        (standardTarget guid name productType productName dependencies) =
      phasedTarget guid name productType productName dependencies
        (linked.map (linkPhase guid)) :=
  foldl_withLinkedFiles guid name productType productName dependencies [] linked

end Linking

/-! ### Decoding -/

theorem listOf_eq_ok {τ : Type} {decode : Json → Except Pif.DecodeError τ} {items : List Json}
    {values : List τ} (h : List.Forall₂ (fun item value => decode item = .ok value) items values) :
    Json.listOf decode (.array items) = .ok values := by
  simp only [Json.listOf, Json.Node.view, mapM_eq_ok h]
  rfl

theorem listOf_map {α τ : Type} {decode : Json → Except Pif.DecodeError τ} {as : List α}
    {item : α → Json} {value : α → τ} (h : ∀ a, decode (item a) = .ok (value a)) :
    Json.listOf decode (.array (as.map item)) = .ok (as.map value) := by
  refine listOf_eq_ok ?_
  rw [List.forall₂_map_left_iff, List.forall₂_map_right_iff, List.forall₂_same]
  exact fun a _ => h a

/-- What the entries for some files are read as. -/
def linkedEntries (guid : String) : Nat → List String → List Pif.BuildFile
  | _, [] => []
  | n, file :: rest =>
    ⟨guid ++ "-bf" ++ toString n, .file file, []⟩ :: linkedEntries guid (n + 1) rest

def linkedPhase (guid : String) (files : List String) : Pif.BuildPhase :=
  ⟨.frameworks, guid ++ "-frameworks", linkedEntries guid 0 files⟩

theorem decode_buildFiles (guid : String) (n : Nat) (files : List String) :
    List.Forall₂ (fun item entry => Pif.BuildFile.decode item = .ok entry)
      (buildFiles guid n files) (linkedEntries guid n files) := by
  induction files generalizing n with
  | nil => exact .nil
  | cons file rest ih => exact .cons rfl (ih (n + 1))

theorem subject_linkedEntries (guid : String) (n : Nat) (files : List String) :
    (linkedEntries guid n files).map (·.subject) = files.map .file := by
  induction files generalizing n with
  | nil => rfl
  | cons file rest ih => rw [linkedEntries, List.map_cons, ih, List.map_cons]

theorem ofJson?_linkPhase (guid : String) (files : List String) :
    Pif.BuildPhase.ofJson? (linkPhase guid files) = .ok (some (linkedPhase guid files)) := by
  have hentries := listOf_eq_ok (decode_buildFiles guid 0 files)
  have hrecord : Json.record Pif.BuildPhase.fields Pif.BuildPhase.accept (none, [])
      (linkPhase guid files) = .ok (some (guid ++ "-frameworks"), linkedEntries guid 0 files) := by
    simp only [Json.record, linkPhase, Json.Node.view]
    simp [Json.visitMembers, Pif.BuildPhase.fields, Pif.BuildPhase.accept, hentries]
    rfl
  have hkind : Pif.kindOf (linkPhase guid files) = .ok "com.apple.buildphase.frameworks" := rfl
  have hknown : Pif.PhaseKind.ofIdentifier? "com.apple.buildphase.frameworks" =
      some .frameworks := by decide
  rw [Pif.BuildPhase.ofJson?, hkind]
  simp only [bind, Except.bind, hknown, hrecord]
  rfl

theorem listOfJson_linkPhases (guid : String) (linked : List (List String)) :
    Pif.BuildPhase.listOfJson (.array (linked.map (linkPhase guid))) =
      .ok (linked.map (linkedPhase guid)) := by
  have hall : ((linked.map fun files => some (linkedPhase guid files)).reduceOption) =
      linked.map (linkedPhase guid) := by
    change List.filterMap id (linked.map fun files => some (linkedPhase guid files)) = _
    rw [List.filterMap_map]
    exact congrFun List.filterMap_eq_map' linked
  rw [Pif.BuildPhase.listOfJson, listOf_map (ofJson?_linkPhase guid)]
  exact congrArg Except.ok hall

theorem listOf_guidObjects (guids : List String) :
    Json.listOf Pif.TargetDependency.ofJson (guidObjects guids) = .ok (guids.map (⟨·, []⟩)) :=
  listOf_map fun _ => rfl

/-- What the object of a target with links is read as. -/
def linkedTarget (guid name productType productName : String) (dependencies : List String)
    (linked : List (List String)) : Pif.Target where
  kind := .standard
  guid := guid
  name := name
  dependencies := dependencies.map (⟨·, []⟩)
  buildPhases := linked.map (linkedPhase guid)
  buildConfigurations :=
    [⟨some (guid ++ "-release"), "Release", [("SKIP_INSTALL", .string "NO")]⟩]
  productType := .ofIdentifier productType
  productName := productName

theorem ofJson_phasedTarget (guid name productType productName : String)
    (dependencies : List String) (linked : List (List String)) :
    Pif.Target.ofJson (phasedTarget guid name productType productName dependencies
        (linked.map (linkPhase guid))) =
      .ok (linkedTarget guid name productType productName dependencies linked) := by
  generalize hobject : phasedTarget guid name productType productName dependencies
    (linked.map (linkPhase guid)) = object
  have hkind : Pif.kindOf object = .ok "standard" := by
    rw [← hobject]
    rfl
  have hrecord : Json.record Pif.Target.fields Pif.Target.Fields.accept {} object =
      .ok { guid := guid, name := name, dependencies := dependencies.map (⟨·, []⟩),
            buildPhases := linked.map (linkedPhase guid),
            buildConfigurations :=
              [⟨some (guid ++ "-release"), "Release", [("SKIP_INSTALL", .string "NO")]⟩],
            productType := some productType,
            product := some ⟨guid ++ "-product", productName⟩ } := by
    rw [← hobject]
    simp only [Json.record, phasedTarget, Json.Node.view]
    simp [Json.visitMembers, Pif.Target.fields, Pif.Target.Fields.accept,
      listOf_guidObjects dependencies, listOfJson_linkPhases guid linked]
    rfl
  rw [Pif.Target.ofJson, hkind]
  simp only [bind, Except.bind, hrecord]
  simp [Json.require, Pif.Target.Fields.extraPhase, Pif.TargetKind.ofName?, Pif.Target.Fields.type,
    linkedTarget, pure, Except.pure]

namespace Recipe

/-- The target that is meant. -/
def target : Recipe → Pif.Target
  | standard guid name productType productName dependencies linked =>
    linkedTarget guid name productType productName dependencies linked
  | packageTarget name linked =>
    linkedTarget (Pif.Guid.targetTag ++ name) name "com.apple.product-type.objfile" (name ++ ".o")
      [] linked
  | packageProduct name packageTargets =>
    { kind := .packageProduct
      guid := Pif.Guid.productTag ++ name
      name := name
      dependencies := packageTargets.map fun target => ⟨Pif.Guid.targetTag ++ target, []⟩
      buildPhases := []
      buildConfigurations := []
      productType := .packageProduct
      productName := "" }

theorem ofJson_packageProduct (name : String) (packageTargets : List String) :
    Pif.Target.ofJson (Snapshot.packageProduct name packageTargets) =
      .ok (packageProduct name packageTargets).target := by
  generalize hobject : Snapshot.packageProduct name packageTargets = object
  have hkind : Pif.kindOf object = .ok "packageProduct" := by
    rw [← hobject]
    rfl
  have hrecord : Json.record Pif.Target.fields Pif.Target.Fields.accept {} object =
      .ok { guid := Pif.Guid.productTag ++ name, name := name,
            dependencies := (packageTargets.map (Pif.Guid.targetTag ++ ·)).map (⟨·, []⟩) } := by
    rw [← hobject]
    simp only [Json.record, Snapshot.packageProduct, Json.Node.view]
    simp [Json.visitMembers, Pif.Target.fields, Pif.Target.Fields.accept,
      listOf_guidObjects]
    rfl
  rw [Pif.Target.ofJson, hkind]
  simp only [bind, Except.bind, hrecord]
  simp [Json.require, Pif.Target.Fields.extraPhase, Pif.TargetKind.ofName?, Pif.Target.Fields.type,
    target, pure, Except.pure]

/-- The object that is made is read as the target that is meant. -/
theorem ofJson_object (r : Recipe) : Pif.Target.ofJson r.object = .ok r.target := by
  cases r with
  | standard guid name productType productName dependencies linked =>
    rw [object, foldl_standardTarget, ofJson_phasedTarget, target]
  | packageTarget name linked =>
    rw [object, Snapshot.packageTarget, foldl_standardTarget, ofJson_phasedTarget, target]
    rfl
  | packageProduct name packageTargets => exact ofJson_packageProduct name packageTargets

theorem subject_linkedTarget (guid name productType productName : String)
    (dependencies : List String) (linked : List (List String)) :
    (linkedTarget guid name productType productName dependencies linked).buildFiles.map
      (·.subject) = linked.flatten.map .file := by
  simp only [Pif.Target.buildFiles, linkedTarget, List.flatMap_map, List.map_flatMap, linkedPhase,
    subject_linkedEntries, List.map_flatten]
  rfl

theorem makes_target (r : Recipe) : r.Makes r.target := by
  cases r with
  | standard guid name productType productName dependencies linked =>
    have hdependencies : (linkedTarget guid name productType productName dependencies
        linked).dependencies.map (·.guid) = dependencies := by
      simp [linkedTarget, Function.comp_def]
    exact ⟨rfl, rfl, rfl, rfl, rfl, hdependencies, subject_linkedTarget ..⟩
  | packageTarget name linked =>
    exact ⟨rfl, rfl, rfl, rfl, rfl, rfl, subject_linkedTarget ..⟩
  | packageProduct name packageTargets =>
    exact ⟨rfl, rfl, rfl, rfl, rfl, by simp [target, Recipe.dependencies], rfl⟩

end Recipe

/-! ### Printing -/

/-- An object of texts alone. -/
theorem plain_texts {room : Nat} (members : List (String × String))
    (h : (members.map (·.1)).Nodup) :
    Json.Plain (room + 1) (.object (members.map fun member => (member.1, .string member.2))) := by
  refine .object (by simpa [Function.comp_def] using h) fun member hmember => ?_
  obtain ⟨_, -, rfl⟩ := List.mem_map.1 hmember
  exact .string _

theorem plain_guidObjects {room : Nat} (guids : List String) :
    Json.Plain (room + 2) (guidObjects guids) := by
  refine .array fun item hitem => ?_
  obtain ⟨guid, -, rfl⟩ := List.mem_map.1 hitem
  exact plain_texts [("guid", guid)] (by simp)

theorem plain_linkPhase {room : Nat} (guid : String) (files : List String) :
    Json.Plain (room + 3) (linkPhase guid files) := by
  have hentries : ∀ n, ∀ item ∈ buildFiles guid n files, Json.Plain (room + 1) item := by
    induction files with
    | nil => simp [buildFiles]
    | cons file rest ih =>
      intro n item hitem
      rcases List.mem_cons.1 hitem with rfl | hitem
      · exact plain_texts
          [("guid", guid ++ "-bf" ++ toString n), ("fileReference", file)] (by simp)
      · exact ih (n + 1) item hitem
  refine .object (by simp) ?_
  simp only [List.forall_mem_cons]
  exact ⟨.string _, .string _, .array (hentries 0), by simp⟩

theorem plain_phasedTarget {room : Nat} (guid name productType productName : String)
    (dependencies : List String) (linked : List (List String)) :
    Json.Plain (room + 5) (phasedTarget guid name productType productName dependencies
      (linked.map (linkPhase guid))) := by
  have hphases : ∀ phase ∈ linked.map (linkPhase guid), Json.Plain (room + 3) phase := by
    intro phase hphase
    obtain ⟨files, -, rfl⟩ := List.mem_map.1 hphase
    exact plain_linkPhase guid files
  have hsettings : Json.Plain (room + 1 + 1) (.object [("SKIP_INSTALL", .string "NO")]) :=
    plain_texts [("SKIP_INSTALL", "NO")] (by simp)
  have hconfiguration : Json.Plain (room + 3) (.object [("guid", .string (guid ++ "-release")),
      ("name", .string "Release"),
      ("buildSettings", .object [("SKIP_INSTALL", .string "NO")])]) := by
    refine .object (by simp) ?_
    simp only [List.forall_mem_cons]
    exact ⟨.string _, .string _, hsettings, by simp⟩
  refine .object (by simp) ?_
  simp only [List.forall_mem_cons]
  refine ⟨.string _, .string _, .string _, .string _, ?_, .array hphases, plain_guidObjects _,
    .array (by simpa using hconfiguration), by simp⟩
  exact plain_texts
    [("guid", guid ++ "-product"), ("name", productName), ("type", "file")] (by simp)

theorem Recipe.plain_object {room : Nat} (r : Recipe) : Json.Plain (room + 5) r.object := by
  cases r with
  | standard guid name productType productName dependencies linked =>
    rw [Recipe.object, foldl_standardTarget]
    exact plain_phasedTarget ..
  | packageTarget name linked =>
    rw [Recipe.object, Snapshot.packageTarget, foldl_standardTarget]
    exact plain_phasedTarget ..
  | packageProduct name packageTargets =>
    refine .object (by simp) ?_
    simp only [List.forall_mem_cons]
    exact ⟨.string _, .string _, .string _, plain_guidObjects _, by simp⟩

/-- The text of a target is read as the target that is meant. -/
theorem Recipe.ofText_pretty (r : Recipe) :
    Pif.Target.ofText r.object.pretty.toList = .ok r.target := by
  have hplain : Json.Plain (Json.maxDepth - 0) r.object := r.plain_object
  rw [Pif.Target.ofText, hplain.decodeText_pretty, hplain.settled_draft, r.ofJson_object]

/-! ### The workspace and the project -/

theorem plain_strings {room : Nat} (texts : List String) :
    Json.Plain (room + 1) (Json.strings texts) := by
  refine .array fun item hitem => ?_
  obtain ⟨text, -, rfl⟩ := List.mem_map.1 hitem
  exact .string _

theorem listOf_text_strings (texts : List String) :
    Json.listOf Json.text (Json.strings texts).draft = (.ok texts : Except Pif.DecodeError _) := by
  have hitems : List.Forall₂
      (fun item text => Json.text item = (.ok text : Except Pif.DecodeError String))
      (Json.draftItems (texts.map .string)) texts := by
    induction texts with
    | nil => exact .nil
    | cons text rest ih => exact .cons rfl ih
  simp only [Json.strings, Json.draft, Json.listOf, Json.Node.view, mapM_eq_ok hitems]
  rfl

theorem ofText_workspace : Pif.Workspace.ofText workspace.pretty.toList =
    .ok ⟨"WORKSPACE", "Fixture", "/src/Fixture.xcworkspace", [projectSignature]⟩ := by
  have hplain : Json.Plain 2 workspace := by
    refine .object (by simp) ?_
    simp only [List.forall_mem_cons]
    exact ⟨.string _, .string _, .string _, plain_strings _, by simp⟩
  rw [Pif.Workspace.ofText, hplain.decodeText_pretty]
  rfl

/-- The object of a framework in the group tree of the project. -/
def frameworkFile (file : String × String) : Json :=
  .object
    [("guid", .string file.1),
      ("type", .string "file"),
      ("path", .string file.2),
      ("fileType", .string "wrapper.framework"),
      ("sourceTree", .string "BUILT_PRODUCTS_DIR")]

/-- The framework that is meant by an identifier and a path. -/
def framework (file : String × String) : Pif.FileReference :=
  ⟨⟨file.1, file.2, none, "BUILT_PRODUCTS_DIR"⟩, "wrapper.framework"⟩

theorem ofJson?_frameworkFile (file : String × String) :
    Pif.Reference.ofJson? (frameworkFile file) = .ok (some (.file (framework file))) := by
  rw [frameworkFile, Pif.Reference.ofJson?]
  rfl

theorem ofItems_frameworkFiles (files : List (String × String)) :
    Pif.Reference.ofItems (files.map frameworkFile) =
      .ok (files.map fun file => .file (framework file)) := by
  induction files with
  | nil => rw [List.map_nil, Pif.Reference.ofItems]; rfl
  | cons file rest ih =>
    rw [List.map_cons, Pif.Reference.ofItems, ofJson?_frameworkFile, ih]
    rfl

theorem filesOf_map_file (files : List Pif.FileReference) :
    Pif.Reference.filesOf (files.map .file) = files := by
  induction files with
  | nil => rw [List.map_nil, Pif.Reference.filesOf]
  | cons file rest ih =>
    rw [List.map_cons, Pif.Reference.filesOf, Pif.Reference.files, ih, List.singleton_append]

/-- The group tree of a project with some frameworks. -/
def groupTree (files : List (String × String)) : Json :=
  .object
    [("guid", .string "ROOT-GROUP"),
      ("type", .string "group"),
      ("path", .string ""),
      ("children", .array (files.map frameworkFile))]

/-- What the group tree is read as. -/
def rootGroup (files : List (String × String)) : Pif.Reference :=
  .group .plain ⟨"ROOT-GROUP", "", none, ""⟩ (files.map fun file => .file (framework file))

theorem files_rootGroup (files : List (String × String)) :
    (rootGroup files).files = files.map framework := by
  rw [rootGroup, Pif.Reference.files, ← filesOf_map_file (files.map framework), List.map_map]
  rfl

theorem plain_groupTree {room : Nat} (files : List (String × String)) :
    Json.Plain (room + 3) (groupTree files) := by
  have hfiles : ∀ item ∈ files.map frameworkFile, Json.Plain (room + 1) item := by
    intro item hitem
    obtain ⟨file, -, rfl⟩ := List.mem_map.1 hitem
    exact plain_texts [("guid", file.1), ("type", "file"), ("path", file.2),
      ("fileType", "wrapper.framework"), ("sourceTree", "BUILT_PRODUCTS_DIR")] (by simp)
  refine .object (by simp) ?_
  simp only [List.forall_mem_cons]
  exact ⟨.string _, .string _, .string _, .array hfiles, by simp⟩

theorem ofJson_groupTree (files : List (String × String)) :
    Pif.Reference.ofJson (groupTree files) = .ok (rootGroup files) := by
  have hchildren : Pif.Reference.childrenOf [("guid", .string "ROOT-GROUP"),
      ("type", .string "group"), ("path", .string ""),
      ("children", .array (files.map frameworkFile))] =
        .ok (files.map fun file => .file (framework file)) := by
    simp [Pif.Reference.childrenOf, ofItems_frameworkFiles]
  have hgroup : Pif.Reference.ofJson? (groupTree files) = .ok (some (rootGroup files)) := by
    rw [groupTree, Pif.Reference.ofJson?, hchildren]
    rfl
  rw [Pif.Reference.ofJson, hgroup]
  rfl

/-- The snapshot of some targets and frameworks. -/
def snapshotOf (recipes : List Recipe) (files : List (String × String)) : Snapshot :=
  files.foldl (fun s file => s.addFrameworkFile file.1 file.2)
    (recipes.foldl (fun s recipe => s.addTarget recipe.object) .empty)

theorem snapshotOf_eq (recipes : List Recipe) (files : List (String × String)) :
    snapshotOf recipes files = ⟨recipes.map (·.object), files.map frameworkFile⟩ := by
  have htargets : ∀ s : Snapshot, recipes.foldl (fun s recipe => s.addTarget recipe.object) s =
      ⟨s.targets ++ recipes.map (·.object), s.files⟩ := by
    induction recipes with
    | nil => simp
    | cons recipe rest ih =>
      intro s
      rw [List.foldl_cons, ih, addTarget, List.append_assoc]
      rfl
  have hfiles : ∀ s : Snapshot, files.foldl (fun s file => s.addFrameworkFile file.1 file.2) s =
      ⟨s.targets, s.files ++ files.map frameworkFile⟩ := by
    induction files with
    | nil => simp
    | cons file rest ih =>
      intro s
      rw [List.foldl_cons, ih, addFrameworkFile, List.append_assoc]
      rfl
  rw [snapshotOf, htargets, hfiles]
  rfl

/-- What the project of a snapshot is read as. -/
def projectOf (recipes : List Recipe) (files : List (String × String)) : Pif.Project :=
  ⟨"PROJECT", "/src/Fixture.xcodeproj", some "Fixture", rootGroup files,
    (snapshotOf recipes files).signatures⟩

theorem ofText_project (recipes : List Recipe) (files : List (String × String)) :
    Pif.Project.ofText (snapshotOf recipes files).project.pretty.toList =
      .ok (projectOf recipes files) := by
  have hproject : (snapshotOf recipes files).project = .object [("guid", .string "PROJECT"),
      ("path", .string "/src/Fixture.xcodeproj"), ("projectName", .string "Fixture"),
      ("groupTree", groupTree files),
      ("targets", .strings (snapshotOf recipes files).signatures)] := by
    rw [Snapshot.project]
    simp [snapshotOf_eq, groupTree]
  have hplain : Json.Plain 4 (snapshotOf recipes files).project := by
    rw [hproject]
    refine .object (by simp) ?_
    simp only [List.forall_mem_cons]
    exact ⟨.string _, .string _, .string _, plain_groupTree files, plain_strings _, by simp⟩
  have htree : Json.Plain (Json.maxDepth - 1) (groupTree files) := plain_groupTree files
  have hgroup := htree.settled_draft Pif.Reference.ofJson
  rw [ofJson_groupTree] at hgroup
  have hrecord : Json.record Pif.Project.fields Pif.Project.Fields.accept {}
      (snapshotOf recipes files).project.draft =
        .ok { guid := some "PROJECT", path := some "/src/Fixture.xcodeproj",
              projectName := some "Fixture", groupTree := some (rootGroup files),
              targets := (snapshotOf recipes files).signatures } := by
    rw [hproject]
    simp only [Json.record, Json.draft, Json.draftMembers, Json.Node.view, Json.namedMembers]
    simp [Json.visitMembers, Pif.Project.fields, Pif.Project.Fields.accept, hgroup,
      listOf_text_strings]
    rfl
  rw [Pif.Project.ofText, hplain.decodeText_pretty, Pif.Project.ofDraft]
  simp only [bind, Except.bind, hrecord]
  rfl

end BitcodeReplay.Fixture
