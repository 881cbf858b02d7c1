import BitcodeReplay.Pif.Load
import BitcodeReplay.Proofs.FileTree.Edit
import BitcodeReplay.Proofs.List
import BitcodeReplay.Proofs.Pif.Cache
import BitcodeReplay.Proofs.Text.Utf8

/-!
Which directories hold a snapshot, what is loaded from these, and what is reported of all others:
the first object that is bad, in the order in which objects are listed.
-/

namespace BitcodeReplay.Pif

open FileTree

/-- An object of a snapshot, by what its file is named after. -/
inductive ObjectName where
  | workspace (file : String)
  | project (signature : String)
  | target (signature : String)
  deriving DecidableEq

def ObjectName.path (root : String) : ObjectName → String
  | .workspace file => Path.join (Path.join root "workspace") file
  | .project signature => objectPath root "project" signature
  | .target signature => objectPath root "target" signature

/-- What is wrong with a directory that holds no snapshot, wherever the directory stands. -/
inductive Flaw where
  | missing
  | workspaceCount (count : Nat)
  | unreadable (object : ObjectName) (cause : FileError)
  | undecodable (object : ObjectName) (cause : DecodeError)

def Flaw.failure (root : String) : Flaw → LoadFailure
  | .missing => .missing root
  | .workspaceCount count => .workspaceCount (Path.join root "workspace") count
  | .unreadable object cause => .unreadable (object.path root) cause
  | .undecodable object cause => .undecodable (object.path root) cause

variable {t : FileTree} {root : String} {τ : Type}
  {decode : List Char → Except DecodeError τ} {object : ObjectName}

/-! ### Single objects -/

/-- The file of an object can be read, and its content decoded. -/
def Reads (t : FileTree) (root : String) (decode : List Char → Except DecodeError τ)
    (object : ObjectName) (value : τ) : Prop :=
  ∃ bytes, t.readFile (object.path root) = .ok bytes ∧
    decode (objectText false (Utf8.decode bytes)) = .ok value

/-- The file of an object cannot be read, or its content not decoded. -/
inductive Spoils (t : FileTree) (root : String) (decode : List Char → Except DecodeError τ)
    (object : ObjectName) : Flaw → Prop
  | unreadable {cause : FileError} (hread : t.readFile (object.path root) = .error cause) :
    Spoils t root decode object (.unreadable object cause)
  | undecodable {bytes : ByteArray} {cause : DecodeError}
    (hread : t.readFile (object.path root) = .ok bytes)
    (hdecode : decode (objectText false (Utf8.decode bytes)) = .error cause) :
    Spoils t root decode object (.undecodable object cause)

theorem readObject_eq_ok_iff {value : τ} :
    readObject t decode (object.path root) = .ok value ↔ Reads t root decode object value := by
  rw [readObject, Reads]
  cases t.readFile (object.path root) with
  | error cause => simp
  | ok bytes => cases hdecode : decode (objectText false (Utf8.decode bytes)) <;>
      simp [hdecode, Except.mapError]

theorem readObject_eq_error_iff {e : LoadFailure} :
    readObject t decode (object.path root) = .error e ↔
      ∃ flaw, Spoils t root decode object flaw ∧ e = flaw.failure root := by
  rw [readObject]
  constructor
  · intro h
    cases hread : t.readFile (object.path root) with
    | error cause =>
      rw [hread] at h
      cases h
      exact ⟨_, .unreadable hread, rfl⟩
    | ok bytes =>
      rw [hread] at h
      cases hdecode : decode (objectText false (Utf8.decode bytes)) with
      | ok value =>
        simp only [hdecode, Except.mapError] at h
        cases h
      | error cause =>
        simp only [hdecode, Except.mapError] at h
        cases h
        exact ⟨_, .undecodable hread hdecode, rfl⟩
  · rintro ⟨flaw, hspoils, rfl⟩
    cases hspoils with
    | unreadable hread =>
      rw [hread]
      rfl
    | undecodable hread hdecode =>
      simp only [hread, hdecode]
      rfl

theorem Reads.unique {value value' : τ} (h : Reads t root decode object value)
    (h' : Reads t root decode object value') : value' = value :=
  Except.ok.inj ((readObject_eq_ok_iff.2 h').symm.trans (readObject_eq_ok_iff.2 h))

theorem objectText_chars (escaped : Bool) (cs : List Char) :
    objectText escaped (cs.map some) = cs := by
  induction cs generalizing escaped with
  | nil => rfl
  | cons c rest ih => rw [List.map_cons, objectText, ih]

/-- A file of text is read as the text is. -/
theorem reads_of_readFile {text : String} {value : τ}
    (h : t.readFile (object.path root) = .ok text.toUTF8)
    (hdecode : decode text.toList = .ok value) : Reads t root decode object value := by
  refine ⟨_, h, ?_⟩
  rw [Utf8.decode_toUTF8, objectText_chars, hdecode]

/-! ### The workspace object -/

/-- The names in the directory of the workspace object that are in the manner of its own. -/
def WorkspaceFiles (t : FileTree) (root : String) (found : List String) : Prop :=
  ∃ loc, t.find? (Path.join root "workspace") = some (loc, .dir) ∧
    (t.namesIn loc).filter isWorkspaceName = found

theorem WorkspaceFiles.isDir {found : List String} (h : WorkspaceFiles t root found) :
    t.isDir (Path.join root "workspace") = true := by
  obtain ⟨loc, hfind, -⟩ := h
  rw [FileTree.isDir, hfind]

theorem exists_workspaceFiles (h : t.isDir (Path.join root "workspace") = true) :
    ∃ found, WorkspaceFiles t root found := by
  rw [FileTree.isDir] at h
  split at h
  · next loc hfind => exact ⟨_, loc, hfind, rfl⟩
  · cases h

theorem WorkspaceFiles.unique {found found' : List String} (h : WorkspaceFiles t root found)
    (h' : WorkspaceFiles t root found') : found' = found := by
  obtain ⟨loc, hfind, rfl⟩ := h
  obtain ⟨loc', hfind', rfl⟩ := h'
  rw [hfind] at hfind'
  cases hfind'
  rfl

theorem workspacePath_of_not_isDir (h : t.isDir (Path.join root "workspace") = false) :
    workspacePath t root = .error (Flaw.missing.failure root) := by
  simp [workspacePath, h, Flaw.failure]

theorem WorkspaceFiles.workspacePath_eq {file : String} (h : WorkspaceFiles t root [file]) :
    workspacePath t root = .ok ((ObjectName.workspace file).path root) := by
  have hdir := h.isDir
  obtain ⟨loc, hfind, hnames⟩ := h
  simp only [workspacePath, hdir, readDir_of_find? hfind, hnames]
  rfl

theorem WorkspaceFiles.workspacePath_of_length_ne {found : List String}
    (h : WorkspaceFiles t root found) (hcount : found.length ≠ 1) :
    workspacePath t root = .error ((Flaw.workspaceCount found.length).failure root) := by
  have hdir := h.isDir
  obtain ⟨loc, hfind, hnames⟩ := h
  simp only [workspacePath, hdir, readDir_of_find? hfind, hnames]
  cases found with
  | nil => rfl
  | cons file others =>
    cases others with
    | nil => exact absurd rfl hcount
    | cons other rest => rfl

/-! ### Lists of objects -/

/-- Each of the objects that are listed is read. -/
def ReadsAll (t : FileTree) (root : String) (decode : List Char → Except DecodeError τ)
    (name : String → ObjectName) (listed : List String) (values : List τ) : Prop :=
  List.Forall₂ (fun signature => Reads t root decode (name signature)) listed values

/-- The first object that cannot be read, of those that are listed, has a flaw. -/
def SpoilsFirst (t : FileTree) (root : String) (decode : List Char → Except DecodeError τ)
    (name : String → ObjectName) (listed : List String) (flaw : Flaw) : Prop :=
  ∃ front signature back, listed = front ++ signature :: back ∧
    (∀ earlier ∈ front, ∃ value, Reads t root decode (name earlier) value) ∧
    Spoils t root decode (name signature) flaw

variable {name : String → ObjectName} {listed : List String}

theorem readAll_eq_ok_iff {values : List τ} :
    listed.mapM (fun signature => readObject t decode ((name signature).path root)) = .ok values ↔
      ReadsAll t root decode name listed values := by
  rw [mapM_eq_ok_iff, ReadsAll]
  simp only [readObject_eq_ok_iff]

theorem readAll_eq_error_iff {e : LoadFailure} :
    listed.mapM (fun signature => readObject t decode ((name signature).path root)) = .error e ↔
      ∃ flaw, SpoilsFirst t root decode name listed flaw ∧ e = flaw.failure root := by
  rw [mapM_eq_error_iff]
  simp only [readObject_eq_ok_iff, readObject_eq_error_iff]
  constructor
  · rintro ⟨front, signature, back, hsplit, hfront, flaw, hspoils, rfl⟩
    exact ⟨flaw, ⟨front, signature, back, hsplit, hfront, hspoils⟩, rfl⟩
  · rintro ⟨flaw, ⟨front, signature, back, hsplit, hfront, hspoils⟩, rfl⟩
    exact ⟨front, signature, back, hsplit, hfront, flaw, hspoils, rfl⟩

/-! ### Snapshots -/

variable {file : String} {w : Workspace} {ps : List Project} {us : List Target} {flaw : Flaw}

/-- The objects of a snapshot stand in a directory: the workspace, its projects, and the targets of
these. -/
structure Stands (t : FileTree) (root : String) (w : Workspace) (ps : List Project)
    (us : List Target) : Prop where
  workspace : ∃ file, WorkspaceFiles t root [file] ∧
    Reads t root Workspace.ofText (.workspace file) w
  projects : ReadsAll t root Project.ofText .project w.projects ps
  targets : ReadsAll t root Target.ofText .target (ps.flatMap (·.targets)) us

/-- The first flaw of a directory, where the workspace object comes before all projects and these
before all targets. -/
inductive Fails (t : FileTree) (root : String) : Flaw → Prop
  | missing (h : t.isDir (Path.join root "workspace") = false) : Fails t root .missing
  | workspaceCount {found : List String} (hfound : WorkspaceFiles t root found)
    (h : found.length ≠ 1) : Fails t root (.workspaceCount found.length)
  | workspace {file : String} {flaw : Flaw} (hfile : WorkspaceFiles t root [file])
    (h : Spoils t root Workspace.ofText (.workspace file) flaw) : Fails t root flaw
  | project {file : String} {w : Workspace} {flaw : Flaw} (hfile : WorkspaceFiles t root [file])
    (hw : Reads t root Workspace.ofText (.workspace file) w)
    (h : SpoilsFirst t root Project.ofText .project w.projects flaw) : Fails t root flaw
  | target {file : String} {w : Workspace} {ps : List Project} {flaw : Flaw}
    (hfile : WorkspaceFiles t root [file])
    (hw : Reads t root Workspace.ofText (.workspace file) w)
    (hps : ReadsAll t root Project.ofText .project w.projects ps)
    (h : SpoilsFirst t root Target.ofText .target (ps.flatMap (·.targets)) flaw) :
    Fails t root flaw

namespace Cache

theorem load_of_stands (h : Stands t root w ps us) : load t root = .ok (assemble w ps us) := by
  obtain ⟨file, hfile, hw⟩ := h.workspace
  have hpath := hfile.workspacePath_eq
  have hread := readObject_eq_ok_iff.2 hw
  have hps := readAll_eq_ok_iff.2 h.projects
  have hus := readAll_eq_ok_iff.2 h.targets
  simp only [ObjectName.path] at hps hus
  simp only [load, hpath, bind, Except.bind, hread, hps, hus]
  rfl

theorem load_of_fails (h : Fails t root flaw) : load t root = .error (flaw.failure root) := by
  cases h with
  | missing h =>
    have hpath := workspacePath_of_not_isDir h
    simp only [load, hpath, bind, Except.bind]
  | workspaceCount hfound h =>
    have hpath := hfound.workspacePath_of_length_ne h
    simp only [load, hpath, bind, Except.bind]
  | workspace hfile h =>
    have hpath := hfile.workspacePath_eq
    have hread := readObject_eq_error_iff.2 ⟨_, h, rfl⟩
    simp only [load, hpath, bind, Except.bind, hread]
  | project hfile hw h =>
    have hpath := hfile.workspacePath_eq
    have hread := readObject_eq_ok_iff.2 hw
    have hps := readAll_eq_error_iff.2 ⟨_, h, rfl⟩
    simp only [ObjectName.path] at hps
    simp only [load, hpath, bind, Except.bind, hread, hps]
  | target hfile hw hall h =>
    have hpath := hfile.workspacePath_eq
    have hread := readObject_eq_ok_iff.2 hw
    have hps := readAll_eq_ok_iff.2 hall
    have hus := readAll_eq_error_iff.2 ⟨_, h, rfl⟩
    simp only [ObjectName.path] at hps hus
    simp only [load, hpath, bind, Except.bind, hread, hps, hus]

/-- A directory holds a snapshot, or it has a flaw. -/
theorem stands_or_fails (t : FileTree) (root : String) :
    (∃ w ps us, Stands t root w ps us) ∨ ∃ flaw, Fails t root flaw := by
  cases hdir : t.isDir (Path.join root "workspace") with
  | false => exact .inr ⟨_, .missing hdir⟩
  | true =>
    obtain ⟨found, hfound⟩ := exists_workspaceFiles hdir
    by_cases hcount : found.length = 1
    · obtain ⟨file, rfl⟩ := List.length_eq_one_iff.1 hcount
      cases hw : readObject t Workspace.ofText ((ObjectName.workspace file).path root) with
      | error e =>
        obtain ⟨flaw, hspoils, -⟩ := readObject_eq_error_iff.1 hw
        exact .inr ⟨flaw, .workspace hfound hspoils⟩
      | ok w =>
        rw [readObject_eq_ok_iff] at hw
        cases hps : w.projects.mapM fun signature =>
            readObject t Project.ofText ((ObjectName.project signature).path root) with
        | error e =>
          obtain ⟨flaw, hspoils, -⟩ := readAll_eq_error_iff.1 hps
          exact .inr ⟨flaw, .project hfound hw hspoils⟩
        | ok ps =>
          rw [readAll_eq_ok_iff] at hps
          cases hus : (ps.flatMap (·.targets)).mapM fun signature =>
              readObject t Target.ofText ((ObjectName.target signature).path root) with
          | error e =>
            obtain ⟨flaw, hspoils, -⟩ := readAll_eq_error_iff.1 hus
            exact .inr ⟨flaw, .target hfound hw hps hspoils⟩
          | ok us => exact .inl ⟨w, ps, us, ⟨file, hfound, hw⟩, hps, readAll_eq_ok_iff.1 hus⟩
    · exact .inr ⟨_, .workspaceCount hfound hcount⟩

theorem load_eq_ok_iff {c : Cache} :
    load t root = .ok c ↔ ∃ w ps us, Stands t root w ps us ∧ c = assemble w ps us := by
  constructor
  · intro h
    rcases stands_or_fails t root with ⟨w, ps, us, hstands⟩ | ⟨flaw, hfails⟩
    · rw [load_of_stands hstands] at h
      exact ⟨w, ps, us, hstands, (Except.ok.inj h).symm⟩
    · rw [load_of_fails hfails] at h
      cases h
  · rintro ⟨w, ps, us, hstands, rfl⟩
    exact load_of_stands hstands

theorem load_eq_error_iff {e : LoadFailure} :
    load t root = .error e ↔ ∃ flaw, Fails t root flaw ∧ e = flaw.failure root := by
  constructor
  · intro h
    rcases stands_or_fails t root with ⟨w, ps, us, hstands⟩ | ⟨flaw, hfails⟩
    · rw [load_of_stands hstands] at h
      cases h
    · rw [load_of_fails hfails] at h
      exact ⟨flaw, hfails, (Except.error.inj h).symm⟩
  · rintro ⟨flaw, hfails, rfl⟩
    exact load_of_fails hfails

/-- A snapshot holds the workspace, its projects in order, and of each identifier of a target, in
the order in which these come first, the target that comes last. -/
structure Holds (c : Cache) (w : Workspace) (ps : List Project) (us : List Target) : Prop where
  workspace : c.workspace = w
  projects : c.projects = ps
  guids : c.guids = (us.map (·.guid)).eraseDups
  targets : ∀ u ∈ c.targets, us.reverse.find? (·.guid == u.guid) = some u
  found : ∀ guid, c.target? guid = us.reverse.find? (·.guid == guid)

theorem holds_assemble (w : Workspace) (ps : List Project) (us : List Target) :
    Holds (assemble w ps us) w ps us where
  workspace := rfl
  projects := rfl
  guids := guids_assemble w ps us
  targets := by
    intro u hu
    rw [← target?_assemble w ps us]
    exact target?_of_mem (nodup_guids_assemble w ps us) hu
  found := target?_assemble w ps us

/-- Nothing else can be said of a snapshot. -/
theorem Holds.unique {c c' : Cache} (h : Holds c w ps us) (h' : Holds c' w ps us) : c = c' := by
  have hmap : ∀ {c : Cache}, Holds c w ps us → c.targets.map some =
      (us.map (·.guid)).eraseDups.map fun guid => us.reverse.find? (·.guid == guid) := by
    intro c h
    rw [← h.guids, Cache.guids, List.map_map]
    exact List.map_congr_left fun u hu => (h.targets u hu).symm
  have htargets : c.targets = c'.targets := by
    have hsome := (hmap h).trans (hmap h').symm
    exact List.map_injective_iff.2 (fun _ _ => Option.some.inj) hsome
  obtain ⟨cw, cps, cus⟩ := c
  obtain ⟨cw', cps', cus'⟩ := c'
  obtain rfl : cw = cw' := h.workspace.trans h'.workspace.symm
  obtain rfl : cps = cps' := h.projects.trans h'.projects.symm
  obtain rfl : cus = cus' := htargets
  rfl

end Cache

end BitcodeReplay.Pif
