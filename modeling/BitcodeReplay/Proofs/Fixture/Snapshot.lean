import BitcodeReplay.Proofs.FileTree.Making
import BitcodeReplay.Proofs.Fixture.Recipe
import BitcodeReplay.Proofs.Pif.Load

/-!
Writing a small snapshot and loading it again. Each object goes to a file of its own, in the
directory of its kind, under a name that no other object of the kind has; so each is found where the
object above it says, and nothing else stands beside the workspace.
-/

namespace BitcodeReplay.Fixture

open FileTree Path Snapshot

/-! ### Signatures -/

/-- The number that hexadecimal digits stand for. -/
def hexNumber (digits : List Char) : Nat :=
  digits.foldl (fun n c => 16 * n + (Json.hexValue? c).getD 0) 0

theorem hexValue?_digitChar {n : Nat} (h : n < 16) :
    Json.hexValue? n.digitChar = some n ∧ n.digitChar ≠ '/' := by
  revert n
  decide

theorem hexNumber_toDigits (n : Nat) :
    hexNumber (Nat.toDigits 16 n) = n ∧ '/' ∉ Nat.toDigits 16 n := by
  induction n using Nat.strong_induction_on with
  | h n ih =>
    by_cases hn : n < 16
    · rw [Nat.toDigits_of_lt_base hn]
      simp [hexNumber, hexValue?_digitChar hn, Ne.symm (hexValue?_digitChar hn).2]
    · obtain ⟨hnumber, hslash⟩ := ih (n / 16) (by omega)
      obtain ⟨hlast, hplain⟩ := hexValue?_digitChar (Nat.mod_lt n (show 16 > 0 by decide))
      rw [Nat.toDigits_of_base_le (by decide) (Nat.not_lt.1 hn)]
      refine ⟨?_, by simp [hslash, Ne.symm hplain]⟩
      rw [hexNumber, List.foldl_append, ← hexNumber, hnumber, List.foldl_cons, List.foldl_nil,
        hlast, Option.getD_some, Nat.div_add_mod]

/-- Zeros before it do not change a number. -/
theorem hexNumber_hexadecimal (width n : Nat) : hexNumber (hexadecimal width n) = n := by
  have hzeros : ∀ k, (List.replicate k '0').foldl
      (fun n c => 16 * n + (Json.hexValue? c).getD 0) 0 = 0 := by
    intro k
    induction k with
    | zero => rfl
    | succ k ih => rw [List.replicate_succ, List.foldl_cons]; exact ih
  rw [hexadecimal, hexNumber, List.foldl_append, hzeros, ← hexNumber, (hexNumber_toDigits n).1]

theorem targetSignature_eq (n : Nat) :
    targetSignature n = "TARGET@v11_hash=" ++ String.ofList (hexadecimal 32 n) := rfl

theorem targetSignature_injective : Function.Injective targetSignature := by
  intro n m h
  rw [targetSignature_eq, targetSignature_eq] at h
  have hdigits : hexadecimal 32 n = hexadecimal 32 m := by
    have htexts := congrArg String.toList h
    simpa using htexts
  rw [← hexNumber_hexadecimal 32 n, hdigits, hexNumber_hexadecimal]

theorem slash_not_mem_targetSignature (n : Nat) : '/' ∉ (targetSignature n).toList := by
  simp [targetSignature_eq, hexadecimal, (hexNumber_toDigits n).2]

/-- The name of the file of an object. -/
def fileName (signature : String) : String := signature ++ "-json"

theorem isComponent_fileName {signature : String} (h : '/' ∉ signature.toList) :
    IsComponent (fileName signature) := by
  have hlong : 5 ≤ (fileName signature).length := by
    rw [fileName, String.length_append]
    exact Nat.le_add_left _ _
  refine ⟨?_, ?_, ?_, by simp [fileName, h]⟩ <;>
  · intro heq
    rw [heq] at hlong
    revert hlong
    decide

theorem fileName_injective : Function.Injective fileName := by
  intro a b h
  exact String.toList_inj.1 (by simpa [fileName] using congrArg String.toList h)

/-! ### Writing -/

/-- An object with its kind and its signature. -/
abbrev Labelled := String × String × Json

/-- Below a directory stand the files of some objects, in the directories of their kinds, and
nothing else. -/
structure Stores (t : FileTree) (root : String) (loc : Location) (objects : List Labelled) :
    Prop where
  proper : t.Proper
  leads : ∃ left, t.LeadsTo root left loc
  kinds : ∀ name e, t.get? (loc ++ [name]) = some e → e = .dir
  files : ∀ kind name, t.get? (loc ++ [kind] ++ [name]) ≠ none →
    ∃ o ∈ objects, o.1 = kind ∧ fileName o.2.1 = name
  found : ∀ o ∈ objects, (∃ left, t.LeadsTo (join root o.1) left (loc ++ [o.1])) ∧
    t.resolve true (Pif.objectPath root o.1 o.2.1) = .ok (.found
      (loc ++ [o.1] ++ [fileName o.2.1]) (.file o.2.2.pretty.toUTF8 false))

variable {t t' written : FileTree} {root kind signature : String} {loc : Location} {object : Json}
  {objects more : List Labelled} {o : Labelled}

/-- Below an empty directory stands nothing. -/
theorem stores_nil (ht : t.Proper) (hempty : t.readDir root = .ok []) :
    ∃ loc, Stores t root loc [] := by
  obtain ⟨loc, hfind, hnames⟩ := readDir_eq_ok hempty
  have hnone : ∀ name, t.get? (loc ++ [name]) = none := by
    intro name
    have hname : name ∉ t.namesIn loc := by simp [hnames]
    rwa [mem_namesIn, Option.not_isSome_iff_eq_none] at hname
  refine ⟨loc, ht, leadsTo_of_find? hfind, fun name e he => ?_, fun kind name hne => ?_, by simp⟩
  · rw [hnone] at he
    cases he
  · have hdir := ht.wellFormed _ _ hne
    rw [hnone] at hdir
    cases hdir

theorem Stores.not_link (h : Stores t root loc objects) (kind : String) (target : String) :
    t.get? (loc ++ [kind]) ≠ some (.link target) := by
  intro hlink
  cases h.kinds _ _ hlink

/-- The place of an object that has not been stored is free. -/
theorem Stores.free (h : Stores t root loc objects)
    (hfresh : ∀ o ∈ objects, (o.1, o.2.1) ≠ (kind, signature)) :
    t.get? (loc ++ [kind] ++ [fileName signature]) = none := by
  by_contra hne
  obtain ⟨o, ho, hkind, hname⟩ := h.files _ _ hne
  exact hfresh o ho (Prod.ext hkind (fileName_injective hname))

/-- Where at most the directory of a kind has been added, what is below the directories is as it
was. -/
theorem get?_of_dir_added {made : FileTree}
    (hget : ∀ l, made.get? l = t.get? l ∨
      l = loc ++ [kind] ∧ t.get? l = none ∧ made.get? l = some .dir) (other name : String) :
    made.get? (loc ++ [other] ++ [name]) = t.get? (loc ++ [other] ++ [name]) := by
  rcases hget (loc ++ [other] ++ [name]) with hsame | ⟨heq, -⟩
  · exact hsame
  · simp at heq

/-- Where the directory of a kind has been made, with nothing under the name of the file, what is
written is stored beside what was. -/
theorem Stores.put (h : Stores t root loc objects) {made : FileTree} {left : Nat}
    (hways : KeepsWays t made) (hproper : made.Proper)
    (hget : ∀ l, made.get? l = t.get? l ∨
      l = loc ++ [kind] ∧ t.get? l = none ∧ made.get? l = some .dir)
    (hlead : made.LeadsTo (join root kind) left (loc ++ [kind]))
    (hfree : made.resolve true (Pif.objectPath root kind signature) =
      .ok (.free (loc ++ [kind] ++ [fileName signature]))) :
    Stores (made.put (loc ++ [kind] ++ [fileName signature]) (.file object.pretty.toUTF8 false))
      root loc (objects ++ [(kind, signature, object)]) := by
  have htakes : made.TakesFile (Pif.objectPath root kind signature)
      (loc ++ [kind] ++ [fileName signature]) := .inl hfree
  have hfile : (loc ++ [kind] ++ [fileName signature]) ≠ [] := by simp
  have hput := fun l => get?_put made l _ (.file object.pretty.toUTF8 false) hfile
  have hstays : KeepsWays t (made.put (loc ++ [kind] ++ [fileName signature])
      (.file object.pretty.toUTF8 false)) := hways.trans htakes.keepsWays
  refine ⟨hproper.put_file htakes, ?_, fun name e he => ?_, fun other name hne => ?_,
    fun o ho => ?_⟩
  · obtain ⟨left, hroot⟩ := h.leads
    exact ⟨left, hroot.of_keepsWays hstays⟩
  · rw [hput, if_neg (by simp)] at he
    rcases hget (loc ++ [name]) with hsame | ⟨-, -, hdir⟩
    · exact h.kinds name e (hsame ▸ he)
    · rw [hdir] at he
      cases he
      rfl
  · rw [hput] at hne
    split at hne
    next heq =>
      obtain ⟨hkinds, hnames⟩ := List.append_inj' heq rfl
      refine ⟨_, List.mem_append_right _ List.mem_cons_self, ?_, ?_⟩
      · simpa using hkinds.symm
      · simpa using hnames.symm
    next =>
      rw [get?_of_dir_added hget] at hne
      obtain ⟨o, ho, hmatch⟩ := h.files other name hne
      exact ⟨o, List.mem_append_left _ ho, hmatch⟩
  · rcases List.mem_append.1 ho with ho | ho
    · obtain ⟨⟨left', hold⟩, hfound⟩ := h.found o ho
      have hkept : made.get? (loc ++ [o.1] ++ [fileName o.2.1]) =
          some (.file o.2.2.pretty.toUTF8 false) := by
        rw [get?_of_dir_added hget, get?_of_resolve hfound (by simp)]
      refine ⟨⟨left', hold.of_keepsWays hstays⟩, resolve_of_keepsWays hstays hfound fun _ => ?_⟩
      rw [hput, if_neg, hkept]
      intro heq
      rw [heq, (get?_of_walk_free (resolve_eq_ok_iff.1 hfree).2).2] at hkept
      cases hkept
    · obtain rfl := List.mem_singleton.1 ho
      exact ⟨⟨left, hlead.of_keepsWays htakes.keepsWays⟩, htakes.resolve_put⟩

theorem writeObject_eq_ok (h : writeObject t root kind signature object = .ok t') :
    ∃ made, t.createDirAll (join root kind) = (made, .ok ()) ∧
      made.writeFile (Pif.objectPath root kind signature) object.pretty.toUTF8 = .ok t' := by
  unfold Snapshot.writeObject at h
  cases hmade : t.createDirAll (join root kind) with
  | mk made result =>
    simp only [hmade] at h
    cases result with
    | error e => cases h
    | ok _ =>
      refine ⟨made, rfl, ?_⟩
      rw [Pif.objectPath]
      cases hfile : made.writeFile (join (join root kind) (signature ++ "-json"))
          object.pretty.toUTF8 with
      | error e =>
        simp only [hfile] at h
        cases h
      | ok written =>
        simp only [hfile] at h
        cases h
        rfl

theorem Stores.writeObject (h : Stores t root loc objects) (hkind : IsComponent kind)
    (hsignature : '/' ∉ signature.toList)
    (hfresh : ∀ o ∈ objects, (o.1, o.2.1) ≠ (kind, signature))
    (hwrite : writeObject t root kind signature object = .ok t') :
    Stores t' root loc (objects ++ [(kind, signature, object)]) := by
  obtain ⟨made, hmade, hfile⟩ := writeObject_eq_ok hwrite
  obtain ⟨left, hlead⟩ := h.leads
  have hget := hlead.get?_createDirAll h.proper.wellFormed hkind (h.not_link kind)
  have hproper := proper_createDirAll h.proper (join root kind)
  have hways := (makes_createDirAll t (join root kind)).keepsWays
  rw [hmade] at hget hproper hways
  simp only at hget hproper hways
  have hnone : made.get? (loc ++ [kind] ++ [fileName signature]) = none := by
    rw [get?_of_dir_added hget, h.free hfresh]
  have hlink : ∀ target, made.get? (loc ++ [kind]) ≠ some (.link target) := by
    intro target htarget
    rcases hget (loc ++ [kind]) with hsame | ⟨-, -, hdir⟩
    · exact h.not_link kind target (hsame ▸ htarget)
    · rw [hdir] at htarget
      cases htarget
  have hthrough := (hlead.of_keepsWays hways).leadsThrough.join hkind trivial hlink
  obtain ⟨⟨left', hkindlead⟩, hfree, rfl⟩ :=
    hthrough.writeFile_eq (isComponent_fileName hsignature) hnone hfile
  exact h.put hways hproper hget hkindlead hfree

/-- Objects of different kinds or signatures, and with names that can be those of files. -/
structure AreLabels (objects : List Labelled) : Prop where
  kinds : ∀ o ∈ objects, IsComponent o.1
  signatures : ∀ o ∈ objects, '/' ∉ o.2.1.toList
  distinct : (objects.map fun o => (o.1, o.2.1)).Nodup

theorem writeObjects_cons_eq_ok (h : writeObjects root t (o :: more) = .ok written) :
    ∃ next, writeObject t root o.1 o.2.1 o.2.2 = .ok next ∧
      writeObjects root next more = .ok written := by
  unfold Snapshot.writeObjects at h
  cases hfirst : Snapshot.writeObject t root o.1 o.2.1 o.2.2 with
  | error e =>
    simp only [hfirst] at h
    cases h
  | ok next =>
    simp only [hfirst] at h
    exact ⟨next, rfl, h⟩

/-- Of objects with different labels, the next one has another label than those before it. -/
theorem AreLabels.fresh (h : AreLabels (objects ++ o :: more)) :
    ∀ known ∈ objects, (known.1, known.2.1) ≠ (o.1, o.2.1) := by
  intro known hknown heq
  have hdistinct := h.distinct
  rw [List.map_append, List.map_cons] at hdistinct
  exact List.disjoint_of_nodup_append hdistinct (List.mem_map.2 ⟨known, hknown, heq⟩)
    List.mem_cons_self

/-- Objects that are written one after the other are all stored. -/
theorem Stores.writeObjects (h : Stores t root loc objects) (hlabels : AreLabels (objects ++ more))
    (hwrite : writeObjects root t more = .ok written) :
    Stores written root loc (objects ++ more) := by
  induction more generalizing t objects with
  | nil =>
    cases hwrite
    rwa [List.append_nil]
  | cons o rest ih =>
    have hlast : o ∈ objects ++ o :: rest := by simp
    obtain ⟨next, hfirst, hrest⟩ := writeObjects_cons_eq_ok hwrite
    have hnext := h.writeObject (hlabels.kinds _ hlast) (hlabels.signatures _ hlast) hlabels.fresh
      hfirst
    rw [← List.singleton_append, ← List.append_assoc] at hlabels ⊢
    exact ih hnext hlabels hrest

/-- The path of an object can be followed. -/
structure IsReachable (root : String) (o : Labelled) : Prop where
  path : IsResolvable (Pif.objectPath root o.1 o.2.1)
  kind : ¬ maxName < o.1.utf8ByteSize
  name : ¬ maxName < (fileName o.2.1).utf8ByteSize

theorem Stores.writeObject_succeeds (h : Stores t root loc objects) (hkind : IsComponent kind)
    (hsignature : '/' ∉ signature.toList)
    (hfresh : ∀ o ∈ objects, (o.1, o.2.1) ≠ (kind, signature))
    (hreach : IsReachable root (kind, signature, object)) :
    ∃ t', Snapshot.writeObject t root kind signature object = .ok t' := by
  have hfile := isComponent_fileName hsignature
  obtain ⟨left, hlead⟩ := h.leads
  obtain ⟨made, hmade, hdir⟩ := hlead.createDirAll_eq_ok hkind
    (hreach.path.of_join hfile (join_ne_empty root hkind.ne_empty)) hreach.kind (h.kinds kind)
  have hget := hlead.get?_createDirAll h.proper.wellFormed hkind (h.not_link kind)
  have hways := (makes_createDirAll t (join root kind)).keepsWays
  rw [hmade] at hget hways
  have hnone : made.get? (loc ++ [kind] ++ [fileName signature]) = none := by
    rw [get?_of_dir_added hget, h.free hfresh]
  have hinner := (hlead.of_keepsWays hways).join_dir hkind hreach.kind hdir
  have hfree : made.resolve true (join (join root kind) (fileName signature)) =
      .ok (.free (loc ++ [kind] ++ [fileName signature])) :=
    resolve_join_of_none hinner hfile hreach.path hreach.name hnone
  have hwrite : made.writeFile (Pif.objectPath root kind signature) object.pretty.toUTF8 =
      .ok (made.put (loc ++ [kind] ++ [fileName signature])
        (.file object.pretty.toUTF8 false)) := by
    rw [writeFile, Pif.objectPath, ← fileName, hfree]
    rfl
  unfold Snapshot.writeObject
  simp only [hmade]
  rw [← Pif.objectPath, hwrite]
  exact ⟨_, rfl⟩

/-- Writing succeeds where every path can be followed. -/
theorem Stores.writeObjects_succeeds (h : Stores t root loc objects)
    (hlabels : AreLabels (objects ++ more)) (hreach : ∀ o ∈ more, IsReachable root o) :
    ∃ written, Snapshot.writeObjects root t more = .ok written := by
  induction more generalizing t objects with
  | nil => exact ⟨t, rfl⟩
  | cons o rest ih =>
    have hlast : o ∈ objects ++ o :: rest := by simp
    have hfresh := hlabels.fresh
    obtain ⟨next, hnext⟩ := h.writeObject_succeeds (hlabels.kinds _ hlast)
      (hlabels.signatures _ hlast) hfresh (hreach o List.mem_cons_self)
    have hstores := h.writeObject (hlabels.kinds _ hlast) (hlabels.signatures _ hlast) hfresh hnext
    rw [← List.singleton_append, ← List.append_assoc] at hlabels
    obtain ⟨written, hwritten⟩ := ih hstores hlabels
      fun o ho => hreach o (List.mem_cons_of_mem _ ho)
    refine ⟨written, ?_⟩
    unfold Snapshot.writeObjects
    simp only [hnext, hwritten]

/-! ### Loading -/

/-- A stored object is read as it was written. -/
theorem Stores.readFile (h : Stores t root loc objects) (ho : o ∈ objects) :
    t.readFile (Pif.objectPath root o.1 o.2.1) = .ok o.2.2.pretty.toUTF8 :=
  readFile_of_resolve (h.found o ho).2

/-- The workspace is found by its name if it is alone in its directory. -/
theorem Stores.workspaceFiles (h : Stores t root loc objects)
    (ho : ("workspace", signature, object) ∈ objects) (hsignature : '/' ∉ signature.toList)
    (halone : ∀ o ∈ objects, o.1 = "workspace" → o.2.1 = signature)
    (hname : Pif.isWorkspaceName (fileName signature) = true) :
    Pif.WorkspaceFiles t root [fileName signature] := by
  obtain ⟨⟨left, hlead⟩, hfound⟩ := h.found _ ho
  have hpath : IsResolvable (join root "workspace") :=
    (resolve_eq_ok_iff.1 hfound).1.of_join (isComponent_fileName hsignature)
      (join_ne_empty root (show "workspace" ≠ "" by decide))
  have hfind := hlead.find?_eq hpath
  have hnames : t.namesIn (loc ++ ["workspace"]) = [fileName signature] := by
    refine List.perm_singleton.1 ((List.perm_ext_iff_of_nodup (h.proper.nodup_namesIn _)
      (List.nodup_singleton _)).2 fun name => ?_)
    rw [mem_namesIn, List.mem_singleton]
    constructor
    · intro hsome
      obtain ⟨o, ho, hkind, hfile⟩ := h.files "workspace" name (Option.isSome_iff_ne_none.1 hsome)
      rw [← hfile, halone o ho hkind]
    · rintro rfl
      rw [get?_of_resolve hfound (by simp), Option.isSome_some]
  refine ⟨_, hfind, ?_⟩
  rw [hnames, List.filter_cons_of_pos hname, List.filter_nil]

theorem signatures_snapshotOf (recipes : List Recipe) (frameworks : List (String × String)) :
    (snapshotOf recipes frameworks).signatures =
      (List.range recipes.length).map targetSignature := by
  rw [Snapshot.signatures, snapshotOf_eq, List.length_map]

theorem length_signatures_snapshotOf (recipes : List Recipe)
    (frameworks : List (String × String)) :
    (snapshotOf recipes frameworks).signatures.length =
      (snapshotOf recipes frameworks).targets.length := by
  rw [signatures_snapshotOf, snapshotOf_eq, List.length_map, List.length_map, List.length_range]

theorem areLabels_objects (recipes : List Recipe) (frameworks : List (String × String)) :
    AreLabels (snapshotOf recipes frameworks).objects := by
  have hsignatures := signatures_snapshotOf recipes frameworks
  have hlength := length_signatures_snapshotOf recipes frameworks
  rw [Snapshot.objects]
  refine ⟨?_, ?_, ?_⟩
  · simp only [List.forall_mem_cons, List.forall_mem_map]
    exact ⟨by decide, by decide, fun _ _ => by decide⟩
  · simp only [List.forall_mem_cons, List.forall_mem_map]
    refine ⟨by decide, by decide, fun p hp => ?_⟩
    obtain ⟨n, -, hn⟩ := List.mem_map.1 (hsignatures ▸ (List.of_mem_zip hp).1)
    rw [← hn]
    exact slash_not_mem_targetSignature n
  · have htargets : (((snapshotOf recipes frameworks).signatures.zip
        (snapshotOf recipes frameworks).targets).map fun p => ("target", p.1)).Nodup := by
      have hfirst := List.map_fst_zip hlength.le
      rw [← Function.comp_def (fun signature => ("target", signature)) Prod.fst, ← List.map_map,
        hfirst, hsignatures, List.map_map]
      refine List.nodup_range.map fun n m h => ?_
      exact targetSignature_injective (Prod.mk.inj h).2
    rw [List.map_cons, List.map_cons, List.map_map, List.nodup_cons, List.nodup_cons]
    exact ⟨by simp, by simp, htargets⟩

section

variable {recipes : List Recipe} {frameworks : List (String × String)}

/-- The objects of the targets are read in the order of their signatures. -/
theorem readsAll_targets
    (hstored : ∀ o ∈ (snapshotOf recipes frameworks).signatures.zip
        (snapshotOf recipes frameworks).targets,
      t.readFile (Pif.objectPath root "target" o.1) = .ok o.2.pretty.toUTF8) :
    Pif.ReadsAll t root Pif.Target.ofText .target (snapshotOf recipes frameworks).signatures
      (recipes.map (·.target)) := by
  rw [Pif.ReadsAll, List.forall₂_map_right_iff, List.forall₂_iff_zip]
  constructor
  · rw [signatures_snapshotOf, List.length_map, List.length_range]
  · intro signature recipe hzip
    have hobjects : (snapshotOf recipes frameworks).targets = recipes.map (·.object) := by
      rw [snapshotOf_eq]
    have hobject : (signature, recipe.object) ∈ (snapshotOf recipes frameworks).signatures.zip
        (snapshotOf recipes frameworks).targets := by
      rw [hobjects, List.zip_map_right]
      exact List.mem_map.2 ⟨_, hzip, rfl⟩
    have hread : t.readFile ((Pif.ObjectName.target signature).path root) =
        .ok recipe.object.pretty.toUTF8 := hstored (signature, recipe.object) hobject
    exact Pif.reads_of_readFile hread recipe.ofText_pretty

theorem flatMap_targets_projectOf : [projectOf recipes frameworks].flatMap (·.targets) =
    (snapshotOf recipes frameworks).signatures := by
  rw [List.flatMap_singleton, projectOf]

/-- A snapshot stands where the texts of its objects do: the workspace, the project and the targets
that were meant. -/
theorem stands_of_stored
    (hfile : Pif.WorkspaceFiles t root [fileName "WORKSPACE@v11_hash=0000"])
    (hstored : ∀ o ∈ (snapshotOf recipes frameworks).objects,
      t.readFile (Pif.objectPath root o.1 o.2.1) = .ok o.2.2.pretty.toUTF8) :
    Pif.Stands t root ⟨"WORKSPACE", "Fixture", "/src/Fixture.xcworkspace", [projectSignature]⟩
      [projectOf recipes frameworks] (recipes.map (·.target)) := by
  rw [Snapshot.objects] at hstored
  simp only [List.forall_mem_cons, List.forall_mem_map] at hstored
  obtain ⟨hworkspace, hproject, htargets⟩ := hstored
  have hw : Pif.Reads t root Pif.Workspace.ofText
      (.workspace (fileName "WORKSPACE@v11_hash=0000")) _ :=
    Pif.reads_of_readFile hworkspace ofText_workspace
  have hp : Pif.Reads t root Pif.Project.ofText (.project projectSignature)
      (projectOf recipes frameworks) :=
    Pif.reads_of_readFile hproject (ofText_project recipes frameworks)
  have hus := readsAll_targets htargets
  rw [← flatMap_targets_projectOf] at hus
  refine ⟨⟨_, hfile, hw⟩, ?_, hus⟩
  rw [Pif.ReadsAll, List.forall₂_cons]
  exact ⟨hp, .nil⟩

/-- What has been stored for a snapshot is loaded. -/
theorem Stores.load (h : Stores t root loc (snapshotOf recipes frameworks).objects) :
    Pif.Cache.load t root = .ok (.assemble
      ⟨"WORKSPACE", "Fixture", "/src/Fixture.xcworkspace", [projectSignature]⟩
      [projectOf recipes frameworks] (recipes.map (·.target))) := by
  have hworkspace : ("workspace", "WORKSPACE@v11_hash=0000", workspace) ∈
      (snapshotOf recipes frameworks).objects := List.mem_cons_self
  have halone : ∀ o ∈ (snapshotOf recipes frameworks).objects, o.1 = "workspace" →
      o.2.1 = "WORKSPACE@v11_hash=0000" := by
    rw [Snapshot.objects]
    simp only [List.forall_mem_cons, List.forall_mem_map]
    exact ⟨fun _ => trivial, fun h => absurd h (by decide), fun _ _ h => absurd h (by decide)⟩
  have hfile := h.workspaceFiles hworkspace (by decide) halone (by decide)
  exact Pif.Cache.load_of_stands (stands_of_stored hfile fun o ho => h.readFile ho)

end

/-- A snapshot of targets and frameworks that has been written into an empty directory is loaded
again: each identifier stands where it came first, with the target that came last and is as it was
made, and the group tree of the project lists the frameworks. -/
theorem load_writeTo (recipes : List Recipe) (frameworks : List (String × String))
    (ht : t.Proper) (hempty : t.readDir root = .ok [])
    (hwrite : (snapshotOf recipes frameworks).writeTo t root = .ok written) :
    ∃ cache, Pif.Cache.load written root = .ok cache ∧
      cache.guids = (recipes.map (·.guid)).eraseDups ∧
      (∀ target ∈ cache.targets, ∃ recipe,
        recipes.reverse.find? (·.guid == target.guid) = some recipe ∧ recipe.Makes target) ∧
      cache.projects.map (·.files) = [frameworks.map framework] := by
  obtain ⟨loc, hstart⟩ := stores_nil ht hempty
  have hstores : Stores written root loc (snapshotOf recipes frameworks).objects :=
    hstart.writeObjects (areLabels_objects recipes frameworks) hwrite
  have hguid : ∀ recipe : Recipe, recipe.target.guid = recipe.guid :=
    fun recipe => recipe.makes_target.guid
  have hmatch : ∀ guid : Pif.Guid, ((fun target : Pif.Target => target.guid == guid) ∘
      fun recipe : Recipe => recipe.target) = fun recipe => recipe.guid == guid :=
    fun guid => funext fun recipe => by rw [Function.comp_apply, hguid]
  refine ⟨_, hstores.load, ?_, fun target htarget => ?_, ?_⟩
  · rw [Pif.Cache.guids_assemble, List.map_map]
    congr 2
    exact funext hguid
  · have hfind := Pif.Cache.target?_of_mem (Pif.Cache.nodup_guids_assemble _ _ _) htarget
    rw [Pif.Cache.target?_assemble, ← List.map_reverse, List.find?_map, hmatch] at hfind
    obtain ⟨recipe, hrecipe, rfl⟩ := Option.map_eq_some_iff.1 hfind
    exact ⟨recipe, hrecipe, recipe.makes_target⟩
  · rw [Pif.Cache.assemble, List.map_singleton, Pif.Project.files, projectOf, files_rootGroup]

/-- A snapshot is written into an empty directory where every path can be followed. -/
theorem writeTo_succeeds (recipes : List Recipe) (frameworks : List (String × String))
    (ht : t.Proper) (hempty : t.readDir root = .ok [])
    (hreach : ∀ o ∈ (snapshotOf recipes frameworks).objects, IsReachable root o) :
    ∃ written, (snapshotOf recipes frameworks).writeTo t root = .ok written := by
  obtain ⟨loc, hstart⟩ := stores_nil ht hempty
  exact hstart.writeObjects_succeeds (areLabels_objects recipes frameworks) hreach

/-- Targets of all kinds. The last has the identifier of the first, and three phases of links. -/
def mixedRecipes : List Recipe :=
  [.standard "A" "App" "com.apple.product-type.application" "App.app" ["PACKAGE-PRODUCT:P"] [],
    .packageProduct "P" ["P"],
    .packageTarget "P" [["L"]],
    .standard "A" "Kit" "com.apple.product-type.framework" "Kit.framework" ["B", "C"]
      [["F", "G"], [], ["F"]]]

/-- Nothing but a directory. -/
def emptyTree : FileTree := ⟨[(["pif"], .dir)]⟩

theorem load_writeTo_mixed : emptyTree.Proper ∧ emptyTree.readDir "/pif" = .ok [] ∧
    ∃ written cache,
      (snapshotOf mixedRecipes [("F", "Kit.framework")]).writeTo emptyTree "/pif" = .ok written ∧
      Pif.Cache.load written "/pif" = .ok cache ∧
      cache.guids = ["A", "PACKAGE-PRODUCT:P", "PACKAGE-TARGET:P"] ∧
      (∀ target ∈ cache.targets, ∃ recipe,
        mixedRecipes.reverse.find? (·.guid == target.guid) = some recipe ∧ recipe.Makes target) ∧
      cache.projects.map (·.files) = [[framework ("F", "Kit.framework")]] := by
  have hproper : emptyTree.Proper := proper_of_entries (by decide) (by decide) (by decide)
  have hempty : emptyTree.readDir "/pif" = .ok [] := by
    have hnames : Path.names "/pif" = ["pif"] := by decide
    have hstands : emptyTree.Stands [] (Path.names "/pif") := by
      rw [hnames]
      decide
    rw [readDir_of_find? (find?_of_stands (by decide) hstands), hnames]
    rfl
  have hreach : ∀ o ∈ (snapshotOf mixedRecipes [("F", "Kit.framework")]).objects,
      IsReachable "/pif" o := by
    have htargets : ∀ n < 4, IsResolvable (Pif.objectPath "/pif" "target" (targetSignature n)) ∧
        ¬ maxName < (fileName (targetSignature n)).utf8ByteSize := by decide +kernel
    rw [Snapshot.objects]
    simp only [List.forall_mem_cons, List.forall_mem_map]
    refine ⟨⟨by decide, by decide, by decide⟩, ⟨by decide, by decide, by decide⟩, fun p hp => ?_⟩
    obtain ⟨n, hn, hsignature⟩ := List.mem_map.1
      (signatures_snapshotOf mixedRecipes [("F", "Kit.framework")] ▸ (List.of_mem_zip hp).1)
    obtain ⟨hpath, hname⟩ := htargets n (List.mem_range.1 hn)
    rw [hsignature] at hpath hname
    exact ⟨hpath, show ¬ maxName < "target".utf8ByteSize by decide, hname⟩
  obtain ⟨written, hwritten⟩ := writeTo_succeeds mixedRecipes [("F", "Kit.framework")] hproper
    hempty hreach
  obtain ⟨cache, hload, hguids, htargets, hfiles⟩ :=
    load_writeTo mixedRecipes [("F", "Kit.framework")] hproper hempty hwritten
  refine ⟨hproper, hempty, written, cache, hwritten, hload, ?_, htargets, hfiles⟩
  rw [hguids]
  decide

end BitcodeReplay.Fixture
