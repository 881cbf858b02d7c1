import BitcodeReplay.Proofs.Fixture.Snapshot
import BitcodeReplay.Proofs.Pif.Load

/-!
What a snapshot is loaded from: the workspace object, the projects that it lists and the targets
that these list. Where two directories agree on these, nothing else in them counts.
-/

namespace BitcodeReplay.Pif

open FileTree

variable {t t' : FileTree} {root root' : String} {τ : Type}
  {decode : List Char → Except DecodeError τ} {object : ObjectName}
  {name : String → ObjectName} {listed : List String}
  {file : String} {w : Workspace} {ps : List Project} {us : List Target} {flaw : Flaw}

/-! ### Directories that agree -/

/-- The objects that a snapshot in a directory consists of, so far as they can be read: the
workspace, the projects that it lists, and the targets that these list. -/
inductive Listed (t : FileTree) (root : String) : ObjectName → Prop
  | workspace {file : String} (hfile : WorkspaceFiles t root [file]) :
    Listed t root (.workspace file)
  | project {file signature : String} {w : Workspace} (hfile : WorkspaceFiles t root [file])
    (hw : Reads t root Workspace.ofText (.workspace file) w) (h : signature ∈ w.projects) :
    Listed t root (.project signature)
  | target {file listed signature : String} {w : Workspace} {p : Project}
    (hfile : WorkspaceFiles t root [file])
    (hw : Reads t root Workspace.ofText (.workspace file) w) (hlisted : listed ∈ w.projects)
    (hp : Reads t root Project.ofText (.project listed) p) (h : signature ∈ p.targets) :
    Listed t root (.target signature)

/-- Two directories agree on the files of a snapshot. -/
structure Agrees (t : FileTree) (root : String) (t' : FileTree) (root' : String) : Prop where
  directory : t'.isDir (Path.join root' "workspace") = t.isDir (Path.join root "workspace")
  files : ∀ found found', WorkspaceFiles t root found → WorkspaceFiles t' root' found' →
    found'.Perm found
  objects : ∀ object, Listed t root object →
    t'.readFile (object.path root') = t.readFile (object.path root)

theorem Reads.congr {value : τ}
    (hread : t'.readFile (object.path root') = t.readFile (object.path root))
    (h : Reads t root decode object value) : Reads t' root' decode object value := by
  rwa [Reads, hread]

theorem Spoils.congr
    (hread : t'.readFile (object.path root') = t.readFile (object.path root))
    (h : Spoils t root decode object flaw) : Spoils t' root' decode object flaw := by
  cases h with
  | unreadable hbad => exact .unreadable (hread.trans hbad)
  | undecodable hbytes hbad => exact .undecodable (hread.trans hbytes) hbad

theorem ReadsAll.congr {values : List τ} (hread : ∀ signature ∈ listed,
      t'.readFile ((name signature).path root') = t.readFile ((name signature).path root))
    (h : ReadsAll t root decode name listed values) :
    ReadsAll t' root' decode name listed values := by
  induction h with
  | nil => exact .nil
  | cons hfirst _ ih =>
    obtain ⟨hsame, hothers⟩ := List.forall_mem_cons.1 hread
    exact .cons (hfirst.congr hsame) (ih hothers)

theorem SpoilsFirst.congr (hread : ∀ signature ∈ listed,
      t'.readFile ((name signature).path root') = t.readFile ((name signature).path root))
    (h : SpoilsFirst t root decode name listed flaw) :
    SpoilsFirst t' root' decode name listed flaw := by
  obtain ⟨front, signature, back, rfl, hfront, hspoils⟩ := h
  refine ⟨front, signature, back, rfl, fun earlier hearlier => ?_, ?_⟩
  · obtain ⟨value, hvalue⟩ := hfront earlier hearlier
    exact ⟨value, hvalue.congr (hread earlier (List.mem_append_left _ hearlier))⟩
  · exact hspoils.congr (hread signature (by simp))

theorem Agrees.workspaceFiles (h : Agrees t root t' root') {found : List String}
    (hfound : WorkspaceFiles t root found) :
    ∃ found', WorkspaceFiles t' root' found' ∧ found'.Perm found := by
  obtain ⟨found', hfound'⟩ := exists_workspaceFiles (h.directory.trans hfound.isDir)
  exact ⟨found', hfound', h.files _ _ hfound hfound'⟩

theorem Agrees.workspaceFile (h : Agrees t root t' root')
    (hfile : WorkspaceFiles t root [file]) : WorkspaceFiles t' root' [file] := by
  obtain ⟨found, hfound, hperm⟩ := h.workspaceFiles hfile
  rwa [List.perm_singleton.1 hperm] at hfound

/-- All that the projects list is listed. -/
theorem listed_of_mem_targets {signature : String} (hfile : WorkspaceFiles t root [file])
    (hw : Reads t root Workspace.ofText (.workspace file) w)
    (hps : ReadsAll t root Project.ofText .project w.projects ps)
    (h : signature ∈ ps.flatMap (·.targets)) : Listed t root (.target signature) := by
  obtain ⟨p, hp, hsignature⟩ := List.mem_flatMap.1 h
  obtain ⟨listed, hlisted, hread⟩ := exists_of_forall₂_right hps hp
  exact .target hfile hw hlisted hread hsignature

/-- All that is listed in a snapshot belongs to it. -/
theorem Stands.of_listed (h : Stands t root w ps us) (hfile : WorkspaceFiles t root [file])
    (hlisted : Listed t root object) :
    object = .workspace file ∨ (∃ signature ∈ w.projects, object = .project signature) ∨
      ∃ signature ∈ ps.flatMap (·.targets), object = .target signature := by
  obtain ⟨file', hfile', hw⟩ := h.workspace
  obtain rfl : file' = file := List.singleton_inj.1 (hfile.unique hfile')
  cases hlisted with
  | workspace hknown => exact .inl (congrArg _ (List.singleton_inj.1 (hfile.unique hknown)))
  | project hknown hread hsignature =>
    obtain rfl := List.singleton_inj.1 (hfile.unique hknown)
    rw [hw.unique hread] at hsignature
    exact .inr (.inl ⟨_, hsignature, rfl⟩)
  | target hknown hread hproject hp hsignature =>
    obtain rfl := List.singleton_inj.1 (hfile.unique hknown)
    rw [hw.unique hread] at hproject
    refine .inr (.inr ⟨_, List.mem_flatMap.2 ?_, rfl⟩)
    obtain ⟨p, hmem, hp'⟩ := exists_of_forall₂_left h.projects hproject
    exact ⟨p, hmem, hp.unique hp' ▸ hsignature⟩

theorem Stands.agrees (hagrees : Agrees t root t' root') (h : Stands t root w ps us) :
    Stands t' root' w ps us := by
  obtain ⟨file, hfile, hw⟩ := h.workspace
  refine ⟨⟨file, hagrees.workspaceFile hfile, hw.congr (hagrees.objects _ (.workspace hfile))⟩,
    h.projects.congr fun signature hsignature => ?_,
    h.targets.congr fun signature hsignature => ?_⟩
  · exact hagrees.objects _ (.project hfile hw hsignature)
  · exact hagrees.objects _ (listed_of_mem_targets hfile hw h.projects hsignature)

theorem Fails.agrees (hagrees : Agrees t root t' root') (h : Fails t root flaw) :
    Fails t' root' flaw := by
  cases h with
  | missing h => exact .missing (hagrees.directory.trans h)
  | workspaceCount hfound h =>
    obtain ⟨found', hfound', hperm⟩ := hagrees.workspaceFiles hfound
    rw [← hperm.length_eq] at h ⊢
    exact .workspaceCount hfound' h
  | workspace hfile h =>
    exact .workspace (hagrees.workspaceFile hfile) (h.congr (hagrees.objects _ (.workspace hfile)))
  | project hfile hw h =>
    exact .project (hagrees.workspaceFile hfile) (hw.congr (hagrees.objects _ (.workspace hfile)))
      (h.congr fun signature hsignature => hagrees.objects _ (.project hfile hw hsignature))
  | target hfile hw hps h =>
    exact .target (hagrees.workspaceFile hfile) (hw.congr (hagrees.objects _ (.workspace hfile)))
      (hps.congr fun signature hsignature => hagrees.objects _ (.project hfile hw hsignature))
      (h.congr fun signature hsignature =>
        hagrees.objects _ (listed_of_mem_targets hfile hw hps hsignature))

/-! ### Made snapshots -/

section

open Fixture (Recipe snapshotOf projectOf fileName length_signatures_snapshotOf
  flatMap_targets_projectOf stands_of_stored)

variable {recipes : List Recipe} {frameworks : List (String × String)}

/-- What else stands beside a made snapshot does not count. -/
theorem agrees_of_stored
    (hfile : WorkspaceFiles t root [fileName "WORKSPACE@v11_hash=0000"])
    (hfile' : WorkspaceFiles t' root' [fileName "WORKSPACE@v11_hash=0000"])
    (hstored : ∀ o ∈ (snapshotOf recipes frameworks).objects,
      t.readFile (objectPath root o.1 o.2.1) = .ok o.2.2.pretty.toUTF8)
    (hstored' : ∀ o ∈ (snapshotOf recipes frameworks).objects,
      t'.readFile (objectPath root' o.1 o.2.1) = .ok o.2.2.pretty.toUTF8) :
    Agrees t root t' root' := by
  have hstands := stands_of_stored hfile hstored
  refine ⟨hfile'.isDir.trans hfile.isDir.symm, fun found found' hfound hfound' => ?_,
    fun object hlisted => ?_⟩
  · rw [hfile.unique hfound, hfile'.unique hfound']
  · rw [Fixture.Snapshot.objects] at hstored hstored'
    simp only [List.forall_mem_cons, List.forall_mem_map] at hstored hstored'
    obtain ⟨hworkspace, hproject, htargets⟩ := hstored
    obtain ⟨hworkspace', hproject', htargets'⟩ := hstored'
    rcases hstands.of_listed hfile hlisted with rfl | ⟨signature, hsignature, rfl⟩ |
      ⟨signature, hsignature, rfl⟩
    · exact hworkspace'.trans hworkspace.symm
    · rw [List.mem_singleton.1 hsignature]
      exact hproject'.trans hproject.symm
    · rw [flatMap_targets_projectOf] at hsignature
      have hlength := length_signatures_snapshotOf recipes frameworks
      rw [← List.map_fst_zip hlength.le] at hsignature
      obtain ⟨⟨signature, object⟩, ho, rfl⟩ := List.mem_map.1 hsignature
      exact (htargets' (signature, object) ho).trans (htargets (signature, object) ho).symm

namespace Cache

/-- A snapshot is loaded from a directory exactly if one stands there, and what is loaded holds it.
Otherwise the first flaw is reported. Directories that agree on the files of a snapshot hold the
same one, or have the same flaw. -/
theorem load_eq_iff_stands (t : FileTree) (root : String) :
    ((∃ c, load t root = .ok c) ↔ ∃ w ps us, Stands t root w ps us) ∧
    (∀ c, load t root = .ok c ↔ ∃ w ps us, Stands t root w ps us ∧ Holds c w ps us) ∧
    (∀ e, load t root = .error e ↔ ∃ flaw, Fails t root flaw ∧ e = flaw.failure root) ∧
    ∀ t' root', Agrees t root t' root' → ∃ result : Except Flaw Cache,
      load t root = result.mapError (·.failure root) ∧
      load t' root' = result.mapError (·.failure root') := by
  refine ⟨?_, fun c => ?_, fun e => load_eq_error_iff, fun t' root' hagrees => ?_⟩
  · constructor
    · rintro ⟨c, hload⟩
      obtain ⟨w, ps, us, hstands, -⟩ := load_eq_ok_iff.1 hload
      exact ⟨w, ps, us, hstands⟩
    · rintro ⟨w, ps, us, hstands⟩
      exact ⟨_, load_of_stands hstands⟩
  · rw [load_eq_ok_iff]
    constructor
    · rintro ⟨w, ps, us, hstands, rfl⟩
      exact ⟨w, ps, us, hstands, holds_assemble w ps us⟩
    · rintro ⟨w, ps, us, hstands, hholds⟩
      exact ⟨w, ps, us, hstands, hholds.unique (holds_assemble w ps us)⟩
  · rcases stands_or_fails t root with ⟨w, ps, us, hstands⟩ | ⟨flaw, hfails⟩
    · exact ⟨.ok (assemble w ps us), load_of_stands hstands,
        load_of_stands (hstands.agrees hagrees)⟩
    · exact ⟨.error flaw, load_of_fails hfails, load_of_fails (hfails.agrees hagrees)⟩

end Cache

/-- Two targets with one identifier. -/
def twinRecipes : List Recipe :=
  [.standard "A" "App" "com.apple.product-type.application" "App.app" [] [],
    .standard "A" "Kit" "com.apple.product-type.framework" "Kit.framework" [] []]

def twinObjects : List Fixture.Labelled := (snapshotOf twinRecipes []).objects

/-- Two directories with the same snapshot. The second also holds files that nothing lists. -/
def twinTree : FileTree :=
  ⟨["/p", "/q"].flatMap (fun root =>
      (Path.names root, .dir) ::
        ["workspace", "project", "target"].map (fun kind => (Path.names root ++ [kind], .dir)) ++
        twinObjects.map fun o => (Path.names root ++ [o.1] ++ [fileName o.2.1],
          .file o.2.2.pretty.toUTF8 false)) ++
    [(["q", "workspace", "notes.txt"], .file .empty false),
      (["q", "target", "STALE-json"], .file .empty false)]⟩

theorem readFile_twinTree {root : String} (hroot : root ∈ ["/p", "/q"]) :
    ∀ o ∈ twinObjects,
      twinTree.readFile (objectPath root o.1 o.2.1) = .ok o.2.2.pretty.toUTF8 := by
  intro o ho
  have hpaths : ∀ root ∈ ["/p", "/q"], ∀ o ∈ twinObjects,
      IsResolvable (objectPath root o.1 o.2.1) ∧
      Path.names (Path.join root o.1) = Path.names root ++ [o.1] ∧
      twinTree.Stands [] (Path.names (Path.join root o.1)) ∧
      Path.IsComponent (fileName o.2.1) ∧
      ¬ maxName < (fileName o.2.1).utf8ByteSize := by
    decide +kernel
  obtain ⟨hpath, hnames, hstands, hc, hshort⟩ := hpaths root hroot o ho
  have hentry : twinTree.get? (Path.names (Path.join root o.1) ++ [fileName o.2.1]) =
      some (.file o.2.2.pretty.toUTF8 false) := by
    have hdistinct : (twinTree.entries.map Prod.fst).Nodup := by decide +kernel
    rw [hnames, get?_of_ne_nil _ (by simp)]
    exact lookup_of_mem hdistinct (List.mem_append_left _ (List.mem_flatMap.2
      ⟨root, hroot, List.mem_append_right _ (List.mem_map.2 ⟨o, ho, rfl⟩)⟩))
  have hlead : twinTree.LeadsTo (Path.join root o.1) maxLinks (Path.names (Path.join root o.1)) :=
    hstands.passage_eq maxLinks
  apply readFile_of_resolve
  rw [objectPath, ← fileName, resolve_join hlead hc hpath, walk_name hc (by simp [hentry]),
    if_neg hshort, placeIn_of_some hentry]

theorem workspaceFiles_twinTree {root : String} (hroot : root ∈ ["/p", "/q"]) :
    WorkspaceFiles twinTree root [fileName "WORKSPACE@v11_hash=0000"] := by
  have hpaths : ∀ root ∈ ["/p", "/q"], IsResolvable (Path.join root "workspace") ∧
      twinTree.Stands [] (Path.names (Path.join root "workspace")) ∧
      (twinTree.namesIn (Path.names (Path.join root "workspace"))).filter isWorkspaceName =
        [fileName "WORKSPACE@v11_hash=0000"] := by
    decide +kernel
  obtain ⟨hpath, hstands, hnames⟩ := hpaths root hroot
  exact ⟨_, find?_of_stands hpath hstands, hnames⟩

/-- The same snapshot is loaded from both, with one of the two targets. -/
theorem load_eq_iff_stands_twins : Agrees twinTree "/p" twinTree "/q" ∧
    ∃ cache, Cache.load twinTree "/p" = .ok cache ∧ Cache.load twinTree "/q" = .ok cache ∧
      cache.guids = ["A"] := by
  have hfile : WorkspaceFiles twinTree "/p" _ := workspaceFiles_twinTree (by simp)
  have hfile' : WorkspaceFiles twinTree "/q" _ := workspaceFiles_twinTree (by simp)
  have hstored := readFile_twinTree (show "/p" ∈ ["/p", "/q"] by simp)
  have hagrees : Agrees twinTree "/p" twinTree "/q" :=
    agrees_of_stored hfile hfile' hstored (readFile_twinTree (by simp))
  obtain ⟨-, hok, -, hsame⟩ := Cache.load_eq_iff_stands twinTree "/p"
  obtain ⟨result, hload, hload'⟩ := hsame twinTree "/q" hagrees
  have hcache := (hok _).2 ⟨_, _, _, stands_of_stored hfile hstored, Cache.holds_assemble _ _ _⟩
  rw [hcache] at hload
  cases result with
  | error flaw => cases hload
  | ok cache =>
    cases hload
    refine ⟨hagrees, _, hcache, hload', ?_⟩
    have hguid : ((fun target : Target => target.guid) ∘ fun recipe : Recipe =>
        recipe.target) = Recipe.guid := funext fun recipe => recipe.makes_target.guid
    rw [Cache.guids_assemble, List.map_map, hguid]
    decide

end

end BitcodeReplay.Pif
