import BitcodeReplay.Proofs.Fixture.Snapshot
import BitcodeReplay.Proofs.Graph.Build
import BitcodeReplay.Proofs.Invocation
import BitcodeReplay.Proofs.Pipeline.DryRun
import BitcodeReplay.Proofs.ProductTree.Within

/-!
Where a run writes. If the planned directories have names, compilers write within bounds and no link
leads out of these, every product directory is right below the root, and nothing changes but places
within bounds, the graph, what the repair changes, and directories that were missing on the way to
the root or to the scratch directory.
-/

namespace BitcodeReplay.Replay

open Path FileTree

variable {base scratch root : String} {index : Nat} {t : FileTree} {p : ProductTree}
  {jobs : List Job}

/-- What holds of a tree with its products holds after jobs have been prepared if making the two
directories of a job and recording its product keep it. -/
theorem prepare_keeps {P : FileTree × ProductTree → Prop} (hstart : P (t, p))
    (hproduct : ∀ t p, ∀ j ∈ jobs, P (t, p) → P ((t.createDirAll (p.path j.directory)).1, p))
    (hrecord : ∀ t p, ∀ j ∈ jobs, P (t, p) →
      P (t, { p with products := ProductTree.recordProduct j.directory j.guid p.products }))
    (hwork : ∀ t p k, ∀ j ∈ jobs, P (t, p) →
      P ((t.createDirAll (workDirectory scratch k j)).1, p)) :
    P (prepare base scratch index t p jobs).1 := by
  induction jobs generalizing index t p with
  | nil => exact hstart
  | cons j rest ih =>
    have hj : j ∈ j :: rest := List.mem_cons_self
    have hmade := hproduct t p j hj hstart
    unfold prepare
    rw [ProductTree.ensure]
    cases hensure : t.createDirAll (p.path j.directory) with
    | mk made result =>
      rw [hensure] at hmade
      cases result with
      | error e => exact hmade
      | ok _ =>
        have hrecorded := hrecord made p j hj hmade
        have hworked := hwork made _ index j hj hrecorded
        simp only
        cases hscratch : made.createDirAll (workDirectory scratch index j) with
        | mk made' result =>
          rw [hscratch] at hworked
          cases result with
          | error e => exact hworked
          | ok _ =>
            have hrest : P (prepare base scratch (index + 1) made' _ rest).1 :=
              ih hworked (fun t p j hmem => hproduct t p j (List.mem_cons_of_mem _ hmem))
                (fun t p j hmem => hrecord t p j (List.mem_cons_of_mem _ hmem))
                fun t p k j hmem => hwork t p k j (List.mem_cons_of_mem _ hmem)
            simp only
            generalize prepare base scratch (index + 1) made' _ rest = later at hrest
            obtain ⟨after, _ | _⟩ := later <;> exact hrest

/-- Preparing jobs makes their directories, and those on the way to them. -/
theorem makes_prepare (hroot : p.root = root) :
    Makes (fun names => ∃ j ∈ jobs, names = Path.names (join root j.directory) ∨
        ∃ k, names = Path.names (workDirectory scratch k j))
      t (prepare base scratch index t p jobs).1.1 := by
  generalize hways : (fun names => ∃ j ∈ jobs, names = Path.names (join root j.directory) ∨
    ∃ k, names = Path.names (workDirectory scratch k j)) = ways
  have hmakes : ∀ u path, ways (Path.names path) → Makes ways u (u.createDirAll path).1 :=
    fun u path hpath => (makes_createDirAll u path).mono fun names hnames =>
      ⟨_, hpath, hnames ▸ List.prefix_rfl⟩
  refine (prepare_keeps (P := fun s => s.2.root = root ∧ Makes ways t s.1) ⟨hroot, Makes.refl _ _⟩
    ?_ (fun _ _ _ _ h => h) ?_).2
  · rintro u q j hj ⟨hq, hmade⟩
    dsimp only at hq hmade ⊢
    have hpath : ways (Path.names (q.path j.directory)) := by
      rw [← hways, ProductTree.path, hq]
      exact ⟨j, hj, .inl rfl⟩
    exact ⟨hq, hmade.trans (hmakes u _ hpath)⟩
  · rintro u q k j hj ⟨hq, hmade⟩
    dsimp only at hq hmade ⊢
    have hpath : ways (Path.names (workDirectory scratch k j)) := by
      rw [← hways]
      exact ⟨j, hj, .inr ⟨k, rfl⟩⟩
    exact ⟨hq, hmade.trans (hmakes u _ hpath)⟩

theorem proper_prepare (ht : t.Proper) : (prepare base scratch index t p jobs).1.1.Proper := by
  refine prepare_keeps (P := fun s => s.1.Proper) ht (fun u q j _ h => ?_) (fun _ _ _ _ h => h)
    fun u q k j _ h => ?_
  · dsimp only at h ⊢
    exact proper_createDirAll h _
  · dsimp only at h ⊢
    exact proper_createDirAll h _

/-- What is recorded of jobs are their directories. -/
theorem products_prepare (hp : ∀ name ∈ p.names, IsComponent name)
    (hnames : ∀ j ∈ jobs, IsComponent j.directory) :
    (prepare base scratch index t p jobs).1.2.root = p.root ∧
      ∀ name ∈ (prepare base scratch index t p jobs).1.2.names, IsComponent name := by
  refine prepare_keeps (P := fun s => s.2.root = p.root ∧ ∀ name ∈ s.2.names, IsComponent name)
    ⟨rfl, hp⟩ (fun _ _ _ _ h => ⟨h.1, h.2⟩) (fun t q j hj h => ⟨h.1, fun name hname => ?_⟩)
    fun _ _ _ _ _ h => ⟨h.1, h.2⟩
  rw [ProductTree.names, ProductTree.names_recordProduct] at hname
  rcases ProductTree.mem_addName.1 hname with hname | rfl
  · exact h.2 name hname
  · exact hnames j hj

end BitcodeReplay.Replay

namespace BitcodeReplay.Pipeline

open FileTree Fixture Plan Replay

/-- The jobs of a run. -/
def Inputs.jobs (i : Inputs) (r : Request) (t : FileTree) : List Job :=
  Plan.jobs i.transcript i.cache (Archive.entryNames t r.archive)

/-- What making the scratch directory and preparing the jobs comes to. -/
def preparation (h : Host) (r : Request) (i : Inputs) (t : FileTree) :
    (FileTree × ProductTree) × Except WriteFailure (List ReadyJob) :=
  let made := (t.createDirAll h.scratch).1
  prepare h.base h.scratch 0 made (.start r.outputDir) (i.jobs r made)

/-- The tree in which the first compiler starts. -/
def prepared (h : Host) (r : Request) (i : Inputs) (t : FileTree) : FileTree :=
  (preparation h r i t).1.1

/-- The setting of a run, in the tree that it starts from: its directories have names, the paths to
the root and to the scratch directory lead through places out of bounds and no link stands within
when the first compiler starts, and what is done then to replay jobs is that compilers write within
bounds and that their bitcode is taken. -/
structure Admits (b : Bounds) (h : Host) (r : Request) (i : Inputs) (t : FileTree) : Prop where
  proper : t.Proper
  names : ∀ j ∈ i.jobs r (t.createDirAll h.scratch).1, Path.IsComponent j.directory
  fits : b.Fits (prepared h r i t) h.scratch r.outputDir
  replays : ∀ ready, (preparation h r i t).2 = .ok ready →
    b.Replays ready (prepared h r i t) (h.replay (prepared h r i t) ready).1

variable {b : Bounds} {h : Host} {r : Request} {i : Inputs} {t : FileTree} {l : Location}

/-! ### Before the first compiler -/

theorem makes_prepared (h : Host) (r : Request) (i : Inputs) (t : FileTree) :
    Makes (fun names => ∃ j ∈ i.jobs r (t.createDirAll h.scratch).1,
        names = Path.names (Path.join r.outputDir j.directory) ∨
          ∃ k, names = Path.names (workDirectory h.scratch k j))
      (t.createDirAll h.scratch).1 (prepared h r i t) := by
  unfold prepared preparation
  exact makes_prepare rfl

/-- What is made before that is a directory on the way to the root or to the scratch directory, or a
place below one of them. -/
theorem Admits.prepared_get? (hadmits : Admits b h r i t) (l : Location) :
    (prepared h r i t).get? l = t.get? l ∨ t.get? l = none ∧
      (prepared h r i t).get? l = some .dir ∧ (b.Covers l ∨
        ∃ path ∈ [h.scratch, r.outputDir], (prepared h r i t).IsOnWay (Path.names path) l) := by
  have hkept := hadmits.fits.kept
  have hscratched := makes_createDirAll t h.scratch
  have hprepared := makes_prepared h r i t
  rcases hprepared l with hsame | ⟨hnone, hdir, names, ⟨j, hj, hnames⟩, hway⟩
  · rw [hsame]
    rcases hscratched l with hsame' | ⟨hnone, hdir, _, rfl, hway⟩
    · exact .inl hsame'
    · exact .inr ⟨hnone, hdir, .inr ⟨h.scratch, by simp, hway.of_keepsWays hprepared.keepsWays⟩⟩
  · have hbefore : t.get? l = none := by
      rcases hscratched l with hsame' | ⟨hnone', -⟩
      · rw [← hsame', hnone]
      · exact hnone'
    have hc := hadmits.names j hj
    refine .inr ⟨hbefore, hdir, ?_⟩
    rcases hnames with hnames | ⟨k, hnames⟩
    · rw [hnames, Path.names_join _ hc] at hway
      rcases (hkept.toRoot hadmits.fits).isOnWay_below hkept.linkFree_root (by simpa using hc) hway
        with honWay | ⟨name, rest, rfl⟩
      · exact .inr ⟨r.outputDir, by simp, honWay⟩
      · exact .inl (b.covers_root name rest)
    · have hwork := Plan.isComponent_workName hc k
      rw [hnames, workDirectory, ← Plan.workName, Path.names_join _ hwork] at hway
      rcases (hkept.toScratch hadmits.fits).isOnWay_below hkept.linkFree_scratch
        (by simpa using hwork) hway with honWay | ⟨name, rest, rfl⟩
      · exact .inr ⟨h.scratch, by simp, honWay⟩
      · exact .inl (b.covers_scratch name rest)

/-! ### From the first compiler on -/

/-- The jobs are replayed and the product directories consolidated within bounds, and every product
is known by a name. -/
theorem Admits.build_kept (hadmits : Admits b h r i t) :
    b.Kept (prepared h r i t) (build h r i (t.createDirAll h.scratch).1).1 ∧
      ∀ report, (build h r i (t.createDirAll h.scratch).1).2 = .ok report →
        ∀ name ∈ report.products, Path.IsComponent name := by
  have hfits := hadmits.fits
  have hreplays := hadmits.replays
  have hproper : (prepared h r i t).Proper := proper_prepare (proper_createDirAll hadmits.proper _)
  obtain ⟨hroot, hproducts⟩ : (preparation h r i t).1.2.root = r.outputDir ∧
      ∀ name ∈ (preparation h r i t).1.2.names, Path.IsComponent name :=
    products_prepare (by simp [ProductTree.start, ProductTree.names]) hadmits.names
  rw [prepared] at *
  cases hprep : preparation h r i t with
  | mk state result =>
    obtain ⟨made, q⟩ := state
    have hprepare : prepare h.base h.scratch 0 (t.createDirAll h.scratch).1 (.start r.outputDir)
        (Plan.jobs i.transcript i.cache
          (Archive.entryNames (t.createDirAll h.scratch).1 r.archive)) = ((made, q), result) :=
      hprep
    rw [hprep] at hfits hreplays hproper hroot hproducts
    rw [build, runJobs, hprepare]
    cases result with
    | error e => exact ⟨hfits.kept, by simp⟩
    | ok ready =>
      have hplaced : Bounds.ArePlaced h.scratch r.outputDir ready :=
        Bounds.arePlaced_of_prepare hadmits.names hprepare
      obtain ⟨hreplayed, hproper'⟩ := (hreplays ready rfl).kept hfits hproper hplaced
      have hconsolidated : b.Kept made (ProductTree.consolidate (h.replay made ready).1 q i.graph
            (Archive.embeddedFrameworks (h.replay made ready).1 r.archive)).1.1 ∧
          ∀ name ∈ (ProductTree.consolidate (h.replay made ready).1 q i.graph
            (Archive.embeddedFrameworks (h.replay made ready).1 r.archive)).1.2.names,
              Path.IsComponent name :=
        ProductTree.kept_consolidate hreplayed hproper' hfits hroot hproducts
      simp only
      split
      next after q' e heq =>
        rw [heq] at hconsolidated
        exact ⟨hconsolidated.1, by simp⟩
      next after q' consolidation heq =>
        rw [heq] at hconsolidated
        refine ⟨hconsolidated.1, fun report hreport => ?_⟩
        cases hreport
        exact hconsolidated.2

/-! ### A whole run -/

/-- A directory that was missing on the way to the root or to the scratch directory. -/
def WasMissing (h : Host) (r : Request) (i : Inputs) (t : FileTree) (l : Location) : Prop :=
  t.get? l = none ∧
    ∃ path ∈ [h.scratch, r.outputDir], (prepared h r i t).IsOnWay (Path.names path) l

/-- What stands out of bounds and not in the scratch directory is as before, but for directories
that were missing. -/
theorem Admits.withScratch_get? (hadmits : Admits b h r i t)
    (hchange : (withScratch h t (build h r i)).1.get? l ≠ t.get? l) :
    b.Covers l ∨ isWithin l b.scratch = true ∨
      (WasMissing h r i t l ∧ (withScratch h t (build h r i)).1.get? l = some .dir) := by
  obtain ⟨hkept, -⟩ := hadmits.build_kept
  by_cases hcovers : b.Covers l
  · exact .inl hcovers
  refine .inr ?_
  have hprepared : ∀ e, (prepared h r i t).get? l = e → e ≠ t.get? l →
      WasMissing h r i t l ∧ e = some .dir := by
    rintro e rfl hne
    rcases hadmits.prepared_get? l with hsame | ⟨hnone, hdir, hcover | hway⟩
    · exact absurd hsame hne
    · exact absurd hcover hcovers
    · exact ⟨⟨hnone, hway⟩, hdir⟩
  have hmakes := makes_createDirAll t h.scratch
  have hways := (makes_prepared h r i t).keepsWays
  rw [withScratch] at hchange ⊢
  cases hscratch : t.createDirAll h.scratch with
  | mk made result =>
    rw [hscratch] at hchange hkept hmakes hways
    cases result with
    | error e =>
      rcases hmakes l with hsame | ⟨hnone, hdir, _, rfl, hway⟩
      · exact absurd hsame hchange
      · exact .inr ⟨⟨hnone, h.scratch, List.mem_cons_self, hway.of_keepsWays hways⟩, hdir⟩
    | ok _ =>
      have hafter : (build h r i made).1.get? l = (prepared h r i t).get? l := hkept.agree l hcovers
      simp only at hchange ⊢
      split at hchange
      next loc hfind =>
        obtain ⟨left, hlead⟩ := leadsTo_of_find? hfind
        obtain rfl := (hkept.toScratch hadmits.fits).leads left loc hlead
        by_cases hwithin : isWithin l b.scratch = true
        · exact .inl hwithin
        · have hnil : l ≠ [] := by
            rintro rfl
            exact hchange rfl
          rw [get?_erase _ hnil, if_neg hwithin] at hchange ⊢
          exact .inr (hprepared _ hafter.symm hchange)
      next => exact .inr (hprepared _ hafter.symm hchange)

theorem run_cases (h : Host) (r : Request) (t : FileTree) :
    (∃ e, run h r t = (t, .error e)) ∨
      ∃ i dumped, Inputs.load t h.input r = .ok i ∧ i.dump t r = .ok dumped ∧
        run h r t = if r.dryRun then (dumped, .ok (i.report r))
          else withScratch h (h.repair dumped) (build h r i) := by
  cases hload : Inputs.load t h.input r with
  | error e => exact .inl ⟨e, run_of_load_error hload⟩
  | ok i =>
    cases hdump : i.dump t r with
    | error e => exact .inl ⟨e, run_of_dump_error hload hdump⟩
    | ok dumped =>
      refine .inr ⟨i, dumped, rfl, hdump, ?_⟩
      rw [run, hload]
      simp only [hdump]

theorem withScratch_snd_eq_ok {α : Type} {act : FileTree → FileTree × Except Failure α} {a : α}
    (hresult : (withScratch h t act).2 = .ok a) : (act (t.createDirAll h.scratch).1).2 = .ok a := by
  cases hmade : t.createDirAll h.scratch with
  | mk made result =>
    cases result with
    | error e => simp [withScratch, hmade] at hresult
    | ok _ => rwa [withScratch_snd hmade] at hresult

/-- Whatever a run is asked for: if it is in a setting in which it is confined, its products have
names that stand right below the root, the directories of its jobs are there if they are anywhere,
and a place changes only if the graph is written there, if the repair changes it, if it is within
bounds or in the scratch directory, or if a directory was missing there on the way to one of the
two. -/
theorem run_stays_within_bounds (h : Host) (r : Request) (t : FileTree) (b : Bounds)
    (hsetting : r.dryRun = false → ∀ i dumped, Inputs.load t h.input r = .ok i →
      i.dump t r = .ok dumped → Admits b h r i (h.repair dumped)) :
    (∀ report, (run h r t).2 = .ok report → ∀ name ∈ report.products, Path.IsComponent name ∧
      Path.names (Path.join r.outputDir name) = Path.names r.outputDir ++ [name]) ∧
    (r.dryRun = false → ∀ i dumped, Inputs.load t h.input r = .ok i → i.dump t r = .ok dumped →
      ∀ j ∈ i.jobs r ((h.repair dumped).createDirAll h.scratch).1,
        ∀ left l, (prepared h r i (h.repair dumped)).LeadsTo (Path.join r.outputDir j.directory)
          left l → l = b.root ++ [j.directory]) ∧
    ∀ l, (run h r t).1.get? l ≠ t.get? l → ∃ i dumped, Inputs.load t h.input r = .ok i ∧
      i.dump t r = .ok dumped ∧
      ((r.dumpGraph = true ∧ t.TakesFile r.graphPath l) ∨ r.dryRun = false ∧
        ((h.repair dumped).get? l ≠ dumped.get? l ∨ b.Covers l ∨ isWithin l b.scratch = true ∨
          (WasMissing h r i (h.repair dumped) l ∧ (run h r t).1.get? l = some .dir))) := by
  refine ⟨fun report hreport => ?_, fun hreal i dumped hload hdump j hj left l hlead => ?_,
    fun l hchange => ?_⟩
  · suffices hnames : ∀ name ∈ report.products, Path.IsComponent name from
      fun name hname => ⟨hnames name hname, Path.names_join _ (hnames name hname)⟩
    rcases run_cases h r t with ⟨e, hrun⟩ | ⟨i, dumped, hload, hdump, hrun⟩
    · rw [hrun] at hreport
      cases hreport
    · rw [hrun] at hreport
      split at hreport
      · cases hreport
        simp [Inputs.report]
      · next hreal =>
        have hadmits := hsetting (Bool.eq_false_iff.2 hreal) i dumped hload hdump
        exact hadmits.build_kept.2 report (withScratch_snd_eq_ok hreport)
  · have hadmits := hsetting hreal i dumped hload hdump
    exact (hadmits.fits.kept.leads_root hadmits.fits (hadmits.names j hj)).leads left l hlead
  · rcases run_cases h r t with ⟨e, hrun⟩ | ⟨i, dumped, hload, hdump, hrun⟩
    · rw [hrun] at hchange
      exact absurd rfl hchange
    · refine ⟨i, dumped, hload, hdump, ?_⟩
      by_cases hgraph : dumped.get? l = t.get? l
      · rw [hrun] at hchange ⊢
        cases hdry : r.dryRun with
        | true =>
          rw [if_pos hdry] at hchange
          exact absurd hgraph hchange
        | false =>
          refine .inr ⟨rfl, ?_⟩
          rw [if_neg (by simp [hdry])] at hchange
          rw [if_neg Bool.false_ne_true]
          by_cases hrepair : (h.repair dumped).get? l = dumped.get? l
          · rw [← hgraph, ← hrepair] at hchange
            exact .inr ((hsetting hdry i dumped hload hdump).withScratch_get? hchange)
          · exact .inl hrepair
      · exact .inl ((dumps_of_dump hdump).frame l hgraph)

/-! ### A run of two jobs -/

/-- An output file map that names a file out of bounds. -/
def mapText : String := "\x7b\"a.swift\":\x7b\"llvm-bc\":\"/y/u.bc\"\x7d\x7d"

/-- A snapshot without targets, a scratch directory, and two directories for products. In one of
these stands a link. -/
def sampleTree : FileTree :=
  ⟨[(["p"], .dir), (["p", "workspace"], .dir),
    (["p", "workspace", "WORKSPACE@v11_hash=0000-json"],
      .file Snapshot.workspace.pretty.toUTF8 false),
    (["p", "project"], .dir),
    (["p", "project", "PROJECT@v11_hash=0000-json"],
      .file (snapshotOf [] []).project.pretty.toUTF8 false),
    (["s"], .dir), (["o"], .dir), (["l"], .dir), (["l", "A"], .link "/x"), (["x"], .dir),
    (["y"], .dir), (["y", "u.bc"], .file .empty false),
    (["m.json"], .file mapText.toUTF8 false)]⟩

theorem proper_sample : sampleTree.Proper := proper_of_entries (by decide) (by decide) (by decide)

theorem eq_of_link_sample {l : Location} {target : String}
    (h : sampleTree.get? l = some (.link target)) : l = ["l", "A"] := by
  have hmem := mem_entries_of_get? (ne_nil_of_get? h (by simp)) h
  simp [sampleTree] at hmem
  exact hmem.1

theorem stores_sample : Stores sampleTree "/p" ["p"] (snapshotOf [] []).objects := by
  have hleads : ∀ path names, Path.names path = names → sampleTree.Stands [] names →
      ∃ left, sampleTree.LeadsTo path left names :=
    fun path names hnames h => ⟨_, by rw [LeadsTo, hnames]; exact h.passage_eq _⟩
  refine ⟨proper_sample, hleads _ _ (by decide) (by decide), fun name e he => ?_,
    fun kind name hne => ?_, ?_⟩
  · have hmem := mem_entries_of_get? (by simp) he
    simp [sampleTree] at hmem
    rcases hmem with ⟨-, h⟩ | ⟨-, h⟩ <;> exact h
  · obtain ⟨e, he⟩ := Option.ne_none_iff_exists'.1 hne
    have hmem := mem_entries_of_get? (by simp) he
    simp [sampleTree] at hmem
    rcases hmem with ⟨⟨rfl, rfl⟩, -⟩ | ⟨⟨rfl, rfl⟩, -⟩
    · exact ⟨_, List.mem_cons_self, rfl, by decide⟩
    · exact ⟨_, List.mem_cons_of_mem _ List.mem_cons_self, rfl, by decide⟩
  · have hobjects : (snapshotOf [] []).objects =
        [("workspace", "WORKSPACE@v11_hash=0000", Snapshot.workspace),
          ("project", Snapshot.projectSignature, (snapshotOf [] []).project)] := rfl
    rw [hobjects, List.forall_mem_cons, List.forall_mem_singleton]
    refine ⟨⟨hleads _ _ (by decide) (by decide), ?_⟩, hleads _ _ (by decide) (by decide), ?_⟩
    · exact @resolve_of_stands _ ["p", "workspace"] _ _ "WORKSPACE@v11_hash=0000-json"
        (by decide) (by decide) (by decide) (by decide) (by decide)
        fun _ _ h => absurd (eq_of_link_sample h) (by decide)
    · exact @resolve_of_stands _ ["p", "project"] _ _ "PROJECT@v11_hash=0000-json"
        (by decide) (by decide) (by decide) (by decide) (by decide)
        fun _ _ h => absurd (eq_of_link_sample h) (by decide)

def sampleCache : Pif.Cache := .assemble
  ⟨"WORKSPACE", "Fixture", "/src/Fixture.xcworkspace", [Snapshot.projectSignature]⟩
  [projectOf [] []] []

theorem load_sample {r : Request} {log : String} {transcript : Transcript}
    (hlog : r.log = Transcript.standardInput) (hcache : r.pifCache = "/p")
    (h : Transcript.ofLines (Text.lines log) = .ok transcript) :
    Inputs.load sampleTree log.toUTF8 r = .ok ⟨transcript, sampleCache⟩ := by
  have hload : Pif.Cache.load sampleTree "/p" = .ok sampleCache := stores_sample.load
  have hread : Transcript.load sampleTree log.toUTF8 Transcript.standardInput = .ok transcript := by
    simp only [Transcript.load, Transcript.logText, if_true, Utf8.decode?_toUTF8, h]
    rfl
  rw [Inputs.load, hlog, hcache, hread, hload]
  rfl

/-- The log comes from the standard input, and there is no archive. -/
def sampleRequest (output : String) : Request := ⟨"-", "/a", "/p", some output, false, false⟩

theorem find?_products {t : FileTree} (h : t.get? ["a"] = none) :
    t.find? (Archive.productsPath "/a") = none := by
  have hjoin : Archive.productsPath "/a" = "/a/Products" := by decide
  have hsteps : steps "/a/Products" = ["a", "Products"] := by decide
  have hresolve : t.resolve true "/a/Products" = .error .notFound := by
    rw [resolve_of_isResolvable (by decide), hsteps]
    simp +decide [walk, h]
  rw [hjoin, find?, hresolve]

theorem entryNames_sample : Archive.entryNames sampleTree "/a" = [] := by
  rw [Archive.entryNames, listedBelow, entriesBelow, find?_products (by decide)]
  rfl

theorem createDirAll_scratch_sample : sampleTree.createDirAll "/s" = (sampleTree, .ok ()) :=
  HasDirectory.createDirAll_eq (by decide)

def sampleHost (launch : Execution.Launcher) (log : String) : Host :=
  ⟨replayJobs launch, "/", "/s", log.toUTF8, id⟩

/-- A compiler that leaves a file in its working directory. -/
def leavingBitcode : Execution.Launcher := fun _ _ directory t =>
  match t.writeFile (Path.join directory "u.bc") .empty with
  | .ok written => (written, .ok ⟨some 0, .empty⟩)
  | .error _ => (t, .ok ⟨some 1, .empty⟩)

def sampleBounds : Bounds := ⟨["o"], ["s"], fun l => ∃ work, l = ["s", work, "u.bc"]⟩

def pairLog : String :=
  "CompileC a.o /s/a.m (in target 'A' from project 'P')\n    /bin/clang -c a.m\n" ++
  "CompileC b.o /s/b.m (in target 'B.app' from project 'P')\n    /bin/clang -c b.m\n"

def pairInputs : Inputs :=
  ⟨⟨[("A", [⟨"/bin/clang -c a.m", .clang⟩]), ("B.app", [⟨"/bin/clang -c b.m", .clang⟩])], 0⟩,
    sampleCache⟩

theorem load_pair : Inputs.load sampleTree pairLog.toUTF8 (sampleRequest "/o") = .ok pairInputs :=
  load_sample rfl rfl (by decide +kernel)

theorem works_leavingBitcode {now made : FileTree} {root work : String}
    (hkept : sampleBounds.Kept made now) (hfits : sampleBounds.Fits made "/s" root)
    (hc : Path.IsComponent work) (program : String) (arguments : List String) :
    sampleBounds.Works now
      (leavingBitcode program arguments (Path.join "/s" work) now).1 := by
  have hrefl : sampleBounds.Works now now :=
    ⟨.refl _ _, fun l target hl => hkept.noLinks l target (.inr (.inr hl)), fun hproper => hproper⟩
  rw [leavingBitcode]
  cases hwrite : now.writeFile (Path.join (Path.join "/s" work) "u.bc") .empty with
  | error e => exact hrefl
  | ok written =>
    rcases writeFile_eq_ok hwrite with ⟨loc, x, htakes, rfl⟩ | ⟨-, rfl⟩
    · have hnames : Path.names (Path.join (Path.join "/s" work) "u.bc") =
          Path.names "/s" ++ [work, "u.bc"] := by
        rw [Path.names_join _ (by decide), Path.names_join _ hc, List.append_assoc]
        rfl
      have hbelow : ∀ name ∈ [work, "u.bc"], Path.IsComponent name := by
        simpa [hc] using (by decide : Path.IsComponent "u.bc")
      have hloc : loc = ["s", work, "u.bc"] :=
        (hkept.toScratch hfits).takesFile_below hkept.linkFree_scratch hnames (by simp) hbelow htakes
      have hput := fun l => get?_put now l loc (.file .empty x) htakes.get?.1
      refine ⟨fun l hl => ?_, fun l target hl => ?_, fun hproper => hproper.put_file htakes⟩
      · rw [hput, if_neg fun heq => hl ⟨work, heq.trans hloc⟩]
      · rw [hput]
        split
        · simp
        · exact hrefl.noLinks l target hl
    · exact hrefl

/-- Two jobs, of which the second has a name that is shortened afterwards. -/
theorem jobs_pair : pairInputs.jobs (sampleRequest "/o") sampleTree =
    [⟨"A", none, [⟨"/bin/clang -c a.m", .clang⟩]⟩,
      ⟨"B.app", none, [⟨"/bin/clang -c b.m", .clang⟩]⟩] := by
  rw [Inputs.jobs, sampleRequest, entryNames_sample]
  decide

theorem fits_prepared (launch : Execution.Launcher) (log : String) (i : Inputs) :
    sampleBounds.Fits (prepared (sampleHost launch log) (sampleRequest "/o") i sampleTree)
      "/s" "/o" := by
  have hmakes := makes_prepared (sampleHost launch log) (sampleRequest "/o") i sampleTree
  have hscratch : (sampleTree.createDirAll (sampleHost launch log).scratch).1 = sampleTree :=
    congrArg Prod.fst createDirAll_scratch_sample
  rw [hscratch] at hmakes
  generalize prepared _ _ _ _ = made at hmakes ⊢
  have hlink : ∀ l target, made.get? l = some (.link target) → l = ["l", "A"] := by
    intro l target hl
    rcases hmakes l with hsame | ⟨-, hdir, -⟩
    · exact eq_of_link_sample (hsame ▸ hl)
    · rw [hdir] at hl
      cases hl
  have hleads : ∀ top ∈ ["s", "o"],
      made.LeadsThrough (fun l => ¬ sampleBounds.Covers l) (Path.join "/" top) [top] := by
    intro top htop
    have hc : Path.IsComponent top := by
      have hall : ∀ name ∈ ["s", "o"], Path.IsComponent name := by decide
      exact hall top htop
    refine (leadsThrough_root made _).join hc ?_ fun target hl => ?_
    · simp [Bounds.Covers, sampleBounds]
    · cases hlink _ _ hl
  refine ⟨hleads "s" (by simp), hleads "o" (by simp), fun l target hl hget => ?_⟩
  rw [hlink l target hget] at hl
  simp [Bounds.Covers, sampleBounds] at hl

theorem admits_pair : Admits sampleBounds (sampleHost leavingBitcode pairLog) (sampleRequest "/o")
    pairInputs sampleTree := by
  have hfits := fits_prepared leavingBitcode pairLog pairInputs
  have hscratch : (sampleTree.createDirAll (sampleHost leavingBitcode pairLog).scratch).1 =
    sampleTree := congrArg Prod.fst createDirAll_scratch_sample
  have hnames : ∀ j ∈ pairInputs.jobs (sampleRequest "/o") sampleTree,
      Path.IsComponent j.directory := by
    rw [jobs_pair]
    decide
  have hclang : ∀ j ∈ pairInputs.jobs (sampleRequest "/o") sampleTree, ∀ c ∈ j.commands,
      c.compiler = .clang := by
    rw [jobs_pair]
    decide
  refine ⟨proper_sample, hscratch.symm ▸ hnames, hfits, fun ready hready => ?_⟩
  obtain ⟨after, hprepare⟩ : ∃ after, prepare "/" "/s" 0 sampleTree (.start "/o")
      (pairInputs.jobs (sampleRequest "/o") sampleTree) = (after, .ok ready) := by
    rw [preparation, hscratch] at hready
    exact ⟨_, Prod.ext rfl hready⟩
  have hmade : (prepared (sampleHost leavingBitcode pairLog) (sampleRequest "/o") pairInputs
      sampleTree).Proper := proper_prepare (proper_createDirAll proper_sample _)
  have hplaced : Bounds.ArePlaced "/s" "/o" ready := Bounds.arePlaced_of_prepare hnames hprepare
  refine Bounds.Replays.replayJobs .start ⟨fun now hnow r hr c hc i hi => ?_,
    fun now hnow r hr c hc i hi map paths path hswift => ?_⟩ (List.Subset.refl _)
  · obtain ⟨work, directory, hwork, -, hsite, -⟩ := hplaced r hr
    rw [hsite]
    exact works_leavingBitcode (hnow.kept hfits hmade hplaced).1 hfits hwork _ _
  · obtain ⟨k, hk⟩ := List.getElem?_of_mem hr
    have hjob := (isPlaced_of_prepare hprepare hk).1
    rw [Invocation.compiler_of_ofCaptured hi, hclang _ (List.mem_of_getElem? hjob) c hc] at hswift
    cases hswift

/-- A run with compilers that leave a file in their working directory. -/
theorem run_stays_within_bounds_pair :
    Inputs.load sampleTree pairLog.toUTF8 (sampleRequest "/o") = .ok pairInputs ∧
    Admits sampleBounds (sampleHost leavingBitcode pairLog) (sampleRequest "/o") pairInputs
      sampleTree ∧
    (∀ report, (run (sampleHost leavingBitcode pairLog) (sampleRequest "/o") sampleTree).2 =
      .ok report → ∀ name ∈ report.products, Path.names (Path.join "/o" name) = ["o", name]) ∧
    ∀ l, (run (sampleHost leavingBitcode pairLog) (sampleRequest "/o") sampleTree).1.get? l ≠
      sampleTree.get? l → isWithin l ["o"] = true ∨ isWithin l ["s"] = true := by
  have hsetting : ∀ i dumped, Inputs.load sampleTree pairLog.toUTF8 (sampleRequest "/o") = .ok i →
      i.dump sampleTree (sampleRequest "/o") = .ok dumped →
        Admits sampleBounds (sampleHost leavingBitcode pairLog) (sampleRequest "/o") i dumped := by
    intro i dumped hload hdump
    rw [load_pair] at hload
    cases hload
    cases hdump
    exact admits_pair
  obtain ⟨hproducts, -, hchanges⟩ := run_stays_within_bounds (sampleHost leavingBitcode pairLog)
    (sampleRequest "/o") sampleTree sampleBounds fun _ => hsetting
  refine ⟨load_pair, admits_pair, fun report hreport name hname => ?_, fun l hchange => ?_⟩
  · exact (hproducts report hreport name hname).2
  · obtain ⟨i, dumped, hload, hdump, ⟨hgraph, -⟩ | ⟨-, hcase⟩⟩ := hchanges l hchange
    · cases hgraph
    · have hways := (makes_createDirAll dumped "/s").keepsWays.trans
        (makes_prepared (sampleHost leavingBitcode pairLog) (sampleRequest "/o") i dumped).keepsWays
      cases hdump
      rcases hcase with hrepair | hcover | hscratch | ⟨⟨hnone, path, hpath, hway⟩, -⟩
      · exact absurd rfl hrepair
      · rcases hcover with ⟨name, rest, rfl⟩ | ⟨name, rest, rfl⟩ | ⟨work, rfl⟩
        · exact .inl (isWithin_append _ _)
        · exact .inr (isWithin_append _ _)
        · exact .inr (isWithin_append ["s"] _)
      · exact .inr hscratch
      · -- the two directories are there from the start
        have hstands : ∀ path ∈ ["/s", "/o"], sampleTree.Stands [] (Path.names path) := by decide
        have hdir := LeadsTo.get?_of_isOnWay ((hstands path hpath).passage_eq maxLinks)
          proper_sample.wellFormed hways hway
        exact absurd (hnone.symm.trans hdir) (by simp)

/-! ### Runs that change other places -/

/-- A run in which nothing is merged and no name is shortened. -/
theorem run_sample {launch : Execution.Launcher} {log output : String} {i : Inputs}
    {made replayed : FileTree} {p : ProductTree} {ready : List ReadyJob} {tally : Tally}
    (hload : Inputs.load sampleTree log.toUTF8 (sampleRequest output) = .ok i)
    (hprepare : prepare "/" "/s" 0 sampleTree (.start output)
      (Plan.jobs i.transcript i.cache []) = ((made, p), .ok ready))
    (hreplay : replayJobs launch made ready = (replayed, tally))
    (hroots : ((Plan.roots i.transcript i.cache).filterMap fun root => root.2.map (·.guid)) = [])
    (hsteps : p.steps .empty [] = []) (hnames : p.shortenings = [])
    (harchive : replayed.get? ["a"] = none) (hscratch : replayed.Stands [] ["s"]) :
    run (sampleHost launch log) (sampleRequest output) sampleTree =
      (replayed.erase ["s"], .ok { i.report (sampleRequest output) with
        tally := tally, consolidation := some ⟨0, 0, 0⟩, products := p.names }) := by
  have hembedded : Archive.embeddedFrameworks replayed "/a" = [] := by
    rw [Archive.embeddedFrameworks, find?_products harchive]
  have hconsolidate : ProductTree.consolidate replayed p .empty [] =
      ((replayed, p), .ok ⟨0, 0, 0⟩) :=
    ProductTree.consolidate_of_no_steps hsteps (by rw [hnames]; rfl)
  have hbuild : build (sampleHost launch log) (sampleRequest output) i sampleTree =
      (replayed, .ok { i.report (sampleRequest output) with
        tally := tally, consolidation := some ⟨0, 0, 0⟩, products := p.names }) := by
    have hgraph : i.graph = .empty := by rw [Inputs.graph, hroots, Graph.build_nil]
    simp only [build, sampleHost, sampleRequest, Request.outputDir, Option.getD_some,
      entryNames_sample, runJobs, hprepare, hreplay, hembedded, hgraph, hconsolidate]
  have hnames : Path.names "/s" = ["s"] := by decide
  have hfind : replayed.find? "/s" = some (["s"], .dir) := by
    rw [← hnames] at hscratch ⊢
    exact find?_of_stands (by decide) hscratch
  have hrun : run (sampleHost launch log) (sampleRequest output) sampleTree =
      withScratch (sampleHost launch log) sampleTree
        (build (sampleHost launch log) (sampleRequest output) i) := by
    have hdump : i.dump sampleTree (sampleRequest output) = .ok sampleTree := rfl
    have hinput : (sampleHost launch log).input = log.toUTF8 := rfl
    rw [run, hinput, hload]
    simp only [hdump]
    rfl
  have hpath : (sampleHost launch log).scratch = "/s" := rfl
  rw [hrun, withScratch, hpath, createDirAll_scratch_sample]
  simp only [hbuild, hfind]

/-- The name of the target leads out of the root. -/
def climbingLog : String :=
  "CompileC a.o /s/a.m (in target '../Evil/..' from project 'P')\n    /bin/clang -c a.m\n"

def climbingJob : Job := ⟨"../Evil/..", none, [⟨"/bin/clang -c a.m", .clang⟩]⟩

def climbingInputs : Inputs := ⟨⟨[("../Evil/..", climbingJob.commands)], 0⟩, sampleCache⟩

theorem load_climbing : Inputs.load sampleTree climbingLog.toUTF8 (sampleRequest "/new/o") =
    .ok climbingInputs :=
  load_sample rfl rfl (by decide +kernel)

def climbingReady : ReadyJob := ⟨climbingJob, "/", "/s/0-../Evil/..", "/new/o/../Evil/.."⟩

/-- What has been made for the product, out of the root. -/
def productTree : FileTree :=
  ((sampleTree.put ["new"] .dir).put ["new", "o"] .dir).put ["new", "Evil"] .dir

/-- What has been made for the compiler as well. -/
def climbingTree : FileTree := (productTree.put ["s", "0-.."] .dir).put ["s", "0-..", "Evil"] .dir

theorem createDirAll_product : sampleTree.createDirAll "/new/o/../Evil/.." =
    (productTree, .ok ()) := by
  have hnames : Path.names "/new/o/../Evil/.." = ["new", "o", "..", "Evil", ".."] := by decide
  have hdot : Path.endsInDot "/new/o/../Evil/.." = false := by decide
  have hnew : sampleTree.get? ["new"] = none := by decide
  have hroot : sampleTree.get? ["new", "o"] = none := by decide
  have hproduct : sampleTree.get? ["new", "Evil"] = none := by decide
  rw [createDirAll, hnames, hdot]
  simp +decide [makeDirs, makeDir, hasDir, walk, bind, Except.bind, pure, Except.pure, throw,
    throwThe, MonadExceptOf.throw, hnew, hroot, hproduct, get?_put, productTree]

theorem createDirAll_climbing : productTree.createDirAll "/s/0-../Evil/.." =
    (climbingTree, .ok ()) := by
  have hnames : Path.names "/s/0-../Evil/.." = ["s", "0-..", "Evil", ".."] := by decide
  have hdot : Path.endsInDot "/s/0-../Evil/.." = false := by decide
  have hdir : productTree.get? ["s"] = some .dir := by decide
  have habove : productTree.get? ["s", "0-.."] = none := by decide
  have hwork : productTree.get? ["s", "0-..", "Evil"] = none := by decide
  rw [createDirAll, hnames, hdot]
  simp +decide [makeDirs, makeDir, hasDir, walk, bind, Except.bind, pure, Except.pure, throw,
    throwThe, MonadExceptOf.throw, hdir, habove, hwork, get?_put, climbingTree]

theorem prepare_climbing : prepare "/" "/s" 0 sampleTree (.start "/new/o") [climbingJob] =
    ((climbingTree, ⟨"/new/o", [("../Evil/..", none)]⟩), .ok [climbingReady]) := by
  have hwork : workDirectory "/s" 0 climbingJob = "/s/0-../Evil/.." := by decide
  have hpath : Path.join "/new/o" "../Evil/.." = "/new/o/../Evil/.." := by decide
  have hdirectory : climbingJob.directory = "../Evil/.." := rfl
  have hguid : climbingJob.guid = none := rfl
  simp [prepare, ProductTree.ensure, ProductTree.path, ProductTree.start, hwork, hpath, hdirectory,
    hguid, createDirAll_product, createDirAll_climbing, ProductTree.recordProduct, climbingReady]

/-- No compiler is there. -/
def absent : Execution.Launcher := fun _ _ _ t => (t, .error .notFound)

theorem replayJobs_absent : replayJobs absent climbingTree [climbingReady] =
    (climbingTree, ⟨1, 1, 0⟩) := by
  have hi : Invocation.ofCaptured ⟨"/bin/clang -c a.m", .clang⟩ =
      .ok ⟨"/bin/clang", ["-c", "a.m", "-save-temps=cwd"], .clang, none⟩ := by decide
  simp [replayJobs, replayCommands, tallyCommand, replayCommand, compile, hi, absent, climbingReady,
    climbingJob, Tally.one, Tally.add, Tally.zero]

/-- The product directory of the target is the link. -/
def mappedLog : String :=
  "SwiftDriver A (in target 'A' from project 'P')\n" ++
  "    /bin/swiftc a.swift -output-file-map /m.json\n"

def mappedJob : Job := ⟨"A", none, [⟨"/bin/swiftc a.swift -output-file-map /m.json", .swiftc⟩]⟩

def mappedInputs : Inputs := ⟨⟨[("A", mappedJob.commands)], 0⟩, sampleCache⟩

theorem load_mapped : Inputs.load sampleTree mappedLog.toUTF8 (sampleRequest "/l") =
    .ok mappedInputs :=
  load_sample rfl rfl (by decide +kernel)

def mappedInvocation : Invocation :=
  ⟨"/bin/swiftc", ["a.swift", "-output-file-map", "/m.json", "-emit-bc"], .swiftc, some "/m.json"⟩

def mappedReady : ReadyJob := ⟨mappedJob, "/", "/s/0-A", "/l/A"⟩

def mappedTree : FileTree := sampleTree.put ["s", "0-A"] .dir

def movedTree : FileTree := mappedTree.relocate ["y", "u.bc"] ["x", "u.bc"]

theorem createDirAll_link : sampleTree.createDirAll "/l/A" = (sampleTree, .ok ()) := by
  have hnames : Path.names "/l/A" = ["l", "A"] := by decide
  have hsteps : steps "/x" = ["x"] := by decide
  have hdot : Path.endsInDot "/l/A" = false := by decide
  have hdir : sampleTree.get? ["l"] = some .dir := by decide
  have hlink : sampleTree.get? ["l", "A"] = some (.link "/x") := by decide
  have htarget : sampleTree.get? ["x"] = some .dir := by decide
  rw [createDirAll, hnames, hdot]
  simp +decide [makeDirs, makeDir, hasDir, walk, bind, Except.bind, throw, throwThe,
    MonadExceptOf.throw, hdir, hlink, htarget, hsteps, maxLinks]

theorem createDirAll_mapped : sampleTree.createDirAll "/s/0-A" = (mappedTree, .ok ()) := by
  have hnames : Path.names "/s/0-A" = ["s", "0-A"] := by decide
  have hdot : Path.endsInDot "/s/0-A" = false := by decide
  have hdir : sampleTree.get? ["s"] = some .dir := by decide
  have hwork : sampleTree.get? ["s", "0-A"] = none := by decide
  rw [createDirAll, hnames, hdot]
  simp +decide [makeDirs, makeDir, walk, bind, Except.bind, pure, Except.pure, hdir, hwork,
    mappedTree]

theorem prepare_mapped : prepare "/" "/s" 0 sampleTree (.start "/l") [mappedJob] =
    ((mappedTree, ⟨"/l", [("A", none)]⟩), .ok [mappedReady]) := by
  have hwork : workDirectory "/s" 0 mappedJob = "/s/0-A" := by decide
  have hpath : Path.join "/l" "A" = "/l/A" := by decide
  have hdirectory : mappedJob.directory = "A" := rfl
  have hguid : mappedJob.guid = none := rfl
  simp [prepare, ProductTree.ensure, ProductTree.path, ProductTree.start, hwork, hpath, hdirectory,
    hguid, createDirAll_link, createDirAll_mapped, ProductTree.recordProduct, mappedReady]

/-- A compiler that writes nothing. -/
def silent : Execution.Launcher := fun _ _ _ t => (t, .ok ⟨some 0, .empty⟩)

theorem bitcodePaths_mapped : OutputFileMap.bitcodePaths mappedTree "/m.json" =
    .ok ["/y/u.bc"] := by
  have hfound : mappedTree.resolve true "/m.json" =
      .ok (.found ["m.json"] (.file mapText.toUTF8 false)) := by
    refine @resolve_of_stands _ [] _ _ "m.json" (by decide) (by decide) trivial (by decide)
      (by decide) fun _ target hlink => ?_
    have hfile : mappedTree.get? ["m.json"] = some (.file mapText.toUTF8 false) := rfl
    rw [List.nil_append, hfile] at hlink
    cases hlink
  have hread : mappedTree.readText "/m.json" = .ok mapText := by
    rw [readText, readFile_of_resolve hfound]
    simp only [bind, Except.bind, Utf8.decode?_toUTF8]
    rfl
  obtain ⟨sources, hsources, hpaths⟩ : ∃ sources, OutputFileMap.ofText mapText = .ok sources ∧
      sources.filterMap (·.2.bitcodePath?) = ["/y/u.bc"] := by
    have hoption : (OutputFileMap.ofText mapText).toOption =
        some [("a.swift", ⟨some "/y/u.bc", none⟩)] := by decide +kernel
    cases htext : OutputFileMap.ofText mapText with
    | error e => simp [htext, Except.toOption] at hoption
    | ok sources =>
      rw [htext] at hoption
      cases hoption
      exact ⟨_, rfl, rfl⟩
  rw [OutputFileMap.bitcodePaths, hread]
  simp only [hsources, hpaths]

theorem harvest_mapped : harvest mappedTree mappedReady.site mappedInvocation =
    (movedTree, .ok 1) := by
  have hproduced : produced mappedTree mappedReady.site mappedInvocation = .ok ["/y/u.bc"] := by
    have hmap : Path.join mappedReady.site.base "/m.json" = "/m.json" := by decide
    have hpath : ["/y/u.bc"].map (Path.join mappedReady.site.base) = ["/y/u.bc"] := by decide
    simp only [produced, mappedInvocation, Compiler.usesOutputFileMap, if_true, hmap,
      bitcodePaths_mapped, hpath]
  have hsource : mappedTree.resolve false "/y/u.bc" =
      .ok (.found ["y", "u.bc"] (.file .empty false)) :=
    @resolve_of_stands _ ["y"] _ _ "u.bc" (by decide) (by decide) (by decide) (by decide)
      (by decide) (by simp)
  have htarget : ∀ follow, mappedTree.resolve follow "/l/A/u.bc" = .ok (.free ["x", "u.bc"]) := by
    intro follow
    have hsteps : steps "/l/A/u.bc" = ["l", "A", "u.bc"] ∧ steps "/x" = ["x"] := by decide
    have hdir : mappedTree.get? ["l"] = some .dir := by decide
    have hlink : mappedTree.get? ["l", "A"] = some (.link "/x") := by decide
    have hgoal : mappedTree.get? ["x"] = some .dir := by decide
    have hfree : mappedTree.get? ["x", "u.bc"] = none := by decide
    rw [resolve_of_isResolvable (by decide), hsteps.1]
    simp +decide [walk, hdir, hlink, hgoal, hfree, hsteps.2, maxLinks]
  rw [harvest, hproduced]
  refine takeFiles_leaving (by decide) (by decide) (isFile_of_resolve_false hsource)
    (htarget true) ?_
  rw [@rename_leaf mappedTree _ _ _ _ "u.bc" ["x"] hsource (by simp) (htarget false) (by decide)]
  rfl

theorem replayJobs_silent : replayJobs silent mappedTree [mappedReady] =
    (movedTree, ⟨1, 0, 1⟩) := by
  have hi : Invocation.ofCaptured ⟨"/bin/swiftc a.swift -output-file-map /m.json", .swiftc⟩ =
      .ok mappedInvocation := by decide
  have hcommands : mappedReady.job.commands =
    [⟨"/bin/swiftc a.swift -output-file-map /m.json", .swiftc⟩] := rfl
  simp [replayJobs, replayCommands, tallyCommand, replayCommand, compile, hi, silent, hcommands,
    harvest_mapped, Execution.Outcome.succeeded, Tally.one, Tally.add, Tally.zero]

/-- Two runs that change places outside the root. The first makes the directory above the root and
that of a product beside the root, and knows the product by its path. The second takes a file from
where an output file map says to where the link of a product directory leads. -/
theorem run_changes_other_places :
    (∃ report, (run (sampleHost absent climbingLog) (sampleRequest "/new/o") sampleTree).2 =
      .ok report ∧ report.products = ["../Evil/.."]) ∧
    (∀ l ∈ [["new"], ["new", "Evil"]], sampleTree.get? l = none ∧
      (run (sampleHost absent climbingLog) (sampleRequest "/new/o") sampleTree).1.get? l =
        some .dir) ∧
    (sampleTree.get? ["x", "u.bc"] = none ∧
      (run (sampleHost silent mappedLog) (sampleRequest "/l") sampleTree).1.get? ["x", "u.bc"] =
        some (.file .empty false)) ∧
    sampleTree.get? ["y", "u.bc"] = some (.file .empty false) ∧
      (run (sampleHost silent mappedLog) (sampleRequest "/l") sampleTree).1.get? ["y", "u.bc"] =
        none := by
  have hclimbing : run (sampleHost absent climbingLog) (sampleRequest "/new/o") sampleTree =
      (climbingTree.erase ["s"], .ok { climbingInputs.report (sampleRequest "/new/o") with
        tally := ⟨1, 1, 0⟩, consolidation := some ⟨0, 0, 0⟩, products := ["../Evil/.."] }) := by
    refine run_sample load_climbing prepare_climbing replayJobs_absent ?_ ?_ ?_ ?_ ?_ <;> decide
  have hmapped : run (sampleHost silent mappedLog) (sampleRequest "/l") sampleTree =
      (movedTree.erase ["s"], .ok { mappedInputs.report (sampleRequest "/l") with
        tally := ⟨1, 0, 1⟩, consolidation := some ⟨0, 0, 0⟩, products := ["A"] }) := by
    refine run_sample load_mapped prepare_mapped replayJobs_silent ?_ ?_ ?_ ?_ ?_ <;> decide
  rw [hclimbing, hmapped]
  exact ⟨⟨_, rfl, rfl⟩, by decide, ⟨by decide, rfl⟩, rfl, by decide⟩

end BitcodeReplay.Pipeline
