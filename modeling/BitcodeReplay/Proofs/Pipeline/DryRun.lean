import BitcodeReplay.Pipeline
import BitcodeReplay.Proofs.FileTree.Edit
import BitcodeReplay.Proofs.Pif.Cache
import BitcodeReplay.Proofs.Transcript.Reading

/-!
What a run touches before it may still fail. A run whose inputs cannot be read touches nothing, a dry
run writes the graph at most, and a real run does what the dry run does before it goes on. What a run
does not ask for cannot matter to it: where no repair is made and no command is run, the result is the
same on every host that has the same standard input.
-/

namespace BitcodeReplay

/-! ### Inputs that have been read -/

theorem mapError_eq_ok_iff {ε ε' α : Type} {x : Except ε α} {f : ε → ε'} {a : α} :
    x.mapError f = .ok a ↔ x = .ok a := by
  cases x <;> simp [Except.mapError]

theorem Transcript.nodup_targetNames_of_load {t : FileTree} {input : ByteArray} {path : String}
    {transcript : Transcript} (h : load t input path = .ok transcript) :
    transcript.targetNames.Nodup := by
  rw [load] at h
  split at h
  · cases h
  · exact nodup_targetNames_of_ofLines (mapError_eq_ok_iff.1 h)

/-- A run knows each target of the log by one name and each target of the snapshot by one
identifier. -/
theorem Pipeline.Inputs.nodup_of_load {t : FileTree} {input : ByteArray} {r : Request} {i : Inputs}
    (h : Inputs.load t input r = .ok i) :
    i.transcript.targetNames.Nodup ∧ i.cache.guids.Nodup := by
  simp only [Inputs.load, bind, Except.bind] at h
  split at h
  · cases h
  next transcript htranscript =>
    split at h
    · cases h
    next cache hcache =>
      cases h
      exact ⟨Transcript.nodup_targetNames_of_load (mapError_eq_ok_iff.1 htranscript),
        Pif.Cache.nodup_guids_of_load (mapError_eq_ok_iff.1 hcache)⟩

namespace Pipeline

open FileTree

/-- A request for a run that stops after the graph. -/
def Request.dry (r : Request) : Request := { r with dryRun := true }

/-- A request for a run that goes on to the commands. -/
def Request.real (r : Request) : Request := { r with dryRun := false }

/-- What a report says about the inputs. -/
structure SameInputs (a b : Report) : Prop where
  buildCount : a.buildCount = b.buildCount
  transcriptTargets : a.transcriptTargets = b.transcriptTargets
  graphNodes : a.graphNodes = b.graphNodes
  graphDump : a.graphDump = b.graphDump

/-- The graph of some inputs has been written, if that was asked for, and nothing else has changed. A
graph that goes to a special entry is not kept. -/
structure Dumps (r : Request) (i : Inputs) (before after : FileTree) : Prop where
  idle : r.dumpGraph = false → after = before
  written : r.dumpGraph = true →
    before.writeFile r.graphPath i.graph.dot.toUTF8 = .ok after
  frame : ∀ l, after.get? l ≠ before.get? l → r.dumpGraph = true ∧ before.TakesFile r.graphPath l
  text : ∀ l, r.dumpGraph = true → before.TakesFile r.graphPath l →
    after.readFile r.graphPath = .ok i.graph.dot.toUTF8

variable {h h' : Host} {r : Request} {t dumped : FileTree} {i : Inputs}

theorem dumps_of_dump (hdump : i.dump t r = .ok dumped) : Dumps r i t dumped := by
  rw [Inputs.dump] at hdump
  cases hr : r.dumpGraph with
  | false =>
    rw [hr, if_neg Bool.false_ne_true] at hdump
    cases hdump
    exact ⟨fun _ => rfl, by simp [hr], fun l hl => absurd rfl hl, by simp [hr]⟩
  | true =>
    rw [hr, if_pos rfl] at hdump
    have hwrite : t.writeFile r.graphPath i.graph.dot.toUTF8 = .ok dumped := by
      cases hw : t.writeFile r.graphPath i.graph.dot.toUTF8 with
      | error e =>
        rw [hw] at hdump
        cases hdump
      | ok written =>
        rw [hw] at hdump
        cases hdump
        rfl
    refine ⟨by simp [hr], fun _ => hwrite, fun l hl => ⟨hr, ?_⟩, fun l _ htakes => ?_⟩
    · rcases writeFile_eq_ok hwrite with ⟨loc, x, htakes, rfl⟩ | ⟨-, rfl⟩
      · by_contra hnot
        rw [get?_put _ _ _ _ htakes.get?.1, if_neg] at hl
        · exact hl rfl
        · rintro rfl
          exact hnot htakes
      · exact absurd rfl hl
    · rcases writeFile_eq_ok hwrite with ⟨loc, x, hplace, rfl⟩ | ⟨⟨loc, kind, hspecial⟩, -⟩
      · exact hplace.readFile_put
      · rcases htakes with hp | ⟨b, x, hp⟩
        · rw [hp] at hspecial
          cases hspecial
        · rw [hp] at hspecial
          cases hspecial

/-! ### The beginning of a run -/

theorem load_of_log_error {input : ByteArray} {e : Transcript.LoadFailure}
    (hlog : Transcript.load t input r.log = .error e) :
    Inputs.load t input r = .error (.log r.log e) := by
  rw [Inputs.load, hlog]
  rfl

theorem load_of_snapshot_error {input : ByteArray} {transcript : Transcript} {e : Pif.LoadFailure}
    (hlog : Transcript.load t input r.log = .ok transcript)
    (hcache : Pif.Cache.load t r.pifCache = .error e) :
    Inputs.load t input r = .error (.snapshot r.pifCache e) := by
  rw [Inputs.load, hlog, hcache]
  rfl

theorem run_of_load_error {e : Failure} (hload : Inputs.load t h.input r = .error e) :
    run h r t = (t, .error e) := by
  rw [run, hload]

theorem run_of_dump_error {e : Failure} (hload : Inputs.load t h.input r = .ok i)
    (hdump : i.dump t r = .error e) : run h r t = (t, .error e) := by
  rw [run, hload]
  simp only [hdump]

theorem run_dry_eq (hload : Inputs.load t h.input r = .ok i) (hdump : i.dump t r = .ok dumped) :
    run h r.dry t = (dumped, .ok (i.report r)) := by
  have hload' : Inputs.load t h.input r.dry = .ok i := hload
  have hdump' : i.dump t r.dry = .ok dumped := hdump
  rw [run, hload']
  simp only [hdump']
  rfl

/-- A real run goes on from the tree that the dry run leaves. -/
theorem run_real_eq (hload : Inputs.load t h.input r = .ok i) (hdump : i.dump t r = .ok dumped) :
    run h r.real t = withScratch h (h.repair dumped) (build h r i) := by
  have hload' : Inputs.load t h.input r.real = .ok i := hload
  have hdump' : i.dump t r.real = .ok dumped := hdump
  rw [run, hload']
  simp only [hdump']
  rfl

/-- A dry run fails before the graph is written, or it succeeds. -/
theorem run_dry_cases (h : Host) (r : Request) (t : FileTree) :
    (∃ e, ∀ h' : Host, h'.input = h.input →
      run h' r.dry t = (t, .error e) ∧ run h' r.real t = (t, .error e)) ∨
    ∃ i dumped, Inputs.load t h.input r = .ok i ∧ i.dump t r = .ok dumped := by
  cases hload : Inputs.load t h.input r with
  | error e =>
    refine .inl ⟨e, fun h' hinput => ?_⟩
    rw [← hinput] at hload
    exact ⟨run_of_load_error (r := r.dry) hload, run_of_load_error (r := r.real) hload⟩
  | ok i =>
    cases hdump : i.dump t r with
    | error e =>
      refine .inl ⟨e, fun h' hinput => ?_⟩
      rw [← hinput] at hload
      exact ⟨run_of_dump_error (r := r.dry) hload hdump, run_of_dump_error (r := r.real) hload hdump⟩
    | ok dumped => exact .inr ⟨i, dumped, rfl, hdump⟩

/-! ### The rest of a run -/

/-- Jobs whose directories cannot be made are not replayed. -/
theorem runJobs_of_prepare_error {base scratch : String} {p : ProductTree} {jobs : List Replay.Job}
    {after : FileTree × ProductTree} {e : WriteFailure}
    (hprepare : Replay.prepare base scratch 0 t p jobs = (after, .error e))
    (replay : Replay.Replayer) :
    Replay.runJobs replay base scratch t p jobs = (after, .error e) := by
  rw [Replay.runJobs, hprepare]

theorem prepare_of_runJobs_error {replay : Replay.Replayer} {base scratch : String} {p : ProductTree}
    {jobs : List Replay.Job} {after : FileTree × ProductTree} {e : WriteFailure}
    (hrun : Replay.runJobs replay base scratch t p jobs = (after, .error e)) :
    Replay.prepare base scratch 0 t p jobs = (after, .error e) := by
  rw [Replay.runJobs] at hrun
  split at hrun
  next hprepare =>
    cases hrun
    exact hprepare
  next => cases hrun

/-- What is built says the same about the inputs as a dry run. -/
theorem sameInputs_of_build {after : FileTree} {report : Report}
    (hbuild : build h r i t = (after, .ok report)) : SameInputs report (i.report r) := by
  simp only [build] at hbuild
  split at hbuild
  · cases hbuild
  · split at hbuild
    · cases hbuild
    · cases hbuild
      exact ⟨rfl, rfl, rfl, rfl⟩

/-- A build that fails because a directory cannot be made fails for every replayer. -/
theorem build_of_replay_error {after : FileTree} {e : WriteFailure}
    (hbuild : build h r i t = (after, .error (.replay e))) (replay : Replay.Replayer) :
    build { h with replay := replay } r i t = (after, .error (.replay e)) := by
  simp only [build] at hbuild ⊢
  split at hbuild
  next hrun =>
    cases hbuild
    rw [runJobs_of_prepare_error (prepare_of_runJobs_error hrun) replay]
  next =>
    split at hbuild <;> cases hbuild

theorem withScratch_snd {α : Type} {act : FileTree → FileTree × Except Failure α} {made : FileTree}
    (hmade : t.createDirAll h.scratch = (made, .ok ())) : (withScratch h t act).2 = (act made).2 := by
  simp only [withScratch, hmade]
  split <;> rfl

theorem withScratch_eq_ok {α : Type} {act : FileTree → FileTree × Except Failure α} {a : α}
    (hresult : (withScratch h t act).2 = .ok a) : ∃ made after, act made = (after, .ok a) := by
  rcases hmade : t.createDirAll h.scratch with ⟨made, e | ⟨⟩⟩
  · simp [withScratch, hmade] at hresult
  · rw [withScratch_snd hmade] at hresult
    exact ⟨made, (act made).1, Prod.ext rfl hresult⟩

/-- What is done with a scratch directory fails for another reason than the directory only if the act
does. -/
theorem withScratch_congr {α : Type} {act act' : FileTree → FileTree × Except Failure α} {e : Failure}
    (hresult : (withScratch h t act).2 = .error e) (he : ∀ cause, e ≠ .scratch cause)
    (hact : ∀ made after, act made = (after, .error e) → act' made = (after, .error e)) :
    withScratch h t act' = withScratch h t act := by
  rcases hmade : t.createDirAll h.scratch with ⟨made, cause | ⟨⟩⟩
  · simp only [withScratch, hmade, Except.error.injEq] at hresult
    exact absurd hresult.symm (he cause)
  · rw [withScratch_snd hmade] at hresult
    have hsame : act made = ((act made).1, .error e) := Prod.ext rfl hresult
    simp only [withScratch, hmade, hact made _ hsame, ← hsame]

/-- Inputs that cannot be read end a run with nothing touched. A dry run makes no repair and runs no
command, and writes at most the graph. It fails only as the real run does; otherwise the real run goes
on from the tree it leaves, and reports the same about the inputs. If some directory of the jobs cannot
be made, no command is run. -/
theorem dry_run_agrees (h : Host) (r : Request) (t : FileTree) :
    (∀ e, Transcript.load t h.input r.log = .error e →
      ∀ h' : Host, h'.input = h.input → run h' r t = (t, .error (.log r.log e))) ∧
    (∀ transcript e, Transcript.load t h.input r.log = .ok transcript →
      Pif.Cache.load t r.pifCache = .error e →
        ∀ h' : Host, h'.input = h.input → run h' r t = (t, .error (.snapshot r.pifCache e))) ∧
    (∀ h' : Host, h'.input = h.input → run h' r.dry t = run h r.dry t) ∧
    (∀ e, (run h r.dry t).2 = .error e →
      run h r.dry t = (t, .error e) ∧ run h r.real t = (t, .error e)) ∧
    (∀ report, (run h r.dry t).2 = .ok report → ∃ i, Inputs.load t h.input r = .ok i ∧
      report = i.report r ∧ Dumps r i t (run h r.dry t).1 ∧
      ∀ h' : Host, h'.input = h.input →
        run h' r.real t = withScratch h' (h'.repair (run h r.dry t).1) (build h' r i)) ∧
    (∀ report, (run h r.real t).2 = .ok report →
      ∃ dryReport, (run h r.dry t).2 = .ok dryReport ∧ SameInputs report dryReport) ∧
    ∀ e, (run h r.real t).2 = .error (.replay e) →
      ∀ replay, run { h with replay := replay } r.real t = run h r.real t := by
  refine ⟨fun e hlog h' hinput => ?_, fun transcript e hlog hcache h' hinput => ?_, ?_⟩
  · rw [← hinput] at hlog
    exact run_of_load_error (load_of_log_error hlog)
  · rw [← hinput] at hlog
    exact run_of_load_error (load_of_snapshot_error hlog hcache)
  rcases run_dry_cases h r t with ⟨e, hfails⟩ | ⟨i, dumped, hload, hdump⟩
  · obtain ⟨hdry, hreal⟩ := hfails h rfl
    refine ⟨fun h' hinput => ?_, fun e' he => ?_, fun report hreport => ?_, fun report hreport => ?_,
      fun e' _ replay => ?_⟩
    · rw [(hfails h' hinput).1, hdry]
    · rw [hdry] at he
      cases he
      exact ⟨hdry, hreal⟩
    · rw [hdry] at hreport
      cases hreport
    · rw [hreal] at hreport
      cases hreport
    · rw [(hfails { h with replay := replay } rfl).2, hreal]
  · have hdry := run_dry_eq hload hdump
    have hreal : ∀ h' : Host, h'.input = h.input →
        run h' r.real t = withScratch h' (h'.repair dumped) (build h' r i) := by
      intro h' hinput
      rw [← hinput] at hload
      exact run_real_eq hload hdump
    refine ⟨fun h' hinput => ?_, fun e he => ?_, fun report hreport => ?_, fun report hreport => ?_,
      fun e he replay => ?_⟩
    · rw [hdry]
      rw [← hinput] at hload
      exact run_dry_eq hload hdump
    · rw [hdry] at he
      cases he
    · rw [hdry] at hreport ⊢
      cases hreport
      exact ⟨i, hload, rfl, dumps_of_dump hdump, hreal⟩
    · rw [hreal h rfl] at hreport
      obtain ⟨made, after, hbuild⟩ := withScratch_eq_ok hreport
      exact ⟨i.report r, by rw [hdry], sameInputs_of_build hbuild⟩
    · rw [hreal { h with replay := replay } rfl]
      rw [hreal h rfl] at he ⊢
      exact withScratch_congr he (by simp) fun made after hbuild => build_of_replay_error hbuild replay

end Pipeline

end BitcodeReplay
