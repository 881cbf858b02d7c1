import BitcodeReplay.Proofs.FileTree.Local
import BitcodeReplay.Proofs.FileTree.Proper
import BitcodeReplay.Proofs.Replay.Harvest

/-!
Actions that look at some places only and change no others than some of them. Taking the bitcode of a
compiler run is one, if the paths that it follows stay at those places.
-/

namespace BitcodeReplay.Replay

open Path FileTree

/-- An action has done in another tree what it does in the first: it has given the same result and
left the places of `V` the same, and of the other tree it has changed places of `O` only. -/
structure Alike {α : Type} (V O : Location → Prop) (t' : FileTree) (r r' : FileTree × α) :
    Prop where
  result : r'.2 = r.2
  agree : Agree V r.1 r'.1
  spares : ∀ l, ¬ O l → r'.1.get? l = t'.get? l
  proper : r'.1.Proper

/-- What an action does depends on the places of `V` only, and it changes places of `O` only. -/
def IsLocal {α : Type} (V O : Location → Prop) (act : FileTree → FileTree × α) (t : FileTree) :
    Prop :=
  ∀ t', t'.Proper → Agree V t t' → Alike V O t' (act t) (act t')

/-- A tree that a harvest goes through: the one that the compiler has left, or one in which some of
its files have been taken. -/
inductive Harvesting (t : FileTree) (s : Site) (i : Invocation) : FileTree → Prop
  | start : Harvesting t s i t
  | taken {files front : List String} : produced t s i = .ok files → front <+: files →
      Harvesting t s i (takeFiles i.compiler s.output t front).1

/-- The bitcode of a compiler run can be looked for, and while it is taken, no file is found but at
places of one's own, and it is put at such. -/
structure IsHarvestable (t : FileTree) (V O : Location → Prop) (s : Site) (i : Invocation) :
    Prop where
  listed : i.compiler = .clang → PathStays t V s.work ∧
    ∀ directory, t.find? s.work = some (directory, .dir) → ∀ name, V (directory ++ [name])
  mapped : ∀ map, i.compiler = .swiftc → i.outputFileMap = some map →
    PathStays t V (join s.base map)
  sources : ∀ now source, Harvesting t s i now → Leaves t s i source → OwnsFile now V O source
  targets : ∀ now name, Harvesting t s i now → IsComponent name → IsOwn now V O (join s.output name)

variable {α β : Type} {V O : Location → Prop} {act : FileTree → FileTree × α} {t t' : FileTree}
  {compiler : Compiler} {output source name : String} {files : List String} {s : Site}
  {i : Invocation}

theorem IsLocal.map (h : IsLocal V O act t) (f : α → β) :
    IsLocal V O (fun t => ((act t).1, f (act t).2)) t := by
  intro t' hproper ha
  obtain ⟨hresult, hagree, hspares, hproper'⟩ := h t' hproper ha
  exact ⟨congrArg f hresult, hagree, hspares, hproper'⟩

theorem isLocal_pure (V O : Location → Prop) (a : α) (t : FileTree) :
    IsLocal V O (fun t => (t, a)) t :=
  fun _ hproper ha => ⟨rfl, ha, fun _ _ => rfl, hproper⟩

theorem isLocal_put {directory : Location} (hdir : t.get? directory = some .dir)
    (hfree : t.get? (directory ++ [name]) ≠ some .dir) (hc : IsComponent name) (hV : V directory)
    (hV' : V (directory ++ [name])) (hO : O (directory ++ [name])) (e : Entry) (a : α) :
    IsLocal V O (fun t => (t.put (directory ++ [name]) e, a)) t := by
  intro t' ht' ha
  refine ⟨rfl, fun l hl => ?_, fun l hl => ?_, ?_⟩
  · rw [get?_put _ _ _ _ (by simp), get?_put _ _ _ _ (by simp), ha l hl]
  · rw [get?_put _ _ _ _ (by simp), if_neg]
    rintro rfl
    exact hl hO
  · exact ht'.put ((ha _ hV).trans hdir) hc (by rwa [ha _ hV'])

/-- An action goes on, in the tree that it has left, with what depends on its result. -/
theorem IsLocal.bind (h : IsLocal V O act t) (ht : t.Proper) (next : α → FileTree → FileTree × β)
    (hnext : (act t).1.Proper → IsLocal V O (next (act t).2) (act t).1) :
    IsLocal V O (fun t => next (act t).2 (act t).1) t := by
  have hproper := (h t ht (Agree.refl V t)).proper
  intro t' ht' ha
  obtain ⟨hresult, hagree, hspares, hproper'⟩ := h t' ht' ha
  obtain ⟨hresults, hagrees, hspare, hlast⟩ := hnext hproper (act t').1 hproper' hagree
  simp only [hresult]
  exact ⟨hresults, hagrees, fun l hl => (hspare l hl).trans (hspares l hl), hlast⟩

/-! ### Taking one file -/

theorem isFree_of_agree (h : IsOwn t V O (join output name)) (ha : Agree V t t') :
    isFree t' output name = isFree t output name := by
  rw [isFree, isFree, h.stays.isPresent_eq ha]

/-- A file, or a link to one, that is moved to a free name stands there, not at its old place, and
nothing else changes. -/
theorem moveFile_of_ok (ht : t.Proper) (hc : IsComponent name)
    (hfree : isFree t output name = true) {loc : Location} {e : Entry} {p : Place}
    (hfound : t.resolve false source = .ok (.found loc e)) (he : e ≠ .dir)
    (hplace : t.resolve false (join output name) = .ok p) :
    ∃ moved, moveFile t source (join output name) = (moved, .ok ()) ∧ moved.Proper ∧
      ∀ l, moved.get? l = if l = p.loc then some e else if l = loc then none else t.get? l := by
  obtain ⟨left, out, hlead, hwalk⟩ := leadsTo_of_resolve_join hc hplace
  obtain rfl := placeIn_of_walk hc hwalk
  have hloc := get?_of_resolve hfound he
  have hdest : t.get? (out ++ [name]) ≠ some .dir := by
    intro hdir
    obtain ⟨target, hlink⟩ :=
      link_of_not_isPresent hlead hc hplace (by simpa [isFree] using hfree) hdir
    cases hlink
  rw [moveFile, rename_leaf hfound he hplace hdest, placeIn_loc]
  refine ⟨_, rfl, ?_, fun l => ?_⟩
  · split
    · exact ht
    · exact ht.relocate_leaf hloc he (hlead.get?_eq_dir ht.wellFormed) hc hdest
  · split
    · next heq =>
      -- a link that stands where it should be moved stays there
      rw [heq]
      split
      · next hl => rw [hl, hloc]
      · rfl
    · exact get?_relocate_leaf ht.wellFormed hloc he hdest (by simp) l

/-- Nothing is moved to a path that leads nowhere. -/
theorem moveFile_of_error {target : String} {e : FileError} (hfile : t.isFile source = true)
    (hplace : t.resolve false target = .error e) :
    moveFile t source target = (t, .error (.write ⟨target, e⟩)) := by
  obtain ⟨loc, b, x, hfollowed⟩ := isFile_iff.1 hfile
  obtain ⟨loc', e', hfound, he'⟩ := resolve_of_isFile hfile
  have hplace' : t.resolve true target = .error e := by
    rw [resolve_true_eq_false (by simp [hplace]), hplace]
  cases e' with
  | dir => exact absurd rfl he'
  | _ => simp [moveFile, rename, copyFile, hfound, hfollowed, hplace, hplace', bind, Except.bind]

/-- A file of one's own that is moved to a free name of one's own. -/
theorem moveFile_local (ht : t.Proper) (hsource : OwnsFile t V O source)
    (htarget : IsOwn t V O (join output name)) (hc : IsComponent name)
    (hfile : t.isFile source = true) (hfree : isFree t output name = true) :
    IsLocal V O (moveFile · source (join output name)) t := by
  intro t' ht' ha
  have hplaces := htarget.stays.resolve_eq ha false
  cases hplace : t.resolve false (join output name) with
  | error e =>
    simp only [moveFile_of_error hfile hplace, moveFile_of_error
      ((hsource.stays.isFile_eq ha).trans hfile) (hplaces.trans hplace)]
    exact ⟨rfl, ha, fun _ _ => rfl, ht'⟩
  | ok p =>
    obtain ⟨loc, e, hfound, he⟩ := resolve_of_isFile hfile
    obtain ⟨moved, hmove, -, hget⟩ := moveFile_of_ok ht hc hfree hfound he hplace
    obtain ⟨moved', hmove', hproper', hget'⟩ := moveFile_of_ok ht' hc
      ((isFree_of_agree htarget ha).trans hfree)
      ((hsource.stays.resolve_eq ha false).trans hfound) he (hplaces.trans hplace)
    simp only [hmove, hmove']
    refine ⟨rfl, fun l hl => by rw [hget, hget', ha l hl], fun l hl => ?_, hproper'⟩
    have hsourceOwn : O loc := hsource.own hfile _ hfound
    have htargetOwn : O p.loc := htarget.own p hplace
    rw [hget', if_neg, if_neg]
    · rintro rfl
      exact hl hsourceOwn
    · rintro rfl
      exact hl htargetOwn

/-- Whatever the path is, nothing is done but at places of one's own. -/
theorem takeFile_local (compiler : Compiler) (ht : t.Proper) (hsource : OwnsFile t V O source)
    (htargets : ∀ name, IsComponent name → IsOwn t V O (join output name)) :
    IsLocal V O (takeFile · compiler output source) t := by
  have hsame : ∀ t', Agree V t t' → t'.isFile source = t.isFile source :=
    fun t' => hsource.stays.isFile_eq
  cases hfile : t.isFile source with
  | false =>
    intro t' ht' ha
    simp only [takeFile, hsame t' ha, hfile]
    exact ⟨rfl, ha, fun _ _ => rfl, ht'⟩
  | true =>
    cases hkept : keptName? compiler source with
    | none =>
      intro t' ht' ha
      simp only [takeFile, hsame t' ha, hfile, hkept]
      exact ⟨rfl, ha, fun _ _ => rfl, ht'⟩
    | some kept =>
      have hc := isComponent_keptName? hkept
      have hcfree : IsComponent (freeName t output kept) := isComponent_freeName hc
      have hlocal := moveFile_local ht hsource (htargets _ hcfree) hcfree hfile (isFree_freeName hc)
      have hmoves : ∀ t', Agree V t t' → takeFile t' compiler output source =
          ((moveFile t' source (join output (freeName t output kept))).1,
            (moveFile t' source (join output (freeName t output kept))).2.map fun _ => 1) := by
        intro t' ha
        have hname : freeName t' output kept = freeName t output kept :=
          freeName_congr hc fun other hother => isFree_of_agree (htargets other hother) ha
        rw [takeFile, hsame t' ha, hfile, hkept]
        simp only [hname]
        split <;> next hmove => rw [hmove]; rfl
      intro t' ht' ha
      simp only [hmoves t (Agree.refl V t), hmoves t' ha]
      exact hlocal.map _ t' ht' ha

/-- Taking a file does nothing, or what was found stands at the place of a name in the directory and
not at its old place, and nothing else has changed. -/
theorem takeFile_cases (compiler : Compiler) (output source : String) (ht : t.Proper) :
    (takeFile t compiler output source).1 = t ∨ ∃ loc e name p, t.isFile source = true ∧
      t.resolve false source = .ok (.found loc e) ∧ t.get? loc = some e ∧ IsComponent name ∧
      t.resolve false (join output name) = .ok p ∧
      (takeFile t compiler output source).1.Proper ∧
      ∀ l, (takeFile t compiler output source).1.get? l =
        if l = p.loc then some e else if l = loc then none else t.get? l := by
  cases hfile : t.isFile source with
  | false => exact .inl (by rw [takeFile, hfile])
  | true =>
    cases hkept : keptName? compiler source with
    | none => exact .inl (by rw [takeFile, hfile, hkept])
    | some kept =>
      have hc : IsComponent (freeName t output kept) :=
        isComponent_freeName (isComponent_keptName? hkept)
      cases hplace : t.resolve false (join output (freeName t output kept)) with
      | error e => exact .inl (by simp only [takeFile, hfile, hkept, moveFile_of_error hfile hplace])
      | ok p =>
        obtain ⟨loc, e, hfound, he⟩ := resolve_of_isFile hfile
        obtain ⟨moved, hmove, hproper, hget⟩ := moveFile_of_ok ht hc
          (isFree_freeName (isComponent_keptName? hkept)) hfound he hplace
        have htake : (takeFile t compiler output source).1 = moved := by
          simp only [takeFile, hfile, hkept, hmove]
        rw [htake]
        exact .inr ⟨loc, e, _, p, rfl, hfound, get?_of_resolve hfound he, hc, hplace, hproper, hget⟩

/-- Where there are no links, taking a file makes none. -/
theorem takeFile_noLinks (compiler : Compiler) (output source : String) (ht : t.Proper)
    (hno : ∀ l target, t.get? l ≠ some (.link target)) :
    (takeFile t compiler output source).1.Proper ∧
      ∀ l target, (takeFile t compiler output source).1.get? l ≠ some (.link target) := by
  rcases takeFile_cases compiler output source ht with
    hsame | ⟨loc, e, name, p, -, -, hloc, -, -, hproper, hget⟩
  · rw [hsame]
    exact ⟨ht, hno⟩
  · refine ⟨hproper, fun l target => ?_⟩
    rw [hget, ← hloc]
    split
    · exact hno loc target
    · split
      · simp
      · exact hno l target

/-! ### Taking all files of a compiler run -/

theorem takeFiles_cons (compiler : Compiler) (output : String) (t : FileTree) (source : String)
    (rest : List String) : takeFiles compiler output t (source :: rest) =
      match (takeFile t compiler output source).2 with
      | .error e => ((takeFile t compiler output source).1, .error e)
      | .ok n => ((takeFiles compiler output (takeFile t compiler output source).1 rest).1,
          (takeFiles compiler output (takeFile t compiler output source).1 rest).2.map (n + ·)) := by
  rw [takeFiles]
  cases takeFile t compiler output source with
  | mk moved result =>
    cases result with
    | error e => rfl
    | ok n =>
      simp only
      cases takeFiles compiler output moved rest with
      | mk done more => cases more <;> rfl

theorem takeFiles_local (ht : t.Proper)
    (hsources : ∀ front source, front <+: files → source ∈ files →
      OwnsFile (takeFiles compiler output t front).1 V O source)
    (htargets : ∀ front name, front <+: files → IsComponent name →
      IsOwn (takeFiles compiler output t front).1 V O (join output name)) :
    IsLocal V O (takeFiles compiler output · files) t := by
  induction files generalizing t with
  | nil => exact isLocal_pure V O _ t
  | cons source rest ih =>
    have hlocal := takeFile_local compiler ht (hsources [] source (List.nil_prefix) List.mem_cons_self)
      fun name => htargets [] name List.nil_prefix
    simp only [takeFiles_cons]
    refine hlocal.bind ht (fun result t => match result with
      | .error e => (t, .error e)
      | .ok n => ((takeFiles compiler output t rest).1,
          (takeFiles compiler output t rest).2.map (n + ·))) fun hproper => ?_
    cases htake : (takeFile t compiler output source).2 with
    | error e => exact isLocal_pure V O _ _
    | ok n =>
      -- what has been taken from the rest has been taken after the first
      have hlater : ∀ front, (takeFiles compiler output t (source :: front)).1 =
          (takeFiles compiler output (takeFile t compiler output source).1 front).1 := by
        intro front
        rw [takeFiles_cons, htake]
      refine (ih hproper (fun front s hfront hs => ?_) fun front name hfront hname => ?_).map _
      · rw [← hlater]
        exact hsources _ s (List.cons_prefix_cons.2 ⟨rfl, hfront⟩) (List.mem_cons_of_mem _ hs)
      · rw [← hlater]
        exact htargets _ name (List.cons_prefix_cons.2 ⟨rfl, hfront⟩) hname

/-- The last file is taken from what those before it have left. -/
theorem takeFiles_concat (compiler : Compiler) (output : String) (t : FileTree)
    (front : List String) (source : String) : (takeFiles compiler output t (front ++ [source])).1 =
      match (takeFiles compiler output t front).2 with
      | .error _ => (takeFiles compiler output t front).1
      | .ok _ => (takeFile (takeFiles compiler output t front).1 compiler output source).1 := by
  induction front generalizing t with
  | nil =>
    rw [List.nil_append, takeFiles_cons]
    cases htake : (takeFile t compiler output source).2 <;> simp [takeFiles]
  | cons first rest ih =>
    rw [List.cons_append, takeFiles_cons, takeFiles_cons]
    cases (takeFile t compiler output first).2 with
    | error e => rfl
    | ok n =>
      simp only [ih]
      cases (takeFiles compiler output (takeFile t compiler output first).1 rest).2 <;> rfl

/-- What taking one file keeps holds all along a harvest. -/
theorem Harvesting.keeps {P : FileTree → Prop} {now : FileTree} (h : Harvesting t s i now)
    (hstart : P t) (htake : ∀ now source, Harvesting t s i now → Leaves t s i source → P now →
      P (takeFile now i.compiler s.output source).1) : P now := by
  cases h with
  | start => exact hstart
  | @taken files front hproduced hfront =>
    induction front using List.reverseRecOn with
    | nil => exact hstart
    | append_singleton front source ih =>
      have hbefore : front <+: files := (List.prefix_append front [source]).trans hfront
      have hsource : source ∈ files := hfront.subset (by simp)
      rw [takeFiles_concat]
      split
      · exact ih hbefore
      · exact htake _ source (.taken hproduced hbefore) ((mem_produced hproduced).1 hsource)
          (ih hbefore)

theorem Harvesting.noLinks {now : FileTree} (h : Harvesting t s i now) (ht : t.Proper)
    (hno : ∀ l target, t.get? l ≠ some (.link target)) (l : Location) (target : String) :
    now.get? l ≠ some (.link target) := by
  have hkept := h.keeps (P := fun now => now.Proper ∧ ∀ l target, now.get? l ≠ some (.link target))
    ⟨ht, hno⟩ fun now source _ _ ⟨hproper, hnone⟩ =>
      takeFile_noLinks i.compiler s.output source hproper hnone
  exact hkept.2 l target

/-- The names in a directory are sorted the same wherever the same stands under them. -/
theorem sorted_namesIn (ht : t.Proper) (ht' : t'.Proper) {directory : Location}
    (ha : ∀ name, t'.get? (directory ++ [name]) = t.get? (directory ++ [name]))
    (keep : String → Bool) :
    ((t'.namesIn directory).filter keep).mergeSort (fun a b => decide (a ≤ b)) =
      ((t.namesIn directory).filter keep).mergeSort fun a b => decide (a ≤ b) := by
  have hperm : (t'.namesIn directory).Perm (t.namesIn directory) := by
    refine (List.perm_ext_iff_of_nodup (ht'.nodup_namesIn _) (ht.nodup_namesIn _)).2 fun name => ?_
    rw [mem_namesIn, mem_namesIn, ha]
  exact mergeSort_eq_of_perm nameLe_iff Function.injective_id (hperm.filter keep)

theorem temporaries_of_agree (ht : t.Proper) (ht' : t'.Proper)
    (hwork : PathStays t V s.work)
    (hnames : ∀ directory, t.find? s.work = some (directory, .dir) → ∀ name, V (directory ++ [name]))
    (ha : Agree V t t') : temporaries t' s.work = temporaries t s.work := by
  rw [temporaries, temporaries, readDir, readDir, hwork.resolve_eq ha]
  cases hresolve : t.resolve true s.work with
  | error e => rfl
  | ok p =>
    cases p with
    | free l => rfl
    | found l e =>
      cases e with
      | dir =>
        have hsame := sorted_namesIn ht ht' (fun name => ha _ (hnames l
          (find?_eq_some_iff.2 hresolve) name)) isBitcode
        simp [bind, Except.bind, pure, Except.pure, hsame]
      | _ => rfl

/-- The same files are looked for. -/
theorem IsHarvestable.produced_eq (h : IsHarvestable t V O s i) (ht : t.Proper) (ht' : t'.Proper)
    (ha : Agree V t t') : produced t' s i = produced t s i := by
  rw [produced, produced]
  cases hcompiler : i.compiler with
  | clang =>
    obtain ⟨hwork, hnames⟩ := h.listed hcompiler
    simp only [Compiler.usesOutputFileMap, Bool.false_eq_true, if_false]
    exact temporaries_of_agree ht ht' hwork hnames ha
  | swiftc =>
    simp only [Compiler.usesOutputFileMap, if_true]
    cases hmap : i.outputFileMap with
    | none => rfl
    | some map =>
      have hread : t'.readText (join s.base map) = t.readText (join s.base map) := by
        rw [readText, readText, readFile, readFile, (h.mapped map hcompiler hmap).resolve_eq ha]
      simp only [OutputFileMap.bitcodePaths, hread]

/-- Taking bitcode at places of one's own depends on nothing else and changes nothing else. -/
theorem IsHarvestable.harvest_local (h : IsHarvestable t V O s i) (ht : t.Proper) :
    IsLocal V O (harvest · s i) t := by
  intro t' ht' ha
  have hsame := h.produced_eq ht ht' ha
  simp only [harvest, hsame]
  cases hproduced : produced t s i with
  | error e => exact ⟨rfl, ha, fun _ _ => rfl, ht'⟩
  | ok files =>
    exact takeFiles_local ht
      (fun front source hfront hs => h.sources _ source (.taken hproduced hfront)
        ((mem_produced hproduced).1 hs))
      (fun front name hfront => h.targets _ name (.taken hproduced hfront)) t' ht' ha

end BitcodeReplay.Replay
