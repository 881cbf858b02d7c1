import BitcodeReplay.Proofs.Plan.Partition
import BitcodeReplay.Proofs.Replay.Interleaving

/-!
The jobs of a plan beside each other. Their working directories are numbered and their product
directories differ, so that each job has places of its own; as long as no link leads out of these, the
order in which compilers are run and harvested does not matter.
-/

namespace BitcodeReplay.Plan

open Replay Path FileTree

/-- The name of the working directory of a job. -/
def workName (k : Nat) (j : Job) : String := toString k ++ "-" ++ j.directory

/-- Where jobs work: the directory of their working directories, that of their product directories,
and the places that the output file maps of a job name. -/
structure Layout where
  scratch : Location
  root : Location
  mapped : Nat → Location → Prop

namespace Layout

def work (y : Layout) (k : Nat) (j : Job) : Location := y.scratch ++ [workName k j]

def product (y : Layout) (j : Job) : Location := y.root ++ [j.directory]

/-- The places of a job: those of its working directory, those of its product directory, and those
that its output file maps name. -/
def Owns (y : Layout) (plan : List Job) (k : Nat) (l : Location) : Prop :=
  ∃ j, plan[k]? = some j ∧
    (isWithin l (y.work k j) = true ∨ isWithin l (y.product j) = true ∨ y.mapped k l)

/-- The places of no job. -/
def IsShared (y : Layout) (plan : List Job) (l : Location) : Prop := ∀ k, ¬ y.Owns plan k l

/-- The two paths lead through places of no job, no working directory lies in a product directory or
holds one, and what the output file maps of one job name belongs to no other. -/
structure Fits (y : Layout) (t : FileTree) (scratch root : String) (plan : List Job) : Prop where
  toScratch : t.LeadsThrough (y.IsShared plan) scratch y.scratch
  toRoot : t.LeadsThrough (y.IsShared plan) root y.root
  apart : ∀ (i j : Nat) (a b : Job), plan[i]? = some a → plan[j]? = some b →
    isWithin (y.work i a) (y.product b) = false ∧ isWithin (y.product b) (y.work i a) = false
  mapped : ∀ i j l, i ≠ j → y.mapped i l → ¬ y.Owns plan j l

end Layout

/-- The compiler of a command looks at no place of another job and changes only places of its own job.
After it, and while its bitcode is taken, the directories of the job are no links and links in them
lead through no place of another job, nor does its output file map, if it has one, and the paths that
this names; where they name files, these stand at places of its own. -/
structure Confined (launch : Execution.Launcher) (y : Layout) (plan : List Job) (k : Nat)
    (r : ReadyJob) (p : FileTree × CapturedCommand) : Prop where
  compiles : IsLocal (view (y.Owns plan) k) (y.Owns plan k) (compile launch · r.site p.2) p.1
  links : ∀ compiled i outcome now, compile launch p.1 r.site p.2 = (compiled, .ok (i, outcome)) →
    Harvesting compiled r.site i now → ∀ directory ∈ [y.work k r.job, y.product r.job],
      (∀ target, now.get? directory ≠ some (.link target)) ∧
        now.LinksStay (view (y.Owns plan) k) directory
  mapped : ∀ compiled i outcome map, compile launch p.1 r.site p.2 = (compiled, .ok (i, outcome)) →
    i.compiler = .swiftc → i.outputFileMap = some map →
      compiled.PathStays (view (y.Owns plan) k) (join r.site.base map) ∧
      ∀ paths, OutputFileMap.bitcodePaths compiled (join r.site.base map) = .ok paths →
        ∀ path ∈ paths, ∀ now, Harvesting compiled r.site i now →
          now.OwnsFile (view (y.Owns plan) k) (y.Owns plan k) (join r.site.base path)

variable {tr : Transcript} {c : Pif.Cache} {archived : List String} {launch : Execution.Launcher}
  {y : Layout} {plan : List Job} {scratch root base : String} {t made : FileTree} {q : ProductTree}
  {ready : List ReadyJob} {r : ReadyJob} {i j k : Nat} {a b : Job} {l : Location}

/-! ### Places of one job only -/

theorem workName_injective (h : workName i a = workName j b) : i = j := by
  -- the number ends before the first hyphen
  have hnumber : ∀ (k : Nat) (j : Job),
      (workName k j).toList.takeWhile (· ≠ '-') = Nat.toDigits 10 k := by
    intro k j
    have hdigits : ∀ d ∈ Nat.toDigits 10 k, decide (d ≠ '-') = true := by
      intro d hd
      rw [decide_eq_true_iff]
      rintro rfl
      exact not_mem_toDigits (by decide) k hd
    have hchars : (workName k j).toList = Nat.toDigits 10 k ++ '-' :: j.directory.toList := by
      simp [workName, String.toList_append]
    rw [hchars, List.takeWhile_append_of_pos hdigits, List.takeWhile_cons_of_neg (by simp),
      List.append_nil]
  refine toDigits_injective ?_
  rw [← hnumber i a, ← hnumber j b, h]

theorem isComponent_workName (h : IsComponent a.directory) (k : Nat) :
    IsComponent (workName k a) := by
  have hhyphen : '-' ∈ (workName k a).toList := by simp [workName, String.toList_append]
  refine ⟨fun he => ?_, fun he => ?_, fun he => ?_, ?_⟩
  · exact absurd (he ▸ hhyphen) (by decide)
  · exact absurd (he ▸ hhyphen) (by decide)
  · exact absurd (he ▸ hhyphen) (by decide)
  · simp [workName, String.toList_append, not_mem_toDigits, h.slash]

/-- The directories of a job are those of its number and of its product. -/
structure IsPlaced (scratch root : String) (k : Nat) (r : ReadyJob) : Prop where
  work : r.site.work = join scratch (workName k r.job)
  output : r.site.output = join root r.job.directory

theorem isPlaced_of_prepare {after : FileTree × ProductTree}
    (h : prepare base scratch 0 t (.start root) plan = (after, .ok ready))
    (hr : ready[k]? = some r) : plan[k]? = some r.job ∧ IsPlaced scratch root k r := by
  obtain ⟨j, hj, rfl⟩ := prepare_site h hr
  rw [Nat.zero_add]
  exact ⟨hj, rfl, rfl⟩

/-- Of two directories that hold a place one holds the other. -/
theorem isWithin_or_isWithin {top other : Location} (h : isWithin l top = true)
    (h' : isWithin l other = true) : isWithin top other = true ∨ isWithin other top = true := by
  simp only [isWithin, List.isPrefixOf_iff_prefix] at h h' ⊢
  exact (List.prefix_or_prefix_of_prefix h h').symm

theorem eq_of_isWithin_siblings {top : Location} {x z : String} (h : isWithin l (top ++ [x]) = true)
    (h' : isWithin l (top ++ [z]) = true) : x = z := by
  by_contra hne
  rw [isWithin_sibling hne h] at h'
  cases h'

namespace Layout

/-- No place belongs to two jobs. -/
theorem Fits.owner_unique (h : y.Fits t scratch root plan) (hplan : (plan.map (·.directory)).Nodup)
    (hi : y.Owns plan i l) (hj : y.Owns plan j l) : i = j := by
  by_contra hne
  obtain ⟨a, ha, hla⟩ := hi
  obtain ⟨b, hb, hlb⟩ := hj
  rcases hla with hwork | hproduct | hmapped
  · rcases hlb with hwork' | hproduct' | hmapped'
    · exact hne (workName_injective (eq_of_isWithin_siblings hwork hwork'))
    · obtain ⟨hout, hin⟩ := h.apart i j a b ha hb
      rcases isWithin_or_isWithin hwork hproduct' with hw | hw <;> simp_all
    · exact h.mapped j i l (Ne.symm hne) hmapped' ⟨a, ha, .inl hwork⟩
  · rcases hlb with hwork' | hproduct' | hmapped'
    · obtain ⟨hout, hin⟩ := h.apart j i b a hb ha
      rcases isWithin_or_isWithin hwork' hproduct with hw | hw <;> simp_all
    · have hdirectory := eq_of_isWithin_siblings hproduct hproduct'
      have hi : (plan.map (·.directory))[i]? = some a.directory := by simp [ha]
      have hj : (plan.map (·.directory))[j]? = some b.directory := by simp [hb]
      obtain ⟨hlt, -⟩ := List.getElem?_eq_some_iff.1 hi
      exact hne ((List.getElem?_inj hlt hplan).1 (hi.trans (hdirectory ▸ hj.symm)))
    · exact h.mapped j i l (Ne.symm hne) hmapped' ⟨a, ha, .inr (.inl hproduct)⟩
  · exact h.mapped i j l hne hmapped ⟨b, hb, hlb⟩

theorem view_of_isShared (h : y.IsShared plan l) : view (y.Owns plan) k l :=
  fun j hj => absurd hj (h j)

/-- What belongs to one job is in its view. -/
theorem Fits.view_of_owns (h : y.Fits t scratch root plan)
    (hplan : (plan.map (·.directory)).Nodup) (hk : y.Owns plan k l) : view (y.Owns plan) k l :=
  fun _ hj => h.owner_unique hplan hj hk

end Layout

/-! ### Harvests at places of one's own -/

section Confined

variable (hplan : (plan.map (·.directory)).Nodup) (hfits : y.Fits made scratch root plan)
  (hk : plan[k]? = some r.job) (hplaced : IsPlaced scratch root k r)
  (hc : IsComponent r.job.directory)
include hplan hfits hk hplaced hc

/-- While nobody else's places have changed, the paths to the directories of a job lead there, and what
is found or put under their names is at places of the job. -/
theorem Confined.ownDirectories {now : FileTree} (ha : Agree (y.IsShared plan) made now)
    (hlinks : ∀ directory ∈ [y.work k r.job, y.product r.job],
      (∀ target, now.get? directory ≠ some (.link target)) ∧
        now.LinksStay (view (y.Owns plan) k) directory) :
    now.LeadsThrough (view (y.Owns plan) k) r.site.work (y.work k r.job) ∧
      ∀ name, IsComponent name →
        now.IsOwn (view (y.Owns plan) k) (y.Owns plan k) (join r.site.work name) ∧
        now.IsOwn (view (y.Owns plan) k) (y.Owns plan k) (join r.site.output name) := by
  have hview : ∀ l, y.Owns plan k l → view (y.Owns plan) k l :=
    fun l => hfits.view_of_owns hplan
  have hownWork : ∀ l, isWithin l (y.work k r.job) = true → y.Owns plan k l :=
    fun l hl => ⟨r.job, hk, .inl hl⟩
  have hownProduct : ∀ l, isWithin l (y.product r.job) = true → y.Owns plan k l :=
    fun l hl => ⟨r.job, hk, .inr (.inl hl)⟩
  obtain ⟨hnoWork, hworkLinks⟩ := hlinks (y.work k r.job) (by simp)
  obtain ⟨hnoProduct, hproductLinks⟩ := hlinks (y.product r.job) (by simp)
  have hshared : ∀ l, y.IsShared plan l → view (y.Owns plan) k l := fun l => y.view_of_isShared
  have hwork : now.LeadsThrough (view (y.Owns plan) k) r.site.work (y.work k r.job) := by
    rw [hplaced.work]
    exact ((hfits.toScratch.of_agree ha).mono hshared).join (isComponent_workName hc k)
      (hview _ (hownWork _ (isWithin_self _))) hnoWork
  have hproduct : now.LeadsThrough (view (y.Owns plan) k) r.site.output (y.product r.job) := by
    rw [hplaced.output]
    exact ((hfits.toRoot.of_agree ha).mono hshared).join hc
      (hview _ (hownProduct _ (isWithin_self _))) hnoProduct
  have hwithin := fun (top : Location) (name : String) => isWithin_append top [name]
  exact ⟨hwork, fun name hname =>
    ⟨hwork.isOwn hworkLinks hname (hview _ (hownWork _ (hwithin _ _))) (hownWork _ (hwithin _ _)),
      hproduct.isOwn hproductLinks hname (hview _ (hownProduct _ (hwithin _ _)))
        (hownProduct _ (hwithin _ _))⟩⟩

/-- Taking the bitcode of a command that is confined looks at no place of another job and changes
only places of its own. -/
theorem Confined.isHarvestable {p : FileTree × CapturedCommand} {compiled : FileTree}
    {i : Invocation} {outcome : Execution.Outcome} (h : Confined launch y plan k r p)
    (ha : Agree (y.IsShared plan) made compiled) (hproper : compiled.Proper)
    (hcompile : compile launch p.1 r.site p.2 = (compiled, .ok (i, outcome))) :
    IsHarvestable compiled (view (y.Owns plan) k) (y.Owns plan k) r.site i := by
  have hdirectories : ∀ now, Harvesting compiled r.site i now → Agree (y.IsShared plan) made now →
      now.LeadsThrough (view (y.Owns plan) k) r.site.work (y.work k r.job) ∧
        ∀ name, IsComponent name →
          now.IsOwn (view (y.Owns plan) k) (y.Owns plan k) (join r.site.work name) ∧
          now.IsOwn (view (y.Owns plan) k) (y.Owns plan k) (join r.site.output name) :=
    fun now hnow hagree => ownDirectories hplan hfits hk hplaced hc hagree
      (h.links compiled i outcome now hcompile hnow)
  obtain ⟨hwork, -⟩ := hdirectories compiled .start ha
  have hdirectory : ∀ directory, compiled.find? r.site.work = some (directory, .dir) →
      directory = y.work k r.job := by
    intro directory hfind
    obtain ⟨left, hlead⟩ := leadsTo_of_find? hfind
    exact hwork.leads left directory hlead
  have hsources : ∀ now source, Harvesting compiled r.site i now →
      Agree (y.IsShared plan) made now → Leaves compiled r.site i source →
        now.OwnsFile (view (y.Owns plan) k) (y.Owns plan k) source := by
    intro now source hnow hagree hleaves
    cases hleaves with
    | temporary _ hfind hname _ =>
      obtain rfl := hdirectory _ hfind
      exact ((hdirectories now hnow hagree).2 _ (hproper.named _ _ hname)).1.ownsFile
    | mapped hswift hmap hpaths hpath =>
      exact (h.mapped compiled i outcome _ hcompile hswift hmap).2 _ hpaths _ hpath now hnow
  -- what is taken changes no place that is nobody's
  have hstays : ∀ now, Harvesting compiled r.site i now →
      now.Proper ∧ Agree (y.IsShared plan) made now := by
    intro now hnow
    refine hnow.keeps (P := fun now => now.Proper ∧ Agree (y.IsShared plan) made now)
      ⟨hproper, ha⟩ fun now source hnow hleaves ⟨hproper, hagree⟩ => ?_
    have halike := takeFile_local i.compiler hproper (hsources now source hnow hagree hleaves)
      (fun name hname => ((hdirectories now hnow hagree).2 name hname).2) now hproper
      (Agree.refl _ now)
    exact ⟨halike.proper, hagree.trans fun l hl => halike.spares l (hl k)⟩
  exact {
    listed := by
      intro _
      refine ⟨hwork.pathStays, fun directory hfind name => ?_⟩
      rw [hdirectory directory hfind]
      exact hfits.view_of_owns hplan ⟨r.job, hk, .inl (isWithin_append _ _)⟩
    mapped := fun map hswift hmap => (h.mapped compiled i outcome map hcompile hswift hmap).1
    sources := fun now source hnow => hsources now source hnow (hstays now hnow).2
    targets := fun now name hnow hname =>
      ((hdirectories now hnow (hstays now hnow).2).2 name hname).2 }

/-- If all commands of a job are confined, none of its steps looks at a place of another job or
changes one that is not its own. -/
theorem keeps_of_confined {commands : List CapturedCommand} (ht : t.Proper)
    (ha : Agree (y.IsShared plan) made t)
    (hconfined : ∀ p ∈ trail launch r.site t commands, Confined launch y plan k r p) :
    ∀ p ∈ trail launch r.site t commands,
      Keeps launch (view (y.Owns plan) k) (y.Owns plan k) r.site p := by
  induction commands generalizing t with
  | nil => simp [trail]
  | cons c rest ih =>
    have hfirst := hconfined (t, c) List.mem_cons_self
    have hkeeps : Keeps launch (view (y.Owns plan) k) (y.Owns plan k) r.site (t, c) := by
      refine ⟨hfirst.compiles, fun compiled i outcome hcompile => ?_⟩
      have halike := hfirst.compiles t ht (Agree.refl _ t)
      simp only [hcompile] at halike
      exact hfirst.isHarvestable hplan hfits hk hplaced hc
        (ha.trans fun l hl => halike.spares l (hl k)) halike.proper hcompile
    have halike := hkeeps.tallyCommand_local ht t ht (Agree.refl _ t)
    intro p hp
    rcases List.mem_cons.1 hp with rfl | hp
    · exact hkeeps
    · exact ih halike.proper (ha.trans fun l hl => halike.spares l (hl k))
        (fun p hp => hconfined p (List.mem_cons_of_mem _ hp)) p hp

end Confined

theorem nodup_directory_jobs : ((jobs tr c archived).map (·.directory)).Nodup := by
  rw [map_directory_jobs]
  exact nodup_directories

/-- For every plan whose directories are single names and whose commands are confined: in whatever
order the jobs take their steps, when all have come to their end the tree is the one that replaying
them one after the other leaves, and they have come to the same together. -/
theorem replayJobs_confluent {order : List Nat}
    (hnames : ∀ j ∈ jobs tr c archived, IsComponent j.directory)
    (hprepare : prepare base scratch 0 t (.start root) (jobs tr c archived) =
      ((made, q), .ok ready))
    (hmade : made.Proper) (hfits : y.Fits made scratch root (jobs tr c archived))
    (hconfined : ∀ k r, ready[k]? = some r → ∀ p ∈ trail launch r.site made r.job.commands,
      Confined launch y (jobs tr c archived) k r p)
    (hdone : ∀ w ∈ (interleave launch made (ready.map Thread.start) order).2, w.IsDone) :
    (∀ l, (interleave launch made (ready.map Thread.start) order).1.get? l =
      (replayJobs launch made ready).1.get? l) ∧
    total (interleave launch made (ready.map Thread.start) order).2 =
      (replayJobs launch made ready).2 := by
  have hplan : ((jobs tr c archived).map (·.directory)).Nodup := nodup_directory_jobs
  have hsteady : ∀ k w, (ready.map Thread.start)[k]? = some w →
      IsSteady launch (view (y.Owns (jobs tr c archived)) k) (y.Owns (jobs tr c archived) k)
        (made, w) := by
    intro k w hw
    rw [List.getElem?_map, Option.map_eq_some_iff] at hw
    obtain ⟨r, hr, rfl⟩ := hw
    obtain ⟨hj, hplaced⟩ := isPlaced_of_prepare hprepare hr
    exact isSteady_of_trail hmade (keeps_of_confined hplan hfits hj hplaced
      (hnames _ (List.mem_of_getElem? hj)) hmade (Agree.refl _ made) (hconfined k r hr)) .zero
  have hown : ∀ i j l, y.Owns (jobs tr c archived) i l → y.Owns (jobs tr c archived) j l → i = j :=
    fun i j l => hfits.owner_unique hplan
  -- one of the orders is that of the list
  obtain ⟨order', ends, heq, hends, htotal⟩ := interleave_replayJobs launch made [] ready
  rw [List.nil_append, List.nil_append] at heq
  have hdone' : ∀ w ∈ (interleave launch made (ready.map Thread.start) order').2, w.IsDone := by
    rw [heq]
    exact hends
  obtain ⟨htree, hthreads⟩ := interleave_confluent hown hmade hsteady hdone hdone'
  rw [heq] at htree hthreads
  exact ⟨htree, by rw [hthreads, htotal]⟩

/-! ### Two jobs of one command each -/

/-- Two targets that nothing is known about, each with one command. -/
def pairTranscript : Transcript where
  targets := [("A", [⟨"clang -c a.m", .clang⟩]), ("B", [⟨"clang -c b.m", .clang⟩])]
  buildCount := 1

def pairSnapshot : Pif.Cache := ⟨⟨"W", "Pair", "/w", []⟩, [], []⟩

/-- All directories of the plan are there. -/
def pairTree : FileTree :=
  ⟨[(["o"], .dir), (["o", "A"], .dir), (["o", "B"], .dir), (["s"], .dir), (["s", "0-A"], .dir),
    (["s", "1-B"], .dir)]⟩

def firstJob : ReadyJob := ⟨⟨"A", none, [⟨"clang -c a.m", .clang⟩]⟩, "/", "/s/0-A", "/o/A"⟩

def secondJob : ReadyJob := ⟨⟨"B", none, [⟨"clang -c b.m", .clang⟩]⟩, "/", "/s/1-B", "/o/B"⟩

def pairReady : List ReadyJob := [firstJob, secondJob]

def pairInvocation (source : String) : Invocation :=
  ⟨"clang", ["-c", source, "-save-temps=cwd"], .clang, none⟩

def pairLayout : Layout := ⟨["s"], ["o"], fun _ _ => False⟩

/-- A compiler that leaves one entry in its working directory. -/
def leaving (e : String → Entry) : Execution.Launcher := fun _ _ directory t =>
  (t.put (Path.names directory ++ ["u.bc"]) (e directory), .ok ⟨some 0, .empty⟩)

/-- Both compilers leave a file. -/
def filing : Execution.Launcher := leaving fun _ => .file .empty false

theorem jobs_pair : jobs pairTranscript pairSnapshot [] = pairReady.map (·.job) := by decide

theorem prepare_pair : prepare "/" "/s" 0 pairTree (.start "/o") (pairReady.map (·.job)) =
    ((pairTree, ⟨"/o", [("A", none), ("B", none)]⟩), .ok pairReady) := by
  have hmade : ∀ path ∈ ["/o/A", "/o/B", "/s/0-A", "/s/1-B"],
      pairTree.createDirAll path = (pairTree, .ok ()) := by
    have hstands : ∀ path ∈ ["/o/A", "/o/B", "/s/0-A", "/s/1-B"], pairTree.HasDirectory path := by
      decide
    exact fun path hpath => (hstands path hpath).createDirAll_eq
  have hworkA : workDirectory "/s" 0 ⟨"A", none, [⟨"clang -c a.m", .clang⟩]⟩ = "/s/0-A" := by decide
  have hworkB : workDirectory "/s" 1 ⟨"B", none, [⟨"clang -c b.m", .clang⟩]⟩ = "/s/1-B" := by decide
  have hproductA : join "/o" "A" = "/o/A" := by decide
  have hproductB : join "/o" "B" = "/o/B" := by decide
  simp [prepare, pairReady, firstJob, secondJob, ProductTree.ensure, ProductTree.path,
    ProductTree.start, hworkA, hworkB, hproductA, hproductB, hmade,
    ProductTree.recordProduct]

theorem proper_pair : pairTree.Proper := proper_of_entries (by decide) (by decide) (by decide)

theorem no_links_pair (l : Location) (target : String) : pairTree.get? l ≠ some (.link target) := by
  intro hget
  have hmem := mem_entries_of_get? (ne_nil_of_get? hget (by simp)) hget
  simp [pairTree] at hmem

theorem mem_pair {k : Nat} {r : ReadyJob} (hr : pairReady[k]? = some r) :
    (∃ c source, r.job.commands = [c] ∧ Invocation.ofCaptured c = .ok (pairInvocation source)) ∧
      Path.names r.site.work = pairLayout.work k r.job ∧
      pairTree.get? (pairLayout.work k r.job) = some .dir ∧
      pairTree.get? (pairLayout.work k r.job ++ ["u.bc"]) = none := by
  match k with
  | 0 =>
    cases hr
    exact ⟨⟨_, "a.m", rfl, by decide⟩, by decide, by decide, by decide⟩
  | 1 =>
    cases hr
    exact ⟨⟨_, "b.m", rfl, by decide⟩, by decide, by decide, by decide⟩
  | k + 2 => simp [pairReady] at hr

/-- The one command of each job puts an entry in the working directory of the job. -/
theorem trail_pair (e : String → Entry) {k : Nat} {r : ReadyJob} (hr : pairReady[k]? = some r) :
    ∃ c source, trail (leaving e) r.site pairTree r.job.commands = [(pairTree, c)] ∧
      ∀ t, compile (leaving e) t r.site c =
        (t.put (pairLayout.work k r.job ++ ["u.bc"]) (e r.site.work),
          .ok (pairInvocation source, ⟨some 0, .empty⟩)) := by
  obtain ⟨⟨c, source, hcommands, hi⟩, hnames, -⟩ := mem_pair hr
  refine ⟨c, source, by rw [hcommands]; rfl, fun t => ?_⟩
  rw [compile, hi, ← hnames]
  rfl

/-- That command looks at the working directory only and changes nothing else. -/
theorem compile_pair_local (e : String → Entry) {V O : Location → Prop} {k : Nat} {r : ReadyJob}
    (hr : pairReady[k]? = some r) (hV : ∀ l, isWithin l (pairLayout.work k r.job) = true → V l)
    (hO : ∀ l, isWithin l (pairLayout.work k r.job) = true → O l) :
    ∀ p ∈ trail (leaving e) r.site pairTree r.job.commands,
      IsLocal V O (compile (leaving e) · r.site p.2) p.1 := by
  obtain ⟨c, source, htrail, hcompile⟩ := trail_pair e hr
  obtain ⟨-, -, hdir, hnone⟩ := mem_pair hr
  rw [htrail]
  intro p hp
  obtain rfl := List.mem_singleton.1 hp
  simp only [hcompile]
  exact isLocal_put hdir (by simp [hnone]) (by decide) (hV _ (isWithin_self _))
    (hV _ (isWithin_append _ _)) (hO _ (isWithin_append _ _)) _ _

theorem fits_pair : pairLayout.Fits pairTree "/s" "/o" (pairReady.map (·.job)) := by
  have hshared : ∀ top ∈ ["s", "o"], pairLayout.IsShared (pairReady.map (·.job)) [top] := by
    rintro top - k ⟨j, -, hwork | hproduct | hmapped⟩
    · simp [pairLayout, Layout.work, isWithin, List.isPrefixOf] at hwork
    · simp [pairLayout, Layout.product, isWithin, List.isPrefixOf] at hproduct
    · exact hmapped
  have hleads : ∀ top ∈ ["s", "o"],
      pairTree.LeadsThrough (pairLayout.IsShared (pairReady.map (·.job))) (join "/" top) [top] := by
    intro top htop
    have hc : IsComponent top := by
      have hall : ∀ name ∈ ["s", "o"], IsComponent name := by decide
      exact hall top htop
    exact (leadsThrough_root pairTree _).join hc (hshared top htop) (no_links_pair _)
  exact {
    toScratch := hleads "s" (by simp)
    toRoot := hleads "o" (by simp)
    apart := by
      intro i j a b _ _
      simp [pairLayout, Layout.work, Layout.product, isWithin, List.isPrefixOf]
    mapped := fun _ _ _ _ hmapped => hmapped.elim }

theorem confined_pair : ∀ k r, pairReady[k]? = some r →
    ∀ p ∈ trail filing r.site pairTree r.job.commands,
      Confined filing pairLayout (pairReady.map (·.job)) k r p := by
  intro k r hr p hp
  have hjob : (pairReady.map (·.job))[k]? = some r.job := by rw [List.getElem?_map, hr]; rfl
  have hown : ∀ l, isWithin l (pairLayout.work k r.job) = true →
      pairLayout.Owns (pairReady.map (·.job)) k l := fun l hl => ⟨r.job, hjob, .inl hl⟩
  have hlocal := compile_pair_local (fun _ => .file .empty false) hr
    (fun l hl => fits_pair.view_of_owns (by decide) (hown l hl)) hown p hp
  obtain ⟨c, source, htrail, hcompile⟩ : ∃ c source,
      trail filing r.site pairTree r.job.commands = [(pairTree, c)] ∧
        ∀ t, compile filing t r.site c =
          (t.put (pairLayout.work k r.job ++ ["u.bc"]) (.file .empty false),
            .ok (pairInvocation source, ⟨some 0, .empty⟩)) := trail_pair _ hr
  rw [htrail] at hp
  obtain rfl := List.mem_singleton.1 hp
  have hproper : (compile filing pairTree r.site c).1.Proper :=
    (hlocal pairTree proper_pair (Agree.refl _ _)).proper
  have hlinks : ∀ l target, (compile filing pairTree r.site c).1.get? l ≠
      some (.link target) := by
    intro l target
    rw [hcompile, get?_put _ _ _ _ (by simp)]
    split
    · simp
    · exact no_links_pair l target
  refine ⟨hlocal, fun compiled i outcome now heq hnow directory _ => ?_, ?_⟩
  · simp only [heq] at hproper hlinks
    have hnone := hnow.noLinks hproper hlinks
    exact ⟨hnone directory, fun name target hget => absurd hget (hnone _ target)⟩
  · intro compiled i outcome map heq hswift
    rw [hcompile] at heq
    cases heq
    cases hswift

theorem isDone_pair (e : String → Entry) :
    ∀ w ∈ (interleave (leaving e) pairTree (pairReady.map Thread.start) [0, 1, 1, 0]).2,
      w.IsDone := by
  refine isDone_interleave fun k w hw => ?_
  match k with
  | 0 =>
    cases hw
    decide
  | 1 =>
    cases hw
    decide
  | k + 2 => simp [pairReady] at hw

/-- Two jobs of one command each, of which the second is compiled and harvested while what the first
has compiled waits for its harvest. -/
theorem replayJobs_confluent_pair :
    (∀ j ∈ jobs pairTranscript pairSnapshot [], IsComponent j.directory) ∧
    prepare "/" "/s" 0 pairTree (.start "/o") (jobs pairTranscript pairSnapshot []) =
      ((pairTree, ⟨"/o", [("A", none), ("B", none)]⟩), .ok pairReady) ∧
    pairTree.Proper ∧ pairLayout.Fits pairTree "/s" "/o" (jobs pairTranscript pairSnapshot []) ∧
    (∀ k r, pairReady[k]? = some r → ∀ p ∈ trail filing r.site pairTree r.job.commands,
      Confined filing pairLayout (jobs pairTranscript pairSnapshot []) k r p) ∧
    (∀ w ∈ (interleave filing pairTree (pairReady.map Thread.start) [0, 1, 1, 0]).2, w.IsDone) ∧
    total (interleave filing pairTree (pairReady.map Thread.start) [0, 1, 1, 0]).2 =
      (replayJobs filing pairTree pairReady).2 := by
  have hnames : ∀ j ∈ jobs pairTranscript pairSnapshot [], IsComponent j.directory := by
    rw [jobs_pair]
    decide
  have hprepare := prepare_pair
  have hfits := fits_pair
  have hconfined := confined_pair
  have hdone := isDone_pair fun _ => .file .empty false
  rw [← jobs_pair] at hprepare hfits hconfined
  exact ⟨hnames, hprepare, proper_pair, hfits, hconfined, hdone,
    (replayJobs_confluent hnames hprepare proper_pair hfits hconfined hdone).2⟩

/-! ### A link into the product of another job -/

/-- The first compiler leaves a link to where the bitcode of the second goes. -/
def linking : Execution.Launcher :=
  leaving fun directory =>
    if directory = "/s/0-A" then .link "/o/B/u.bc" else .file .empty false

/-- The tree after the first compiler. -/
def linkedTree : FileTree := pairTree.put ["s", "0-A", "u.bc"] (.link "/o/B/u.bc")

/-- The tree after both compilers. -/
def bothTree : FileTree := linkedTree.put ["s", "1-B", "u.bc"] (.file .empty false)

/-- The tree after the second harvest. -/
def movedTree : FileTree := bothTree.relocate ["s", "1-B", "u.bc"] ["o", "B", "u.bc"]

theorem steps_linked : steps "/s/0-A/u.bc" = ["s", "0-A", "u.bc"] ∧
    steps "/o/B/u.bc" = ["o", "B", "u.bc"] := by decide

theorem harvest_leaving {t : FileTree} {source : String} {s : Site} {loc : Location}
    (hfind : t.find? s.work = some (loc, .dir)) (hnames : t.namesIn loc = ["u.bc"]) :
    harvest t s (pairInvocation source) =
      takeFiles .clang s.output t [join s.work "u.bc"] := by
  have hbitcode : isBitcode "u.bc" = true := by decide
  simp [harvest, produced, pairInvocation, Compiler.usesOutputFileMap, temporaries,
    readDir_of_find? hfind, hnames, hbitcode]

theorem takeFiles_leaving {t after : FileTree} {compiler : Compiler}
    {source output target : String} {loc : Location}
    (hkept : keptName? compiler source = some "u.bc") (hjoin : join output "u.bc" = target)
    (hfile : t.isFile source = true) (hplace : t.resolve true target = .ok (.free loc))
    (hmove : t.rename source target = .ok after) :
    takeFiles compiler output t [source] = (after, .ok 1) := by
  have hfree : freeName t output "u.bc" = "u.bc" := by
    rw [freeName, isFree, isPresent, hjoin, find?, hplace]
    rfl
  simp [takeFiles, takeFile, hfile, hkept, hfree, moveFile, hjoin, hmove]

/-- The link leads to no file yet. -/
theorem harvest_linked : harvest linkedTree firstJob.site (pairInvocation "a.m") =
    (linkedTree, .ok 0) := by
  have hjoin : join "/s/0-A" "u.bc" = "/s/0-A/u.bc" := by decide
  have hresolve : linkedTree.resolve true "/s/0-A/u.bc" = .ok (.free ["o", "B", "u.bc"]) := by
    rw [resolve_of_isResolvable (by decide), steps_linked.1]
    simp +decide [walk, linkedTree, pairTree, put, putEntry, get?, List.lookup_cons, maxLinks,
      steps_linked.2]
  have hnot : linkedTree.isFile "/s/0-A/u.bc" = false := by rw [isFile, find?, hresolve]
  rw [harvest_leaving (find?_of_stands (by decide) (by decide)) (by decide)]
  simp [firstJob, takeFiles, takeFile, hjoin, hnot]

theorem harvest_both : harvest bothTree secondJob.site (pairInvocation "b.m") =
    (movedTree, .ok 1) := by
  have hsource : bothTree.resolve false "/s/1-B/u.bc" =
      .ok (.found ["s", "1-B", "u.bc"] (.file .empty false)) :=
    @resolve_of_stands _ ["s", "1-B"] _ _ "u.bc" (by decide) (by decide) (by decide) (by decide)
      (by decide) (by simp)
  have hfree : bothTree.get? (["o", "B"] ++ ["u.bc"]) = none := by decide
  have htarget : ∀ follow, bothTree.resolve follow "/o/B/u.bc" = .ok (.free ["o", "B", "u.bc"]) :=
    fun follow => @resolve_of_stands _ ["o", "B"] _ follow "u.bc" (by decide) (by decide)
      (by decide) (by decide) (by decide) (by rw [hfree]; simp)
  have hjoin : join secondJob.site.work "u.bc" = "/s/1-B/u.bc" := by decide
  rw [harvest_leaving (find?_of_stands (by decide) (by decide)) (by decide), hjoin]
  refine takeFiles_leaving (by decide) (by decide) (isFile_of_resolve_false hsource)
    (htarget true) ?_
  rw [@rename_leaf bothTree _ _ _ _ "u.bc" ["o", "B"] hsource (by simp) (htarget false) (by decide)]
  rfl

/-- Now the link leads to a file. -/
theorem harvest_moved : harvest movedTree firstJob.site (pairInvocation "a.m") =
    (movedTree.relocate ["s", "0-A", "u.bc"] ["o", "A", "u.bc"], .ok 1) := by
  have hsource : movedTree.resolve false "/s/0-A/u.bc" =
      .ok (.found ["s", "0-A", "u.bc"] (.link "/o/B/u.bc")) :=
    @resolve_of_stands _ ["s", "0-A"] _ _ "u.bc" (by decide) (by decide) (by decide) (by decide)
      (by decide) (by simp)
  have hfollowed : movedTree.resolve true "/s/0-A/u.bc" =
      .ok (.found ["o", "B", "u.bc"] (.file .empty false)) := by
    rw [resolve_of_isResolvable (by decide), steps_linked.1]
    simp +decide [walk, movedTree, relocate, bothTree, linkedTree, pairTree, put, putEntry, get?,
      List.lookup_cons, maxLinks, steps_linked.2]
  have hfree : movedTree.get? (["o", "A"] ++ ["u.bc"]) = none := by decide
  have htarget : ∀ follow, movedTree.resolve follow "/o/A/u.bc" = .ok (.free ["o", "A", "u.bc"]) :=
    fun follow => @resolve_of_stands _ ["o", "A"] _ follow "u.bc" (by decide) (by decide)
      (by decide) (by decide) (by decide) (by rw [hfree]; simp)
  have hjoin : join firstJob.site.work "u.bc" = "/s/0-A/u.bc" := by decide
  rw [harvest_leaving (find?_of_stands (by decide) (by decide)) (by decide), hjoin]
  refine takeFiles_leaving (by decide) (by decide) (isFile_iff.2 ⟨_, _, _, hfollowed⟩)
    (htarget true) ?_
  rw [@rename_leaf movedTree _ _ _ _ "u.bc" ["o", "A"] hsource (by simp) (htarget false) (by decide)]
  rfl

theorem compile_linking (t : FileTree) :
    compile linking t firstJob.site ⟨"clang -c a.m", .clang⟩ =
      (t.put ["s", "0-A", "u.bc"] (.link "/o/B/u.bc"),
        .ok (pairInvocation "a.m", ⟨some 0, .empty⟩)) ∧
    compile linking t secondJob.site ⟨"clang -c b.m", .clang⟩ =
      (t.put ["s", "1-B", "u.bc"] (.file .empty false),
        .ok (pairInvocation "b.m", ⟨some 0, .empty⟩)) := by
  have hi : Invocation.ofCaptured ⟨"clang -c a.m", .clang⟩ = .ok (pairInvocation "a.m") := by decide
  have hj : Invocation.ofCaptured ⟨"clang -c b.m", .clang⟩ = .ok (pairInvocation "b.m") := by decide
  have hnames : Path.names "/s/0-A" = ["s", "0-A"] ∧ Path.names "/s/1-B" = ["s", "1-B"] := by decide
  constructor
  · rw [compile, hi]
    simp [linking, leaving, firstJob, hnames]
  · rw [compile, hj]
    simp [linking, leaving, secondJob, hnames]

theorem replayJobs_linking : replayJobs linking pairTree pairReady = (movedTree, ⟨2, 0, 1⟩) := by
  have hfirst : tallyCommand linking pairTree firstJob.site ⟨"clang -c a.m", .clang⟩ =
      (linkedTree, .one true 0) := by
    rw [tallyCommand_eq, (compile_linking pairTree).1, afterCompile]
    simp only
    rw [← linkedTree, harvest_linked]
    rfl
  have hsecond : tallyCommand linking linkedTree secondJob.site ⟨"clang -c b.m", .clang⟩ =
      (movedTree, .one true 1) := by
    rw [tallyCommand_eq, (compile_linking linkedTree).2, afterCompile]
    simp only
    rw [← bothTree, harvest_both]
    rfl
  have hjobs : firstJob.job.commands = [⟨"clang -c a.m", .clang⟩] ∧
      secondJob.job.commands = [⟨"clang -c b.m", .clang⟩] := ⟨rfl, rfl⟩
  simp only [replayJobs, pairReady, hjobs, replayCommands, hfirst, hsecond]
  rfl

theorem interleave_linking :
    interleave linking pairTree (pairReady.map Thread.start) [0, 1, 1, 0] =
      (movedTree.relocate ["s", "0-A", "u.bc"] ["o", "A", "u.bc"],
        [⟨firstJob.site, none, [], ⟨1, 0, 1⟩⟩, ⟨secondJob.site, none, [], ⟨1, 0, 1⟩⟩]) := by
  have hfirst : (Thread.start firstJob).step linking pairTree = (linkedTree,
      ⟨firstJob.site, some (pairInvocation "a.m", ⟨some 0, .empty⟩), [], .zero⟩) := by
    have hcompile := (compile_linking pairTree).1
    simp only [Thread.step, Thread.start, firstJob] at hcompile ⊢
    rw [hcompile]
    rfl
  have hsecond : (Thread.start secondJob).step linking linkedTree = (bothTree,
      ⟨secondJob.site, some (pairInvocation "b.m", ⟨some 0, .empty⟩), [], .zero⟩) := by
    have hcompile := (compile_linking linkedTree).2
    simp only [Thread.step, Thread.start, secondJob] at hcompile ⊢
    rw [hcompile]
    rfl
  have hsecond' : Thread.step linking
      ⟨secondJob.site, some (pairInvocation "b.m", ⟨some 0, .empty⟩), [], .zero⟩ bothTree =
        (movedTree, ⟨secondJob.site, none, [], ⟨1, 0, 1⟩⟩) := by
    simp only [Thread.step, harvest_both]
    rfl
  have hfirst' : Thread.step linking
      ⟨firstJob.site, some (pairInvocation "a.m", ⟨some 0, .empty⟩), [], .zero⟩ movedTree =
        (movedTree.relocate ["s", "0-A", "u.bc"] ["o", "A", "u.bc"],
          ⟨firstJob.site, none, [], ⟨1, 0, 1⟩⟩) := by
    simp only [Thread.step, harvest_moved]
    rfl
  simp [interleave, turn, pairReady, hfirst, hsecond, hsecond', hfirst']

/-- If the second job is compiled and harvested before the link is looked at, there is one more file
to take. -/
theorem linked_harvest_depends_on_order :
    (∀ j ∈ jobs pairTranscript pairSnapshot [], IsComponent j.directory) ∧
    prepare "/" "/s" 0 pairTree (.start "/o") (jobs pairTranscript pairSnapshot []) =
      ((pairTree, ⟨"/o", [("A", none), ("B", none)]⟩), .ok pairReady) ∧
    (∀ k r, pairReady[k]? = some r → ∀ p ∈ trail linking r.site pairTree r.job.commands,
      IsLocal (fun l => isWithin l (pairLayout.work k r.job) = true)
        (fun l => isWithin l (pairLayout.work k r.job) = true) (compile linking · r.site p.2) p.1) ∧
    (∀ w ∈ (interleave linking pairTree (pairReady.map Thread.start) [0, 1, 1, 0]).2, w.IsDone) ∧
    (replayJobs linking pairTree pairReady).1.get? ["o", "A", "u.bc"] = none ∧
    (replayJobs linking pairTree pairReady).2 = ⟨2, 0, 1⟩ ∧
    (interleave linking pairTree (pairReady.map Thread.start) [0, 1, 1, 0]).1.get?
      ["o", "A", "u.bc"] = some (.link "/o/B/u.bc") ∧
    total (interleave linking pairTree (pairReady.map Thread.start) [0, 1, 1, 0]).2 = ⟨2, 0, 2⟩ := by
  have hnames : ∀ j ∈ jobs pairTranscript pairSnapshot [], IsComponent j.directory := by
    rw [jobs_pair]
    decide
  refine ⟨hnames, jobs_pair ▸ prepare_pair, fun k r hr => ?_, isDone_pair _, ?_, ?_, ?_, ?_⟩
  · exact compile_pair_local _ hr (fun _ hl => hl) fun _ hl => hl
  · rw [replayJobs_linking]
    decide
  · rw [replayJobs_linking]
  · rw [interleave_linking]
    decide
  · rw [interleave_linking]
    rfl

end BitcodeReplay.Plan
