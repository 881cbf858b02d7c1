import BitcodeReplay.Proofs.FileTree.Making
import BitcodeReplay.Proofs.ProductTree.Consolidate

/-!
What merging does to directories of any depth, whatever the dependencies are: they may have cycles,
and targets may share a directory. A copy takes files from below one directory to the same names
below another. It replaces files and adds to them, and all else stays as it is, also when it fails
halfway.
-/

namespace BitcodeReplay

open Path FileTree

namespace FileTree

variable {t made after : FileTree} {source target names : Location}

/-- Below a place stand regular files and directories only. -/
def PlainBelow (t : FileTree) (top : Location) : Prop :=
  ∀ rest e, t.get? (top ++ rest) = some e →
    e = .dir ∨ ∃ bytes executable, e = .file bytes executable

/-- A regular file stands at a place. -/
def HoldsFile (t : FileTree) (l : Location) : Prop :=
  ∃ bytes executable, t.get? l = some (.file bytes executable)

theorem PlainBelow.linkFree (h : t.PlainBelow target) : t.LinkFree target := by
  intro name rest link hlink
  rcases h _ _ hlink with hdir | ⟨bytes, executable, hfile⟩
  · cases hdir
  · cases hfile

/-- No place is below both. -/
def Apart (source target : Location) : Prop := ∀ rest rest', source ++ rest ≠ target ++ rest'

theorem apart_siblings {base : Location} {a b : String} (h : a ≠ b) :
    Apart (base ++ [a]) (base ++ [b]) := by
  intro rest rest' heq
  simp only [List.append_assoc, List.singleton_append, List.append_cancel_left_eq,
    List.cons.injEq] at heq
  exact h heq.1

/-- Two directories below which a copy can be made. -/
structure CanCopy (t : FileTree) (sourcePath targetPath : String) (source target : Location) :
    Prop where
  proper : t.Proper
  leadsSource : ∃ left, t.LeadsTo sourcePath left source
  leadsTarget : ∃ left, t.LeadsTo targetPath left target
  plainSource : t.PlainBelow source
  plainTarget : t.PlainBelow target
  apart : Apart source target

/-- What copying from below one directory to below another has done: it has put files of the source
in the place of files or of nothing, and made directories. -/
structure Takes (t made : FileTree) (source target : Location) : Prop where
  proper : made.Proper
  keepsWays : KeepsWays t made
  keepsFiles : ∀ l, t.HoldsFile l → made.HoldsFile l
  outside : ∀ l, (∀ name rest, l ≠ target ++ name :: rest) → made.get? l = t.get? l
  origin : ∀ rest e, made.get? (target ++ rest) = some e →
    t.get? (target ++ rest) = some e ∨ e = .dir ∨ t.get? (source ++ rest) = some e

namespace Takes

theorem refl (hproper : t.Proper) (source target : Location) : Takes t t source target :=
  ⟨hproper, KeepsWays.refl t, fun _ h => h, fun _ _ => rfl, fun _ _ h => .inl h⟩

theorem get?_source (h : Takes t made source target) (hapart : Apart source target)
    (rest : Location) : made.get? (source ++ rest) = t.get? (source ++ rest) :=
  h.outside _ fun name rest' => hapart rest (name :: rest')

theorem trans (h : Takes t made source target) (h' : Takes made after source target)
    (hapart : Apart source target) : Takes t after source target where
  proper := h'.proper
  keepsWays := h.keepsWays.trans h'.keepsWays
  keepsFiles := fun l hl => h'.keepsFiles l (h.keepsFiles l hl)
  outside := fun l hl => (h'.outside l hl).trans (h.outside l hl)
  origin := by
    intro rest e he
    rcases h'.origin rest e he with hmade | hdir | hsource
    · exact h.origin rest e hmade
    · exact .inr (.inl hdir)
    · exact .inr (.inr (h.get?_source hapart rest ▸ hsource))

theorem canCopy {sourcePath targetPath : String} (h : Takes t made source target)
    (hcan : CanCopy t sourcePath targetPath source target) :
    CanCopy made sourcePath targetPath source target where
  proper := h.proper
  leadsSource := hcan.leadsSource.imp fun _ hlead => hlead.of_keepsWays h.keepsWays
  leadsTarget := hcan.leadsTarget.imp fun _ hlead => hlead.of_keepsWays h.keepsWays
  plainSource := by
    intro rest e he
    rw [h.get?_source hcan.apart] at he
    exact hcan.plainSource rest e he
  plainTarget := by
    intro rest e he
    rcases h.origin rest e he with htarget | hdir | hsource
    · exact hcan.plainTarget rest e htarget
    · exact .inl hdir
    · exact hcan.plainSource rest e hsource
  apart := hcan.apart

end Takes

/-! ### One entry -/

namespace CanCopy

variable {sourcePath targetPath : String} (hcan : CanCopy t sourcePath targetPath source target)
  (hc : ∀ name ∈ names, IsComponent name)
include hcan hc

/-- Directories are made below the target only. -/
theorem takes_createDirAll :
    Takes t (t.createDirAll (join targetPath (String.intercalate "/" names))).1 source target := by
  obtain ⟨left, hlead⟩ := hcan.leadsTarget
  have hmade := hlead.get?_createDirAll_below hcan.proper.wellFormed hcan.plainTarget.linkFree
    (names_join_intercalate targetPath hc) hc
  refine ⟨proper_createDirAll hcan.proper _, (makes_createDirAll t _).keepsWays, ?_, ?_, ?_⟩
  · rintro l ⟨bytes, executable, hfile⟩
    rcases hmade l with hsame | ⟨-, hnone, -⟩
    · exact ⟨bytes, executable, hsame.trans hfile⟩
    · rw [hnone] at hfile
      cases hfile
  · intro l hl
    rcases hmade l with hsame | ⟨⟨name, rest, hbelow⟩, -⟩
    · exact hsame
    · exact absurd hbelow (hl name rest)
  · intro rest e he
    rcases hmade (target ++ rest) with hsame | ⟨-, -, hdir⟩
    · exact .inl (hsame ▸ he)
    · rw [he] at hdir
      exact .inr (.inl (Option.some.inj hdir))

/-- A file is copied from the place of its names below the source to that below the target. -/
theorem copyFile_eq (hne : names ≠ [])
    (hcopy : t.copyFile (join sourcePath (String.intercalate "/" names))
      (join targetPath (String.intercalate "/" names)) = .ok made) :
    ∃ bytes executable, t.get? (source ++ names) = some (.file bytes executable) ∧
      t.TakesFile (join targetPath (String.intercalate "/" names)) (target ++ names) ∧
      made = t.put (target ++ names) (.file bytes executable) := by
  obtain ⟨left, hsource⟩ := hcan.leadsSource
  obtain ⟨left', htarget⟩ := hcan.leadsTarget
  have hplace : ∀ {p : Place}, t.resolve true (join targetPath (String.intercalate "/" names)) =
      .ok p → p.loc = target ++ names := fun hp => htarget.leadsThrough.resolve_below
    hcan.plainTarget.linkFree (names_join_intercalate targetPath hc) hne hc hp
  obtain ⟨loc, bytes, executable, hfound, hcases⟩ := copyFile_cases hcopy
  obtain rfl : loc = source ++ names := hsource.leadsThrough.resolve_below
    hcan.plainSource.linkFree (names_join_intercalate sourcePath hc) hne hc hfound
  refine ⟨bytes, executable, get?_of_resolve hfound (by simp), ?_⟩
  rcases hcases with ⟨dest, htakes, rfl⟩ | ⟨⟨dest, kind, hspecial⟩, -⟩
  · obtain rfl : dest = target ++ names := htarget.leadsThrough.takesFile_below
      hcan.plainTarget.linkFree (names_join_intercalate targetPath hc) hne hc htakes
    exact ⟨htakes, by rw [if_neg (hcan.apart names names).symm]⟩
  · obtain rfl : dest = target ++ names := hplace hspecial
    rcases hcan.plainTarget names _ (get?_of_resolve hspecial (by simp)) with hdir | ⟨b, x, hfile⟩
    · cases hdir
    · cases hfile

theorem takes_copyFile (hne : names ≠ [])
    (hcopy : t.copyFile (join sourcePath (String.intercalate "/" names))
      (join targetPath (String.intercalate "/" names)) = .ok made) :
    Takes t made source target ∧ made.HoldsFile (target ++ names) := by
  obtain ⟨bytes, executable, hfile, htakes, rfl⟩ := hcan.copyFile_eq hc hne hcopy
  have hget : ∀ l, (t.put (target ++ names) (.file bytes executable)).get? l =
      if l = target ++ names then some (.file bytes executable) else t.get? l :=
    fun l => get?_put _ _ _ _ htakes.get?.1
  refine ⟨⟨hcan.proper.put_file htakes, htakes.keepsWays, ?_, ?_, ?_⟩,
    bytes, executable, by rw [hget, if_pos rfl]⟩
  · rintro l ⟨b, x, hl⟩
    by_cases heq : l = target ++ names
    · exact ⟨bytes, executable, by rw [hget, if_pos heq]⟩
    · exact ⟨b, x, by rw [hget, if_neg heq, hl]⟩
  · intro l hl
    obtain ⟨name, rest, rfl⟩ := List.exists_cons_of_ne_nil hne
    rw [hget, if_neg (hl name rest)]
  · intro rest e he
    rw [hget] at he
    split at he
    next heq => 
      cases he
      rw [List.append_cancel_left heq]
      exact .inr (.inr hfile)
    next => exact .inl he

end CanCopy

end FileTree

namespace ProductTree

variable {t made : FileTree} {p : ProductTree} {g : Graph} {embedded : List String}
  {base loc out rest : Location} {sourcePath targetPath source target product : String}
  {steps : List Step} {result : Except WriteFailure Unit}

/-! ### A directory -/

/-- Copying entries takes what it copies from the source, also where it fails. When it does not,
every file among the entries has been copied. -/
theorem takes_copyEntries {entries : List (Location × Entry)}
    (hcan : CanCopy t sourcePath targetPath loc out)
    (hentries : ∀ entry ∈ entries, entry.1 ≠ [] ∧ ∀ name ∈ entry.1, IsComponent name) :
    Takes t (copyEntries sourcePath targetPath t entries).1 loc out ∧
      ((copyEntries sourcePath targetPath t entries).2 = .ok () →
        ∀ entry ∈ entries, entry.2 ≠ .dir →
          (copyEntries sourcePath targetPath t entries).1.HoldsFile (out ++ entry.1)) := by
  induction entries generalizing t with
  | nil => exact ⟨.refl hcan.proper loc out, fun _ _ h => absurd h List.not_mem_nil⟩
  | cons entry rest ih =>
    obtain ⟨names, e⟩ := entry
    obtain ⟨hne, hc⟩ := hentries _ List.mem_cons_self
    have hrest : ∀ entry ∈ rest, entry.1 ≠ [] ∧ ∀ name ∈ entry.1, IsComponent name :=
      fun entry hentry => hentries entry (List.mem_cons_of_mem _ hentry)
    have hmade := hcan.takes_createDirAll hc
    unfold copyEntries
    simp only
    split
    · split
      next made heq =>
        rw [heq] at hmade
        obtain ⟨htakes, hfiles⟩ := ih (hmade.canCopy hcan) hrest
        refine ⟨hmade.trans htakes hcan.apart, fun hok entry hentry hdir => ?_⟩
        rcases List.mem_cons.1 hentry with rfl | hentry
        · exact absurd rfl hdir
        · exact hfiles hok entry hentry hdir
      next made e heq =>
        rw [heq] at hmade
        exact ⟨hmade, fun hok => by cases hok⟩
    · split
      next made hcopy =>
        obtain ⟨hfirst, hfile⟩ := hcan.takes_copyFile hc hne hcopy
        obtain ⟨htakes, hfiles⟩ := ih (hfirst.canCopy hcan) hrest
        refine ⟨hfirst.trans htakes hcan.apart, fun hok entry hentry hdir => ?_⟩
        rcases List.mem_cons.1 hentry with rfl | hentry
        · exact htakes.keepsFiles _ hfile
        · exact hfiles hok entry hentry hdir
      next => exact ⟨.refl hcan.proper loc out, fun hok => by cases hok⟩

/-- Every product has a directory of its own below the root, which holds regular files and
directories only. -/
structure IsPlain (p : ProductTree) (t : FileTree) (base : Location) : Prop where
  component : ∀ product ∈ p.names, IsComponent product
  found : ∀ product ∈ p.names,
    t.resolve false (p.path product) = .ok (.found (base ++ [product]) .dir)
  plain : ∀ product ∈ p.names, t.PlainBelow (base ++ [product])

namespace IsPlain

variable (h : p.IsPlain t base)
include h

theorem find?_eq (hproduct : product ∈ p.names) :
    t.find? (p.path product) = some (base ++ [product], .dir) :=
  find?_of_resolve_dir (h.found product hproduct)

theorem canCopy (hproper : t.Proper) (hs : source ∈ p.names) (ht : target ∈ p.names)
    (hne : source ≠ target) :
    CanCopy t (p.path source) (p.path target) (base ++ [source]) (base ++ [target]) where
  proper := hproper
  leadsSource := leadsTo_of_find? (h.find?_eq hs)
  leadsTarget := leadsTo_of_find? (h.find?_eq ht)
  plainSource := h.plain source hs
  plainTarget := h.plain target ht
  apart := apart_siblings hne

theorem of_takes (hproper : t.Proper) (hs : source ∈ p.names) (ht : target ∈ p.names)
    (hne : source ≠ target) (htakes : Takes t made (base ++ [source]) (base ++ [target])) :
    p.IsPlain made base where
  component := h.component
  found := fun product hproduct =>
    resolve_of_keepsWays htakes.keepsWays (h.found product hproduct) fun hdir => absurd rfl hdir
  plain := by
    intro product hproduct
    by_cases heq : product = target
    · exact heq ▸ (htakes.canCopy (h.canCopy hproper hs ht hne)).plainTarget
    · intro rest e he
      rw [htakes.outside _ fun name rest' => apart_siblings heq rest (name :: rest')] at he
      exact h.plain product hproduct rest e he

/-- A directory is copied as far as it is listed, if the copy does not fail. -/
theorem takes_copyTree (hproper : t.Proper) (hs : source ∈ p.names) (ht : target ∈ p.names)
    (hne : source ≠ target)
    (hcopy : copyTree t (p.path source) (p.path target) = (made, result)) :
    Takes t made (base ++ [source]) (base ++ [target]) ∧
      (result = .ok () → ∀ rest, t.HoldsFile (base ++ [source] ++ rest) →
        isListed (p.path source) rest = true → made.HoldsFile (base ++ [target] ++ rest)) := by
  have hfind := h.find?_eq hs
  have hentries : ∀ entry ∈ t.listedBelow (p.path source),
      entry.1 ≠ [] ∧ ∀ name ∈ entry.1, IsComponent name := by
    intro entry hentry
    obtain ⟨hnil, hget⟩ := get?_of_mem_entriesBelow hfind (mem_listedBelow_iff.1 hentry).1
    have hstands : t.get? (base ++ [source] ++ entry.1) ≠ none := by
      rw [hget]
      exact Option.some_ne_none _
    exact ⟨hnil, fun name hname => hproper.isComponent hstands hname⟩
  have hcopied := takes_copyEntries (h.canCopy hproper hs ht hne) hentries
  rw [copyTree] at hcopy
  rw [hcopy] at hcopied
  refine ⟨hcopied.1, fun hok rest hfile hlisted => ?_⟩
  obtain ⟨bytes, executable, hget⟩ := hfile
  have hnil : rest ≠ [] := by
    rintro rfl
    obtain ⟨left, hlead⟩ := leadsTo_of_find? hfind
    rw [List.append_nil, hlead.get?_eq_dir hproper.wellFormed] at hget
    cases hget
  have hmem : (rest, .file bytes executable) ∈ t.listedBelow (p.path source) :=
    mem_listedBelow_iff.2 ⟨(mem_entriesBelow_iff hproper.wellFormed hfind).2 ⟨hnil, hget⟩, hlisted⟩
  exact hcopied.2 hok _ hmem (by simp)

end IsPlain

/-! ### All copies -/

/-- What copies between the directories of products have done, to the end or up to one that fails. -/
structure Merged (p : ProductTree) (base : Location) (t : FileTree) (steps : List Step)
    (made : FileTree) (result : Except WriteFailure Unit) : Prop where
  /-- No file is gone. -/
  keepsFiles : ∀ l, t.HoldsFile l → made.HoldsFile l
  /-- Nothing has changed but below the targets of the copies. -/
  outside : ∀ l, (∀ source target, .copy source target ∈ steps →
    ∀ name rest, l ≠ base ++ [target] ++ name :: rest) → made.get? l = t.get? l
  /-- A file has been there before, or the same file had the same names below the source of a copy
  when its turn came. -/
  origin : ∀ product rest bytes executable,
    made.get? (base ++ [product] ++ rest) = some (.file bytes executable) →
      t.get? (base ++ [product] ++ rest) = some (.file bytes executable) ∨
        ∃ source done later, steps = done ++ .copy source product :: later ∧
          (p.runSteps t done).1.get? (base ++ [source] ++ rest) = some (.file bytes executable)
  /-- If no copy has failed, the files of a source have been copied as far as they are listed. -/
  complete : result = .ok () → ∀ source target, .copy source target ∈ steps →
    ∀ rest, t.HoldsFile (base ++ [source] ++ rest) → isListed (p.path source) rest = true →
      made.HoldsFile (base ++ [target] ++ rest)

namespace Merged

theorem nil (p : ProductTree) (base : Location) (t : FileTree) : p.Merged base t [] t (.ok ()) where
  keepsFiles := fun _ h => h
  outside := fun _ _ => rfl
  origin := fun _ _ _ _ h => .inl h
  complete := fun _ _ _ h => absurd h List.not_mem_nil

theorem missing (h : p.Merged base t steps made result) (product dependency : String) :
    p.Merged base t (.missing product dependency :: steps) made result where
  keepsFiles := h.keepsFiles
  outside := fun l hl => h.outside l fun source target hstep =>
    hl source target (List.mem_cons_of_mem _ hstep)
  origin := by
    intro product rest bytes executable hfile
    refine (h.origin product rest bytes executable hfile).imp_right ?_
    rintro ⟨source, done, later, rfl, hsource⟩
    exact ⟨source, _ :: done, later, rfl, hsource⟩
  complete := by
    intro hok source target hstep
    exact h.complete hok source target ((List.mem_cons.1 hstep).resolve_left nofun)

/-- A file that a copy has left is not new, or has been copied. -/
theorem origin_of_takes (htakes : Takes t made (base ++ [source]) (base ++ [target]))
    {bytes : ByteArray} {executable : Bool}
    (hfile : made.get? (base ++ [product] ++ rest) = some (.file bytes executable)) :
    t.get? (base ++ [product] ++ rest) = some (.file bytes executable) ∨
      product = target ∧ t.get? (base ++ [source] ++ rest) = some (.file bytes executable) := by
  by_cases heq : product = target
  · subst heq
    rcases htakes.origin rest _ hfile with hsame | hdir | hsource
    · exact .inl hsame
    · cases hdir
    · exact .inr ⟨rfl, hsource⟩
  · rw [htakes.outside _ fun name rest' => apart_siblings heq rest (name :: rest')] at hfile
    exact .inl hfile

theorem failed (htakes : Takes t made (base ++ [source]) (base ++ [target])) (steps : List Step)
    (e : WriteFailure) : p.Merged base t (.copy source target :: steps) made (.error e) where
  keepsFiles := htakes.keepsFiles
  outside := fun l hl => htakes.outside l (hl source target List.mem_cons_self)
  origin := by
    intro product rest bytes executable hfile
    refine (origin_of_takes htakes hfile).imp_right ?_
    rintro ⟨rfl, hsource⟩
    exact ⟨source, [], steps, rfl, hsource⟩
  complete := nofun

theorem copy {after : FileTree} (h : p.Merged base made steps after result)
    (hcopy : copyTree t (p.path source) (p.path target) = (made, .ok ()))
    (htakes : Takes t made (base ++ [source]) (base ++ [target]))
    (hfiles : ∀ rest, t.HoldsFile (base ++ [source] ++ rest) →
      isListed (p.path source) rest = true → made.HoldsFile (base ++ [target] ++ rest)) :
    p.Merged base t (.copy source target :: steps) after result where
  keepsFiles := fun l hl => h.keepsFiles l (htakes.keepsFiles l hl)
  outside := by
    intro l hl
    rw [h.outside l fun source' target' hstep => hl source' target' (List.mem_cons_of_mem _ hstep),
      htakes.outside l (hl source target List.mem_cons_self)]
  origin := by
    intro product rest bytes executable hfile
    rcases h.origin product rest bytes executable hfile with
      hmade | ⟨other, done, later, rfl, hother⟩
    · refine (origin_of_takes htakes hmade).imp_right ?_
      rintro ⟨rfl, hsource⟩
      exact ⟨source, [], steps, rfl, hsource⟩
    · exact .inr ⟨other, .copy source target :: done, later, rfl, by rwa [runSteps_copy hcopy]⟩
  complete := by
    intro hok other target' hstep rest hfile hlisted
    rcases List.mem_cons.1 hstep with heq | hstep
    · cases heq
      exact h.keepsFiles _ (hfiles rest hfile hlisted)
    · exact h.complete hok other target' hstep rest (htakes.keepsFiles _ hfile) hlisted

end Merged

/-- What the steps have done, in every outcome. -/
theorem IsPlain.merged (h : p.IsPlain t base) (hproper : t.Proper)
    (hsteps : ∀ source target, .copy source target ∈ steps →
      source ∈ p.names ∧ target ∈ p.names ∧ source ≠ target) :
    p.Merged base t steps (p.runSteps t steps).1 (p.runSteps t steps).2 := by
  induction steps generalizing t with
  | nil => exact .nil p base t
  | cons step rest ih =>
    have hrest : ∀ source target, .copy source target ∈ rest →
        source ∈ p.names ∧ target ∈ p.names ∧ source ≠ target :=
      fun source target hmem => hsteps source target (List.mem_cons_of_mem _ hmem)
    cases step with
    | missing product dependency => exact (ih h hproper hrest).missing product dependency
    | copy source target =>
      obtain ⟨hs, ht, hne⟩ := hsteps source target List.mem_cons_self
      cases hcopy : copyTree t (p.path source) (p.path target) with
      | mk made result =>
        obtain ⟨htakes, hfiles⟩ := h.takes_copyTree hproper hs ht hne hcopy
        cases result with
        | error e =>
          rw [runSteps_copy_error hcopy]
          exact .failed htakes rest e
        | ok =>
          rw [runSteps_copy hcopy]
          exact (ih (h.of_takes hproper hs ht hne htakes) htakes.proper hrest).copy hcopy htakes
            (hfiles rfl)

/-! ### Which copies are made -/

/-- The targets that the node of a product depends on. -/
def dependenciesOf (p : ProductTree) (g : Graph) (product : String) : List Pif.Target :=
  (p.node? g product).elim [] g.dependencies

/-- Whether a product asks for a dependency: it is not embedded, and its directory, if it has one,
is not that of the product. -/
def asksFor (p : ProductTree) (embedded : List String) (product : String) (u : Pif.Target) : Bool :=
  !isEmbedded embedded u && p.directory? u != some product

/-- A product takes files from another one, in the directory of which a direct dependency lives that
is not embedded. -/
def IsSource (p : ProductTree) (g : Graph) (embedded : List String) (product source : String) :
    Prop :=
  ∃ u ∈ p.dependenciesOf g product,
    isEmbedded embedded u = false ∧ p.directory? u = some source ∧ source ≠ product

theorem mem_dependenciesOf {u : Pif.Target} : u ∈ p.dependenciesOf g product ↔
    ∃ n, p.node? g product = some n ∧ u ∈ g.dependencies n := by
  rw [dependenciesOf]
  cases p.node? g product <;> simp

theorem copy_mem_steps_iff : .copy source target ∈ p.steps g embedded ↔
    target ∈ p.mergeOrder g ∧ p.IsSource g embedded target source := by
  rw [mem_steps]
  constructor
  · rintro ⟨product, hproduct, n, u, hnode, hu, hstep⟩
    obtain ⟨hplain, ⟨-, hmissing⟩ | ⟨found, hfound, hne, hcopy⟩⟩ := step?_eq_some_iff.1 hstep
    · cases hmissing
    · cases hcopy
      exact ⟨hproduct, u, mem_dependenciesOf.2 ⟨n, hnode, hu⟩, hplain, hfound, hne⟩
  · rintro ⟨htarget, u, hu, hplain, hfound, hne⟩
    obtain ⟨n, hnode, hu⟩ := mem_dependenciesOf.1 hu
    exact ⟨target, htarget, n, u, hnode, hu,
      step?_eq_some_iff.2 ⟨hplain, .inr ⟨source, hfound, hne, rfl⟩⟩⟩

theorem isSome_step? (p : ProductTree) (embedded : List String) (product : String)
    (u : Pif.Target) : (p.step? embedded product u).isSome = p.asksFor embedded product u := by
  rw [step?, asksFor]
  cases isEmbedded embedded u with
  | true => rfl
  | false =>
    cases p.directory? u with
    | none => rfl
    | some source => by_cases h : source = product <;> simp [h]

/-- Each product with each dependency that it asks for. -/
def asked (p : ProductTree) (g : Graph) (embedded : List String) : List (String × Pif.Target) :=
  (p.mergeOrder g).flatMap fun product =>
    ((p.dependenciesOf g product).filter (p.asksFor embedded product)).map (product, ·)

theorem length_stepsOf (p : ProductTree) (g : Graph) (embedded : List String) (product : String) :
    (p.stepsOf g embedded product).length =
      ((p.dependenciesOf g product).filter (p.asksFor embedded product)).length := by
  rw [stepsOf, dependenciesOf]
  cases p.node? g product with
  | none => rfl
  | some n =>
    simp only [List.length_filterMap_eq_countP, List.countP_eq_length_filter, isSome_step?,
      Option.elim_some]

/-- There is one step for each dependency that a product asks for. -/
theorem length_steps (p : ProductTree) (g : Graph) (embedded : List String) :
    (p.steps g embedded).length = (p.asked g embedded).length := by
  rw [steps, asked, List.length_flatMap, List.length_flatMap]
  simp only [List.length_map, length_stepsOf]

/-- Every step is counted as a directory that is copied or as one that is missing. -/
theorem merged_add_missing {after : FileTree} {q : ProductTree} {done : Consolidation}
    (h : consolidate t p g embedded = ((after, q), .ok done)) :
    done.merged + done.missing = (p.steps g embedded).length := by
  rw [consolidate] at h
  split at h
  · cases h
  · split at h
    · cases h
    · cases h
      simpa using (List.length_eq_countP_add_countP isCopy).symm

/-- Merging the directories of products, whatever depends on what, and however far it comes. Each
product has one turn at most. No file is gone, and nothing has changed but below the directories of
products; that of a product that takes files from no other is as it was. A file that is there
afterwards has been there before, or had the same names in the directory of a source when that was
copied. If no copy fails, a product has a file wherever a source had one before, as far as that was
in a directory that can be opened. And each dependency that a product asks for is counted, as merged
or as missing. -/
theorem merging_keeps_files (ht : t.Proper) (hplain : p.IsPlain t base)
    (hrun : p.runSteps t (p.steps g embedded) = (made, result)) :
    (p.mergeOrder g).Nodup ∧ p.mergeOrder g ⊆ p.names ∧
      (∀ l, t.HoldsFile l → made.HoldsFile l) ∧
      (∀ l, (∀ product ∈ p.names, ∀ name rest, l ≠ base ++ [product] ++ name :: rest) →
        made.get? l = t.get? l) ∧
      (∀ product ∈ p.names, (∀ source, ¬ p.IsSource g embedded product source) →
        ∀ rest, made.get? (base ++ [product] ++ rest) = t.get? (base ++ [product] ++ rest)) ∧
      (∀ product ∈ p.names, ∀ rest bytes executable,
        made.get? (base ++ [product] ++ rest) = some (.file bytes executable) →
          t.get? (base ++ [product] ++ rest) = some (.file bytes executable) ∨
            ∃ source done later, p.IsSource g embedded product source ∧
              p.steps g embedded = done ++ .copy source product :: later ∧
              (p.runSteps t done).1.get? (base ++ [source] ++ rest) =
                some (.file bytes executable)) ∧
      (result = .ok () → ∀ product ∈ p.mergeOrder g,
        ∀ source, p.IsSource g embedded product source → ∀ rest, t.HoldsFile (base ++ [source] ++ rest) → isListed (p.path source) rest = true →
          made.HoldsFile (base ++ [product] ++ rest)) ∧
      ∀ after q done, consolidate t p g embedded = ((after, q), .ok done) →
        done.merged + done.missing = (p.asked g embedded).length := by
  have hmerged : p.Merged base t (p.steps g embedded) (p.runSteps t (p.steps g embedded)).1
      (p.runSteps t (p.steps g embedded)).2 := hplain.merged ht fun _ _ => names_of_mem_steps
  rw [hrun] at hmerged
  refine ⟨nodup_mergeOrder p g, mergeOrder_subset p g, hmerged.keepsFiles, ?_, ?_, ?_, ?_, ?_⟩
  · exact fun l hl => hmerged.outside l fun source target hstep =>
      hl target (names_of_mem_steps hstep).2.1
  · intro product _ hnone rest
    refine hmerged.outside _ fun source target hstep name rest' => ?_
    have hne : product ≠ target := by
      rintro rfl
      exact hnone source (copy_mem_steps_iff.1 hstep).2
    exact apart_siblings hne rest (name :: rest')
  · intro product _ rest bytes executable hfile
    refine (hmerged.origin product rest bytes executable hfile).imp_right ?_
    rintro ⟨source, done, later, heq, hsource⟩
    have hstep : .copy source product ∈ p.steps g embedded := by simp [heq]
    exact ⟨source, done, later, (copy_mem_steps_iff.1 hstep).2, heq, hsource⟩
  · exact fun hok product hproduct source hsource =>
      hmerged.complete hok source product (copy_mem_steps_iff.2 ⟨hproduct, hsource⟩)
  · exact fun after q done hdone => (merged_add_missing hdone).trans (length_steps p g embedded)

/-! ### A library with a file in a directory of its own -/

def nestedTree : FileTree :=
  ⟨[(["out"], .dir), (["out", "App"], .dir), (["out", "Core"], .dir), (["out", "Core", "s"], .dir),
    (["out", "Core", "s", "a.bc"], .file .empty false)]⟩

/-- An app and the library, below a root whose path is as long as one likes. -/
def pairAt (n : Nat) : ProductTree := ⟨slashed n "out", [("App", some "A"), ("Core", some "C")]⟩

theorem steps_pairAt (n : Nat) : (pairAt n).steps linkedGraph [] = [.copy "Core" "App"] :=
  steps_linkedGraph _ (by decide)

theorem path_pairAt (n : Nat) (hc : IsComponent product) :
    (pairAt n).path product = slashed n (join "out" product) :=
  join_slashed n (by decide) (isAbsolute_of_isComponent hc)

theorem proper_nestedTree : nestedTree.Proper :=
  proper_of_entries (by decide) (by decide) (by decide)

theorem leadsTo_root {n : Nat} (hdir : t.get? ["out"] = some .dir) :
    t.LeadsTo (pairAt n).root maxLinks ["out"] :=
  leadsTo_of_names ((names_slashed n "out").trans (by decide)) (by decide) (by decide) hdir

theorem isPlain_nestedTree {n : Nat} (hn : n ≤ 4086) : (pairAt n).IsPlain nestedTree ["out"] where
  component := by
    intro product hproduct
    have hall : ∀ name ∈ ["App", "Core"], IsComponent name := by decide
    exact hall product hproduct
  found := by
    intro product hproduct
    have hall : ∀ name ∈ ["App", "Core"], IsComponent name ∧ IsResolvable (join "out" name) ∧
        (join "out" name).utf8ByteSize ≤ 8 ∧ ¬ maxName < name.utf8ByteSize ∧
        nestedTree.get? (["out"] ++ [name]) = some .dir := by decide
    obtain ⟨hc, hpath, hsize, hshort, hget⟩ := hall product hproduct
    have hresolvable : IsResolvable ((pairAt n).path product) := by
      rw [path_pairAt n hc]
      refine isResolvable_slashed hpath (show _ ≤ 4095 from ?_)
      omega
    exact resolve_join_of_get? (leadsTo_root rfl) hc hresolvable hshort hget (by simp)
  plain := by
    intro product _ rest e he
    have hall : ∀ entry ∈ nestedTree.entries,
        entry.2 = .dir ∨ entry.2 = .file .empty false := by decide
    rcases hall _ (mem_entries_of_get? (by simp) he) with hdir | hfile
    · exact .inl hdir
    · exact .inr ⟨_, _, hfile⟩

/-- In the directory of the app one is made that is called like the library's own. -/
theorem createDirAll_nested {n : Nat} (hn : n ≤ 4086) :
    nestedTree.createDirAll (join ((pairAt n).path "App") "s") =
      (nestedTree.put ["out", "App", "s"] .dir, .ok ()) := by
  have hlead : nestedTree.LeadsTo ((pairAt n).path "App") maxLinks (["out"] ++ ["App"]) :=
    (leadsTo_root rfl).join_dir (by decide) (by decide) rfl
  have hresolvable : IsResolvable (join ((pairAt n).path "App") "s") := by
    rw [path_pairAt n (by decide), join_slashed n (by decide) (by decide)]
    refine isResolvable_slashed (by decide) (show _ ≤ 4095 from ?_)
    have hsize : (join (join "out" "App") "s").utf8ByteSize = 9 := by decide
    omega
  exact hlead.createDirAll_of_none (by decide) hresolvable (by decide) rfl

theorem entriesBelow_nested {n : Nat} (hn : n ≤ 4086) :
    nestedTree.entriesBelow ((pairAt n).path "Core") =
      [(["s"], .dir), (["s", "a.bc"], .file .empty false)] := by
  have hcore : "Core" ∈ (pairAt n).names := List.mem_cons_of_mem _ List.mem_cons_self
  rw [entriesBelow, (isPlain_nestedTree hn).find?_eq hcore]
  rfl

/-- The file is listed as long as the path of the directory that holds it is not too long. -/
theorem isListed_nested (n : Nat) : isListed ((pairAt n).path "Core") ["s", "a.bc"] =
    decide (n + 10 ≤ maxPath) := by
  have hpath : join ((pairAt n).path "Core") "s" = slashed n "out/Core/s" := by
    have hjoin : join (join "out" "Core") "s" = "out/Core/s" := by decide
    rw [path_pairAt n (by decide), join_slashed n (by decide) (by decide), hjoin]
  have hsize : "out/Core/s".utf8ByteSize = 10 := by decide
  rw [isListed, List.dropLast_cons_of_ne_nil (by simp), List.dropLast_singleton, List.foldl_cons,
    List.foldl_nil, hpath, utf8ByteSize_slashed, hsize]

theorem core_mem_names (n : Nat) : "Core" ∈ (pairAt n).names :=
  List.mem_cons_of_mem _ List.mem_cons_self

/-- A directory that cannot be opened is made, and nothing is copied from it. -/
theorem runSteps_far {n : Nat} (hn : n ≤ 4086) (hfar : ¬ n + 10 ≤ maxPath) :
    (pairAt n).runSteps nestedTree ((pairAt n).steps linkedGraph []) =
      (nestedTree.put ["out", "App", "s"] .dir, .ok ()) := by
  have hfind := (isPlain_nestedTree hn).find?_eq (core_mem_names n)
  have hlisted : nestedTree.listedBelow ((pairAt n).path "Core") = [(["s"], .dir)] := by
    rw [listedBelow, entriesBelow_nested hn]
    simp [isListed_of_find? hfind, isListed_nested, hfar]
  have hcopy : copyTree nestedTree ((pairAt n).path "Core") ((pairAt n).path "App") =
      (nestedTree.put ["out", "App", "s"] .dir, .ok ()) := by
    rw [copyTree, hlisted]
    unfold copyEntries
    simp only [String.intercalate_singleton, createDirAll_nested hn]
    rfl
  rw [steps_pairAt, runSteps_copy hcopy]
  rfl

/-- A file is not copied if it is in a directory that cannot be opened, and no copy fails. -/
theorem merging_misses_far_file : nestedTree.Proper ∧ (pairAt 4086).IsPlain nestedTree ["out"] ∧
    (pairAt 4086).IsSource linkedGraph [] "App" "Core" ∧
    "App" ∈ (pairAt 4086).mergeOrder linkedGraph ∧
    ∃ made, (pairAt 4086).runSteps nestedTree ((pairAt 4086).steps linkedGraph []) =
        (made, .ok ()) ∧
      nestedTree.HoldsFile (["out"] ++ ["Core"] ++ ["s", "a.bc"]) ∧
      ¬ made.HoldsFile (["out"] ++ ["App"] ++ ["s", "a.bc"]) := by
  have hstep : .copy "Core" "App" ∈ (pairAt 4086).steps linkedGraph [] := by
    rw [steps_pairAt]
    exact List.mem_cons_self
  obtain ⟨htarget, hsource⟩ := copy_mem_steps_iff.1 hstep
  refine ⟨proper_nestedTree, isPlain_nestedTree (Nat.le_refl _), hsource, htarget, _,
    runSteps_far (Nat.le_refl _) (by decide), ⟨_, _, rfl⟩, ?_⟩
  rintro ⟨bytes, executable, hfile⟩
  cases hfile

/-- The tree in which the app has the library's file. -/
def nestedMerged : FileTree :=
  (nestedTree.put ["out", "App", "s"] .dir).put ["out", "App", "s", "a.bc"] (.file .empty false)

theorem copyFile_nested : (nestedTree.put ["out", "App", "s"] .dir).copyFile "/out/Core/s/a.bc"
    "/out/App/s/a.bc" = .ok nestedMerged := by
  have hfrom : FileTree.steps "/out/Core/s/a.bc" = ["out", "Core", "s", "a.bc"] := by decide
  have hto : FileTree.steps "/out/App/s/a.bc" = ["out", "App", "s", "a.bc"] := by decide
  have hsource : (nestedTree.put ["out", "App", "s"] .dir).resolve true "/out/Core/s/a.bc" =
      .ok (.found ["out", "Core", "s", "a.bc"] (.file .empty false)) := by
    rw [resolve_of_isResolvable ⟨by decide, by decide, by decide⟩, hfrom]
    simp +decide [walk, nestedTree, put, putEntry, get?, List.lookup_cons]
  have htarget : (nestedTree.put ["out", "App", "s"] .dir).resolve true "/out/App/s/a.bc" =
      .ok (.free ["out", "App", "s", "a.bc"]) := by
    rw [resolve_of_isResolvable ⟨by decide, by decide, by decide⟩, hto]
    simp +decide [walk, nestedTree, put, putEntry, get?, List.lookup_cons]
  exact copyFile_of_free hsource htarget

theorem runSteps_near : (pairAt 1).runSteps nestedTree ((pairAt 1).steps linkedGraph []) =
    (nestedMerged, .ok ()) := by
  have hplain : (pairAt 1).IsPlain nestedTree ["out"] := isPlain_nestedTree (by decide)
  have hfind := hplain.find?_eq (core_mem_names 1)
  have hlisted : nestedTree.listedBelow ((pairAt 1).path "Core") =
      [(["s"], .dir), (["s", "a.bc"], .file .empty false)] := by
    rw [listedBelow, entriesBelow_nested (by decide)]
    simp [isListed_of_find? hfind, isListed_nested, maxPath]
  have hsource : join ((pairAt 1).path "Core") (String.intercalate "/" ["s", "a.bc"]) =
      "/out/Core/s/a.bc" := by decide
  have htarget : join ((pairAt 1).path "App") (String.intercalate "/" ["s", "a.bc"]) =
      "/out/App/s/a.bc" := by decide
  have hcopy : copyTree nestedTree ((pairAt 1).path "Core") ((pairAt 1).path "App") =
      (nestedMerged, .ok ()) := by
    rw [copyTree, hlisted]
    unfold copyEntries
    simp only [String.intercalate_singleton, createDirAll_nested (by decide : 1 ≤ 4086)]
    unfold copyEntries
    simp only [hsource, htarget, copyFile_nested]
    rfl
  rw [steps_pairAt, runSteps_copy hcopy]
  rfl

/-- The app has the library's file in the end, as the library has. -/
theorem merging_keeps_files_nested : nestedTree.Proper ∧ (pairAt 1).IsPlain nestedTree ["out"] ∧
    (pairAt 1).runSteps nestedTree ((pairAt 1).steps linkedGraph []) = (nestedMerged, .ok ()) ∧
    nestedMerged.HoldsFile (["out"] ++ ["App"] ++ ["s", "a.bc"]) ∧
    nestedMerged.HoldsFile (["out"] ++ ["Core"] ++ ["s", "a.bc"]) := by
  have hplain : (pairAt 1).IsPlain nestedTree ["out"] := isPlain_nestedTree (by decide)
  obtain ⟨-, -, hkeeps, -, -, -, hcomplete, -⟩ :=
    merging_keeps_files proper_nestedTree hplain runSteps_near
  have hfile : nestedTree.HoldsFile (["out"] ++ ["Core"] ++ ["s", "a.bc"]) := ⟨_, _, rfl⟩
  have hstep : .copy "Core" "App" ∈ (pairAt 1).steps linkedGraph [] := by
    rw [steps_pairAt]
    exact List.mem_cons_self
  obtain ⟨htarget, hsource⟩ := copy_mem_steps_iff.1 hstep
  have hlisted : isListed ((pairAt 1).path "Core") ["s", "a.bc"] = true := by
    rw [isListed_nested]
    decide
  exact ⟨proper_nestedTree, hplain, runSteps_near,
    hcomplete rfl "App" htarget "Core" hsource ["s", "a.bc"] hfile hlisted, hkeeps _ hfile⟩

end ProductTree

end BitcodeReplay
