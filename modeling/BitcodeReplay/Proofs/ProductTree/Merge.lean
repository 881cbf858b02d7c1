import BitcodeReplay.Proofs.FileTree.Directory
import BitcodeReplay.Proofs.ProductTree.Order

/-!
What merging does to the directories. Copying one of them to another puts its files over those of
the other. Since products are merged after those they depend on, every directory is copied when it
holds all that it will, and so each ends with its own files below those of all its sources.
-/

namespace BitcodeReplay.ProductTree

open FileTree Path Traversal

variable {t made : FileTree} {p : ProductTree} {base loc out : Location}
  {source target product : String}

/-! ### Copying a directory -/

/-- What making one directory and copying one file keep is kept by copying entries, however far that
comes. -/
theorem copyEntries_invariant {P : FileTree → Prop} {entries : List (Location × Entry)}
    (hdir : ∀ q ∈ entries, ∀ t, P t →
      P (t.createDirAll (join target (String.intercalate "/" q.1))).1)
    (hfile : ∀ q ∈ entries, ∀ t copied, P t → t.copyFile (join source (String.intercalate "/" q.1))
      (join target (String.intercalate "/" q.1)) = .ok copied → P copied)
    (h : P t) : P (copyEntries source target t entries).1 := by
  induction entries generalizing t with
  | nil => exact h
  | cons q rest ih =>
    obtain ⟨names, e⟩ := q
    have hmade := hdir _ List.mem_cons_self t h
    have hrest := fun {now : FileTree} (hnow : P now) =>
      ih (fun q hq => hdir q (List.mem_cons_of_mem _ hq))
        (fun q hq => hfile q (List.mem_cons_of_mem _ hq)) hnow
    unfold copyEntries
    simp only
    split
    · split
      next made hmake =>
        rw [hmake] at hmade
        exact hrest hmade
      next made e hmake => rwa [hmake] at hmade
    · split
      next copied hcopy => exact hrest (hfile _ List.mem_cons_self t copied h hcopy)
      next => exact h

/-- What copying entries to a directory has done. -/
structure Copied (t made : FileTree) (out : Location) (entries : List (Location × Entry)) :
    Prop where
  wellFormed : made.WellFormed
  keepsWays : KeepsWays t made
  copied : ∀ q ∈ entries, made.get? (out ++ q.1) = some q.2
  others : ∀ l, (∀ q ∈ entries, l ≠ out ++ q.1) → made.get? l = t.get? l

theorem copyEntries_copied {left left' : Nat} {entries : List (Location × Entry)}
    (hwf : t.WellFormed) (hs : t.LeadsTo source left loc) (ht : t.LeadsTo target left' out)
    (hne : loc ≠ out) (hsource : (t.contents loc).AreFiles) (htarget : (t.contents out).AreFiles)
    (hentries : ∀ q ∈ entries, ∃ name, q.1 = [name] ∧ t.contents loc name = some q.2)
    (h : copyEntries source target t entries = (made, .ok ())) : Copied t made out entries := by
  induction entries generalizing t with
  | nil =>
    unfold copyEntries at h
    cases h
    exact ⟨hwf, KeepsWays.refl _, by simp, fun _ _ => rfl⟩
  | cons q rest ih =>
    obtain ⟨names, e⟩ := q
    obtain ⟨name, rfl, he⟩ := hentries _ List.mem_cons_self
    obtain ⟨hc, b, x, rfl⟩ := hsource name e he
    have hrelative : String.intercalate "/" [name] = name := by simp
    unfold copyEntries at h
    simp only [hrelative] at h
    split at h
    · next first hcopy =>
      obtain rfl := copyFile_eq hs ht hc he hne htarget hcopy
      have hways : KeepsWays t (t.put (out ++ [name]) (.file b x)) :=
        keepsWays_put_file htarget.not_isWay (by simp)
      have hsame : (t.put (out ++ [name]) (.file b x)).contents loc = t.contents loc :=
        contents_put_of_ne hne _
      have hdone := ih
        (wellFormed_put hwf (ht.get?_eq_dir hwf) fun hdir => htarget.not_isWay _ hdir trivial)
        (hs.of_keepsWays hways) (ht.of_keepsWays hways) (hsame ▸ hsource) (htarget.put hc)
        (fun q hq => hsame ▸ hentries q (List.mem_cons_of_mem _ hq)) h
      refine ⟨hdone.wellFormed, hways.trans hdone.keepsWays, fun q hq => ?_, fun l hl => ?_⟩
      · rcases List.mem_cons.1 hq with rfl | hq
        · by_cases hlater : ∃ q ∈ rest, q.1 = [name]
          · -- what comes later under the same name is the same file
            obtain ⟨q, hq, hqname⟩ := hlater
            obtain ⟨other, hother, hqe⟩ := hentries q (List.mem_cons_of_mem _ hq)
            obtain rfl : name = other := by simpa using hqname.symm.trans hother
            rw [← hqname, hdone.copied q hq, ← hqe, he]
          · rw [hdone.others, get?_put _ _ _ _ (by simp), if_pos rfl]
            intro q hq heq
            exact hlater ⟨q, hq, (List.append_cancel_left heq).symm⟩
        · exact hdone.copied q hq
      · rw [hdone.others l fun q hq => hl q (List.mem_cons_of_mem _ hq),
          get?_put _ _ _ _ (by simp), if_neg (hl _ List.mem_cons_self)]
    · cases h

/-! ### Directories of products -/

/-- Every product has a directory of its own below the root, which holds regular files only. -/
structure IsFlat (p : ProductTree) (t : FileTree) (base : Location) : Prop where
  component : ∀ product ∈ p.names, IsComponent product
  found : ∀ product ∈ p.names,
    t.resolve false (p.path product) = .ok (.found (base ++ [product]) .dir)
  files : ∀ product ∈ p.names, (t.contents (base ++ [product])).AreFiles

theorem IsFlat.find?_eq (h : p.IsFlat t base) (hproduct : product ∈ p.names) :
    t.find? (p.path product) = some (base ++ [product], .dir) :=
  find?_of_resolve_dir (h.found product hproduct)

/-- What the directories below the root hold. -/
def held (t : FileTree) (base : Location) (product : String) : Contents :=
  t.contents (base ++ [product])

/-- What the directories hold after a step. -/
def heldAfter (files : String → Contents) (step : Step) (product : String) : Contents :=
  match step with
  | .copy source target =>
    if product = target then (files source).onto (files target) else files product
  | .missing _ _ => files product

theorem heldAfter_copy_self (files : String → Contents) (source target : String) :
    heldAfter files (.copy source target) target = (files source).onto (files target) := if_pos rfl

theorem heldAfter_copy_of_ne {files : String → Contents} (h : product ≠ target) :
    heldAfter files (.copy source target) product = files product := if_neg h

theorem heldAfter_missing (files : String → Contents) (product dependency : String) :
    heldAfter files (.missing product dependency) = files := rfl

theorem IsFlat.mem_listedBelow_iff (h : p.IsFlat t base) (hproduct : product ∈ p.names)
    (q : Location × Entry) : q ∈ t.listedBelow (p.path product) ↔
      ∃ name, q.1 = [name] ∧ held t base product name = some q.2 := by
  rw [listedBelow_eq (h.find?_eq hproduct) (h.files product hproduct)]
  exact mem_entriesBelow (h.find?_eq hproduct) (h.files product hproduct)

theorem IsFlat.copied (h : p.IsFlat t base) (hwf : t.WellFormed) (hs : source ∈ p.names)
    (ht : target ∈ p.names) (hne : source ≠ target)
    (hcopy : copyTree t (p.path source) (p.path target) = (made, .ok ())) :
    Copied t made (base ++ [target]) (t.listedBelow (p.path source)) := by
  obtain ⟨left, hlead⟩ := leadsTo_of_find? (h.find?_eq hs)
  obtain ⟨left', hlead'⟩ := leadsTo_of_find? (h.find?_eq ht)
  have hloc : base ++ [source] ≠ base ++ [target] := by simpa using hne
  exact copyEntries_copied hwf hlead hlead' hloc (h.files source hs) (h.files target ht)
    (fun q hq => (h.mem_listedBelow_iff hs q).1 hq) hcopy

/-- Copying the directory of one product to that of another puts its files over those there. -/
theorem IsFlat.held_copied (h : p.IsFlat t base) (hs : source ∈ p.names)
    (hdone : Copied t made (base ++ [target]) (t.listedBelow (p.path source))) :
    held made base = heldAfter (held t base) (.copy source target) := by
  funext product name
  simp only [heldAfter]
  split
  · next heq =>
    subst heq
    cases hname : held t base source name with
    | none =>
      rw [Contents.onto_of_none hname]
      refine hdone.others _ fun q hq heq => ?_
      obtain ⟨other, hother, hqe⟩ := (h.mem_listedBelow_iff hs q).1 hq
      rw [hother] at heq
      obtain rfl : name = other := by simpa using heq
      rw [hqe] at hname
      cases hname
    | some e =>
      rw [Contents.onto_of_some hname]
      exact hdone.copied ([name], e) ((h.mem_listedBelow_iff hs _).2 ⟨name, rfl, hname⟩)
  · next hother =>
    refine hdone.others _ fun q hq heq => ?_
    obtain ⟨other, hq1, -⟩ := (h.mem_listedBelow_iff hs q).1 hq
    rw [hq1] at heq
    exact append_ne (by simpa using hother) name other heq

theorem IsFlat.heldAfter_copy (h : p.IsFlat t base) (hs : source ∈ p.names)
    (ht : target ∈ p.names) (hways : KeepsWays t made)
    (hheld : held made base = heldAfter (held t base) (.copy source target)) :
    p.IsFlat made base where
  component := h.component
  found := by
    intro product hproduct
    exact resolve_of_keepsWays hways (h.found product hproduct) fun hdir => absurd rfl hdir
  files := by
    intro product hproduct
    have heq : made.contents (base ++ [product]) =
        heldAfter (held t base) (.copy source target) product := congrFun hheld product
    rw [heq]
    simp only [heldAfter]
    split
    · exact (h.files source hs).onto (h.files target ht)
    · exact h.files product hproduct

/-! ### Running the steps -/

/-- Each copy that the steps ask for succeeds when its turn comes. -/
def CopiesSucceed (p : ProductTree) (t : FileTree) (steps : List Step) : Prop :=
  ∀ done source target rest, steps = done ++ .copy source target :: rest →
    (copyTree (p.runSteps t done).1 (p.path source) (p.path target)).2 = .ok ()

theorem runSteps_copy {rest : List Step}
    (h : copyTree t (p.path source) (p.path target) = (made, .ok ())) :
    p.runSteps t (.copy source target :: rest) = p.runSteps made rest := by
  conv_lhs => unfold runSteps
  simp only [h]

theorem runSteps_copy_error {rest : List Step} {e : WriteFailure}
    (h : copyTree t (p.path source) (p.path target) = (made, .error e)) :
    p.runSteps t (.copy source target :: rest) = (made, .error e) := by
  conv_lhs => unfold runSteps
  simp only [h]

/-- What one copy keeps is kept by the steps, however far they come. -/
theorem runSteps_invariant {P : FileTree → Prop} {steps : List Step}
    (hcopy : ∀ source target, .copy source target ∈ steps → ∀ t, P t →
      P (copyTree t (p.path source) (p.path target)).1) (h : P t) : P (p.runSteps t steps).1 := by
  induction steps generalizing t with
  | nil => exact h
  | cons step rest ih =>
    have hrest := fun source target hmem => hcopy source target (List.mem_cons_of_mem _ hmem)
    cases step with
    | missing product dependency => exact ih hrest h
    | copy source target =>
      have hcopied := hcopy source target List.mem_cons_self t h
      rcases hrun : copyTree t (p.path source) (p.path target) with ⟨made, e | _⟩
      · rw [runSteps_copy_error hrun]
        rwa [hrun] at hcopied
      · rw [runSteps_copy hrun]
        rw [hrun] at hcopied
        exact ih hrest hcopied

theorem CopiesSucceed.first {steps : List Step}
    (h : p.CopiesSucceed t (.copy source target :: steps)) :
    ∃ made, copyTree t (p.path source) (p.path target) = (made, .ok ()) ∧
      p.CopiesSucceed made steps := by
  cases hcopy : copyTree t (p.path source) (p.path target) with
  | mk made result =>
    have hok : (copyTree t (p.path source) (p.path target)).2 = .ok () :=
      h [] source target steps rfl
    rw [hcopy] at hok
    obtain rfl : result = .ok () := hok
    refine ⟨made, rfl, fun done source' target' last heq => ?_⟩
    have hnext := h (.copy source target :: done) source' target' last (by rw [heq]; rfl)
    rwa [runSteps_copy hcopy] at hnext

/-- Running the steps does to the directories what the steps ask for, one after the other. -/
theorem runSteps_held {steps : List Step} (hwf : t.WellFormed) (h : p.IsFlat t base)
    (hsteps : ∀ source target, .copy source target ∈ steps →
      source ∈ p.names ∧ target ∈ p.names ∧ source ≠ target)
    (hcopies : p.CopiesSucceed t steps) :
    ∃ made, p.runSteps t steps = (made, .ok ()) ∧ made.WellFormed ∧ p.IsFlat made base ∧
      held made base = steps.foldl heldAfter (held t base) := by
  induction steps generalizing t with
  | nil => exact ⟨t, rfl, hwf, h, rfl⟩
  | cons step rest ih =>
    have hrest : ∀ source target, .copy source target ∈ rest →
        source ∈ p.names ∧ target ∈ p.names ∧ source ≠ target :=
      fun source target hmem => hsteps source target (List.mem_cons_of_mem _ hmem)
    cases step with
    | missing product dependency =>
      have hlater : p.CopiesSucceed t rest := by
        intro done source target last heq
        exact hcopies (.missing product dependency :: done) source target last (by rw [heq]; rfl)
      exact ih hwf h hrest hlater
    | copy source target =>
      obtain ⟨hs, ht, hne⟩ := hsteps source target List.mem_cons_self
      obtain ⟨made, hcopy, hlater⟩ := CopiesSucceed.first hcopies
      have hdone := h.copied hwf hs ht hne hcopy
      have hheld := h.held_copied hs hdone
      obtain ⟨after, hrun, hwf', hflat, hafter⟩ :=
        ih hdone.wellFormed (h.heldAfter_copy hs ht hdone.keepsWays hheld) hrest hlater
      refine ⟨after, (runSteps_copy hcopy).trans hrun, hwf', hflat, ?_⟩
      rw [hafter, hheld, List.foldl_cons]

end BitcodeReplay.ProductTree
