import BitcodeReplay.Proofs.FileTree.Around
import BitcodeReplay.Proofs.ProductTree.Shorten

/-!
What is recorded stays in step with what stands on the disk. Products stand in the order in which
their directories were made first, each with the first target that is known for it; and every product
names a directory, whatever fails and wherever. Shortening names keeps this as long as no way that
leads to a product leads through the place of another one, which is then no longer there.
-/

namespace BitcodeReplay.ProductTree

open FileTree Path

variable {t t' made moved : FileTree} {p q : ProductTree} {g : Graph} {embedded : List String}
  {base : Location} {left : Nat} {root name short product : String} {guid : Option Pif.Guid}
  {done : List (String × Option Pif.Guid)} {pairs : List (String × String)}
  {newName : String → String}

/-- A product tree has come about from a fresh one: `done` lists the calls that made a directory. A
call that fails records nothing, and whatever happens in between leaves every directory where it can
be found. -/
inductive Reached (root : String) :
    FileTree → ProductTree → List (String × Option Pif.Guid) → Prop
  | start (t : FileTree) : Reached root t (.start root) []
  | made {t made : FileTree} {p q : ProductTree} {done : List (String × Option Pif.Guid)}
      {name : String} {guid : Option Pif.Guid} : Reached root t p done →
        ensure t p name guid = (made, .ok q) → Reached root made q (done ++ [(name, guid)])
  | failed {t made : FileTree} {p : ProductTree} {done : List (String × Option Pif.Guid)}
      {name : String} {guid : Option Pif.Guid} {e : WriteFailure} : Reached root t p done →
        ensure t p name guid = (made, .error e) → Reached root made p done
  | other {t t' : FileTree} {p : ProductTree} {done : List (String × Option Pif.Guid)} :
      Reached root t p done → (∀ path, t.isDir path = true → t'.isDir path = true) →
        Reached root t' p done

/-- The first target that is given for a product. -/
def firstGuid (done : List (String × Option Pif.Guid)) (product : String) : Option Pif.Guid :=
  (done.filter (·.1 = product)).findSome? (·.2)

/-- The products of some calls, where they come first, with the first targets given for them. -/
def recorded (done : List (String × Option Pif.Guid)) : List (String × Option Pif.Guid) :=
  (done.map (·.1)).eraseDups.map fun product => (product, firstGuid done product)

/-- A place that is not within that of a product which gets another name, be it the old place or the
new one. -/
def IsApart (p : ProductTree) (newName : String → String) (base l : Location) : Prop :=
  ∀ name ∈ p.names, newName name ≠ name →
    isWithin l (base ++ [name]) = false ∧ isWithin l (base ++ [newName name]) = false

/-- Neither the path of the root nor a link in the place of a product leads through the place of a
product which gets another name. -/
structure LeadsApart (t : FileTree) (p : ProductTree) (newName : String → String) : Prop where
  root : ∀ left base, t.LeadsTo p.root left base →
    Stays t (IsApart p newName base) maxLinks [] (Path.names p.root)
  link : ∀ left base, t.LeadsTo p.root (left + 1) base → ∀ name ∈ p.names, ∀ target,
    t.get? (base ++ [name]) = some (.link target) →
      Stays t (IsApart p newName base) left (if isAbsolute target then [] else base)
        (FileTree.steps target)

/-! ### What is recorded -/

/-- Recording a product in a list of different ones. -/
theorem recordProduct_map {names : List String} (hn : names.Nodup)
    {f : String → Option Pif.Guid} (hf : product ∉ names → f product = none) :
    recordProduct product guid (names.map fun n => (n, f n)) =
      (if product ∈ names then names else names ++ [product]).map fun n =>
        (n, f n <|> if n = product then guid else none) := by
  have hvalue : product ∉ names → (f product <|> guid) = guid := fun hnew => by simp [hf hnew]
  rw [upsert_map (recordProduct product guid) (· <|> guid) rfl (fun _ _ _ => rfl) hn hvalue]
  refine List.map_congr_left fun n _ => ?_
  by_cases h : n = product <;> simp [h]

theorem firstGuid_concat (done : List (String × Option Pif.Guid)) (name : String)
    (guid : Option Pif.Guid) (product : String) : firstGuid (done ++ [(name, guid)]) product =
      (firstGuid done product <|> if product = name then guid else none) := by
  by_cases h : name = product
  · subst h
    simp [firstGuid]
  · simp [firstGuid, h, Ne.symm h]

theorem recorded_concat (done : List (String × Option Pif.Guid)) (name : String)
    (guid : Option Pif.Guid) :
    recorded (done ++ [(name, guid)]) = recordProduct name guid (recorded done) := by
  have hnew : name ∉ (done.map (·.1)).eraseDups → firstGuid done name = none := by
    intro hmem
    rw [List.mem_eraseDups] at hmem
    rw [firstGuid, filter_key_eq_nil hmem, List.findSome?_nil]
  rw [recorded, recorded, recordProduct_map (nodup_eraseDups _) hnew, List.map_append,
    List.map_singleton, eraseDups_concat]
  simp only [List.mem_eraseDups, firstGuid_concat]

theorem names_recorded (done : List (String × Option Pif.Guid)) :
    (recorded done).map (·.1) = (done.map (·.1)).eraseDups := by
  rw [recorded, List.map_map]
  exact List.map_id' _

theorem keepsWays_ensure (t : FileTree) (p : ProductTree) (name : String)
    (guid : Option Pif.Guid) : KeepsWays t (ensure t p name guid).1 := by
  have hways := keepsWays_createDirAll t (p.path name)
  rw [ensure]
  split
  next hmake => rwa [hmake] at hways
  next hmake => rwa [hmake] at hways

/-- The products are those of the calls that made a directory. -/
theorem Reached.eq (h : Reached root t p done) : p = ⟨root, recorded done⟩ := by
  induction h with
  | start t => rfl
  | made h hmake ih =>
    obtain ⟨-, rfl⟩ := ensure_eq_ok hmake
    rw [ih, recorded_concat]
  | failed h hfail ih => exact ih
  | other h hkeeps ih => exact ih

/-- Every directory that has been made is still found. -/
theorem Reached.isDir (h : Reached root t p done) (hc : ∀ call ∈ done, IsComponent call.1) :
    ∀ call ∈ done, t.isDir (join root call.1) = true := by
  induction h with
  | start t => exact List.forall_mem_nil _
  | @made t made p q done name guid h hmake ih =>
    have hroot : p.root = root := by rw [h.eq]
    obtain ⟨hdone, hname⟩ := List.forall_mem_append.1 hc
    have hways := keepsWays_ensure t p name guid
    rw [hmake] at hways
    rw [List.forall_mem_append, List.forall_mem_singleton]
    refine ⟨fun call hcall => isDir_of_keepsWays hways (ih hdone call hcall), ?_⟩
    obtain ⟨hcreate, -⟩ := ensure_eq_ok hmake
    rw [path, hroot] at hcreate
    exact isDir_of_createDirAll (join_ne_empty root (hname _ List.mem_cons_self).ne_empty) hcreate
  | @failed t made p done name guid e h hfail ih =>
    have hways := keepsWays_ensure t p name guid
    rw [hfail] at hways
    exact fun call hcall => isDir_of_keepsWays hways (ih hc call hcall)
  | other h hkeeps ih => exact fun call hcall => hkeeps _ (ih hc call hcall)

/-! ### Merging -/

/-- Merging leaves every directory and every link where it is. -/
theorem keepsWays_runSteps (p : ProductTree) (t : FileTree) (steps : List Step) :
    KeepsWays t (p.runSteps t steps).1 := by
  refine runSteps_invariant (fun source target _ now hnow => ?_) (KeepsWays.refl t)
  refine copyEntries_invariant (fun q _ now hnow => ?_) (fun q _ now copied hnow hcopy => ?_) hnow
  · exact hnow.trans (keepsWays_createDirAll _ _)
  · exact hnow.trans (keepsWays_copyFile hcopy)

/-! ### Shortening -/

/-- Every product can be found from the root along some places only. -/
structure Standing (V : Location → Prop) (left : Nat) (base : Location) (t : FileTree)
    (q : ProductTree) : Prop where
  stays : Stays t V maxLinks [] (Path.names q.root)
  lead : t.LeadsTo q.root left base
  component : ∀ name ∈ q.names, IsComponent name
  resolvable : ∀ name ∈ q.names, IsResolvable (q.path name)
  leadsOn : ∀ name ∈ q.names, t.LeadsOn V left base name

theorem Standing.isDir {V : Location → Prop} (h : Standing V left base t q)
    (hname : name ∈ q.names) : t.isDir (q.path name) = true :=
  (h.leadsOn name hname).isDir h.lead (h.component name hname) (h.resolvable name hname)

/-- What is apart from a product has been left alone when the product has been moved. -/
theorem agree_relocate (hname : name ∈ p.names) (hnew : newName name = short) (hne : short ≠ name) :
    Agree (IsApart p newName base) t (t.relocate (base ++ [name]) (base ++ [short])) := by
  intro l hl
  obtain ⟨hfrom, hto⟩ := hl name hname (hnew ▸ hne)
  rw [hnew] at hto
  by_cases hnil : l = []
  · rw [hnil, get?_nil, get?_nil]
  · rw [get?_relocate_of_not_within t hnil _ hto, hfrom]
    rfl

/-- A product can be moved only from its place and only to that of the shorter name. -/
theorem Standing.moved_eq {V : Location → Prop} (h : Standing V left base t q)
    (hname : name ∈ q.names) (hshort : IsComponent short) (hne : short ≠ name)
    (hmove : t.rename (q.path name) (q.path short) = .ok moved) :
    moved = t.relocate (base ++ [name]) (base ++ [short]) := by
  obtain ⟨loc, e, place, hsource, htarget, hmoved⟩ := rename_eq_ok hmove
  have hloc : loc = base ++ [name] :=
    h.lead.loc_of_resolve (h.component name hname) hsource
  have hplace : place.loc = base ++ [short] := by
    rcases htarget with hwalk | hresolve
    · rw [path, names_join q.root hshort, walk_append _ _ (by simp), h.lead] at hwalk
      exact loc_of_walk hshort hwalk
    · exact h.lead.loc_of_resolve hshort hresolve
  subst hloc
  rw [hplace] at hmoved
  rcases hmoved with ⟨hsame, -⟩ | hmoved
  · exact absurd (List.append_inj' hsame rfl).2 (by simpa using hne)
  · exact hmoved

theorem mem_names_renameProduct {other : String}
    (h : other ∈ (q.renameProduct name short).names) :
    other = short ∨ other ∈ q.names ∧ other ≠ name := by
  simp only [names, renameProduct, List.map_map, List.mem_map, Function.comp_apply] at h
  obtain ⟨entry, hentry, rfl⟩ := h
  split
  · exact .inl rfl
  next hne => exact .inr ⟨List.mem_map_of_mem hentry, hne⟩

/-- Everything is found when a product has been given its shorter name. -/
theorem Standing.rename (h : Standing (IsApart p newName base) left base t q)
    (hmem : name ∈ p.names) (hown : newName name = stemOf name) (hname : name ∈ q.names)
    (hempty : stemOf name ≠ "") (habsent : t.isPresent (q.path (stemOf name)) = false)
    (hnew : stemOf name ∉ q.names)
    (hmove : t.rename (q.path name) (q.path (stemOf name)) = .ok moved) :
    Standing (IsApart p newName base) left base moved (q.renameProduct name (stemOf name)) := by
  have hc := h.component name hname
  have hpath := h.resolvable name hname
  have hshort := isComponent_stemOf h.lead hc hpath hempty habsent
  have hne : stemOf name ≠ name := fun he => hnew (by rwa [he])
  obtain rfl := h.moved_eq hname hshort hne hmove
  have hagree : Agree (IsApart p newName base) t
      (t.relocate (base ++ [name]) (base ++ [stemOf name])) := agree_relocate hmem hown hne
  refine ⟨h.stays.of_agree hagree, (h.stays.passage_eq hagree).trans h.lead, ?_, ?_, ?_⟩
  · intro other hother
    rcases mem_names_renameProduct hother with rfl | ⟨hother, -⟩
    · exact hshort
    · exact h.component other hother
  · intro other hother
    rcases mem_names_renameProduct hother with rfl | ⟨hother, -⟩
    · exact isResolvable_stemOf hc hpath hempty
    · exact h.resolvable other hother
  · intro other hother
    rcases mem_names_renameProduct hother with rfl | ⟨hother, hothername⟩
    · have hle : (stemOf name).utf8ByteSize ≤ name.utf8ByteSize := by
        obtain ⟨more, hmore⟩ := stemOf_append hc
        conv_rhs => rw [hmore, String.utf8ByteSize_append]
        exact Nat.le_add_right _ _
      have hget : (t.relocate (base ++ [name]) (base ++ [stemOf name])).get?
          (base ++ [stemOf name]) = t.get? (base ++ [name]) := by
        simpa only [List.append_nil] using get?_relocate_target t (by simp) (by simp) []
      exact (h.leadsOn name hname).move hagree hc hshort hle hget
    · have hc' := h.component other hother
      have hothershort : other ≠ stemOf name := fun he => hnew (he ▸ hother)
      have hget : (t.relocate (base ++ [name]) (base ++ [stemOf name])).get? (base ++ [other]) =
          t.get? (base ++ [other]) := by
        rw [get?_relocate_of_not_within t (by simp) _
          (isWithin_sibling hothershort (isWithin_self _)),
          isWithin_sibling hothername (isWithin_self _)]
        rfl
      exact (h.leadsOn other hother).move hagree hc' hc' (Nat.le_refl _) hget

/-- Shortening names, as far as it comes, keeps what is recorded in step with what stands there. -/
theorem shorten_standing {count : Nat} {final : String → String} (h : Renamed p pairs q newName)
    (hfinal : Renamed p [] (shorten count t q pairs).1.2 final)
    (hstanding : Standing (IsApart p final base) left base t q)
    (hpairs : ∀ pair ∈ pairs, pair.2 = stemOf pair.1 ∧ pair.2 ≠ "") :
    Standing (IsApart p final base) left base (shorten count t q pairs).1.1
      (shorten count t q pairs).1.2 := by
  induction pairs generalizing t q newName count with
  | nil => exact hstanding
  | cons pair rest ih =>
    obtain ⟨name, short⟩ := pair
    obtain ⟨hshort, hempty⟩ := hpairs _ List.mem_cons_self
    simp only at hshort hempty
    subst hshort
    have hrest := fun pair hpair => hpairs pair (List.mem_cons_of_mem _ hpair)
    obtain ⟨hmem, hown⟩ := h.waiting _ List.mem_cons_self
    have hname : name ∈ q.names := by
      rw [h.names_eq]
      exact List.mem_map.2 ⟨name, hmem, hown⟩
    rcases shorten_cons_cases count t q name (stemOf name) rest with
      ⟨-, heq⟩ | ⟨habsent, hnew, ⟨moved, hmove, heq⟩ | ⟨e, -, heq⟩⟩
    · rw [heq] at hfinal ⊢
      exact ih h.skip hfinal hstanding hrest
    · rw [heq] at hfinal ⊢
      have hrenamed := h.rename rfl hnew
      -- the name that is given now is the last one
      have hlast : final name = stemOf name := by
        obtain ⟨later, hlater, hkept⟩ := shorten_renamed (count + 1) moved hrenamed
          fun pair hpair => (hrest pair hpair).1
        rw [hfinal.unique hlater hmem, hkept name (List.nodup_cons.1 h.once).1,
          Function.update_self]
      exact ih hrenamed hfinal (hstanding.rename hmem hlast hname hempty habsent hnew hmove) hrest
    · rw [heq]
      exact hstanding

/-! ### Consolidating -/

/-- A product is found apart from those that get other names, if it is found at all. -/
theorem LeadsApart.leadsOn (h : LeadsApart t p newName) (hlead : t.LeadsTo p.root left base)
    (hc : IsComponent name) (hname : name ∈ p.names) (hdir : t.isDir (p.path name) = true) :
    t.LeadsOn (IsApart p newName base) left base name := by
  obtain ⟨-, left', loc, hpass⟩ := isDir_iff.1 hdir
  rw [path, LeadsTo, names_join p.root hc, passage_append, hlead, Except.bind] at hpass
  obtain ⟨s, hs, hend⟩ := passage_cons_eq_ok_iff.1 hpass
  refine ⟨s, hs, ?_, _, hend⟩
  cases onward_eq_ok_iff.1 hs with
  | dot hdot => exact absurd hdot hc.ne_dot
  | up hup => exact absurd hup hc.ne_dots
  | dir => exact .nil _ _
  | @link left target _ _ _ hget =>
    rw [List.append_nil]
    exact h.link left base hlead name hname target hget

/-- Before any name is shortened, everything is found that was found before merging. -/
theorem LeadsApart.standing (h : LeadsApart t p newName) (hways : KeepsWays t made)
    (hlead : t.LeadsTo p.root left base) (hc : ∀ name ∈ p.names, IsComponent name)
    (hdirs : ∀ name ∈ p.names, t.isDir (p.path name) = true) :
    Standing (IsApart p newName base) left base made p where
  stays := (h.root left base hlead).of_keepsWays hways hlead
  lead := hlead.of_keepsWays hways
  component := hc
  resolvable := fun name hname => (isDir_iff.1 (hdirs name hname)).1
  leadsOn := fun name hname =>
    (h.leadsOn hlead (hc name hname) hname (hdirs name hname)).of_keepsWays hways

/-- The products that are left when names have been shortened after merging, as far as it comes. -/
theorem LeadsApart.isDir_shorten (h : LeadsApart t p newName) (hways : KeepsWays t made)
    (hnames : p.names.Nodup) (hc : ∀ name ∈ p.names, IsComponent name)
    (hdirs : ∀ name ∈ p.names, t.isDir (p.path name) = true) {after : FileTree}
    (hafter : (shorten 0 made p p.shortenings).1 = (after, q)) (hrenamed : Renamed p [] q newName)
    (hname : name ∈ q.names) : after.isDir (q.path name) = true := by
  rw [hrenamed.names_eq] at hname
  obtain ⟨product, hproduct, rfl⟩ := List.mem_map.1 hname
  -- a product is found from the root, which leads somewhere then
  obtain ⟨loc, hfind⟩ := find?_of_isDir (hdirs product hproduct)
  obtain ⟨left, base, hlead, -⟩ := leadsTo_of_resolve_join (hc product hproduct)
    (find?_eq_some_iff.1 hfind)
  have hfinal : Renamed p [] (shorten 0 made p p.shortenings).1.2 newName := by rwa [hafter]
  have hstanding := shorten_standing (renamed_shortenings hnames) hfinal
    (h.standing hways hlead hc hdirs) fun pair hpair => (mem_shortenings hpair).2
  rw [hafter] at hstanding
  exact hstanding.isDir (hrenamed.names_eq ▸ List.mem_map_of_mem hproduct)

/-- Consolidating, as far as it comes, leaves every product in its place, under its name or the shorter
one, and there is a directory of that name. -/
theorem consolidate_standing (hnames : p.names.Nodup) (hc : ∀ name ∈ p.names, IsComponent name)
    (hdirs : ∀ name ∈ p.names, t.isDir (p.path name) = true) {after : FileTree}
    (hafter : (consolidate t p g embedded).1 = (after, q)) :
    ∃ newName, Renamed p [] q newName ∧
      (LeadsApart t p newName → ∀ name ∈ q.names, after.isDir (q.path name) = true) := by
  have hways := keepsWays_runSteps p t (p.steps g embedded)
  rw [consolidate] at hafter
  split at hafter
  next merged e hrun =>
    cases hafter
    rw [hrun] at hways
    exact ⟨id, (renamed_shortenings hnames).settle,
      fun _ name hname => isDir_of_keepsWays hways (hdirs name hname)⟩
  next merged hrun =>
    rw [hrun] at hways
    have hshorten : (shorten 0 merged p p.shortenings).1 = (after, q) := by
      split at hafter
      next hshorten => rw [hshorten, ← hafter]
      next hshorten => rw [hshorten, ← hafter]
    obtain ⟨newName, hrenamed, -⟩ := shorten_renamed 0 merged (renamed_shortenings hnames)
      fun pair hpair => (mem_shortenings hpair).2.1
    rw [hshorten] at hrenamed
    exact ⟨newName, hrenamed, fun hapart name hname =>
      hapart.isDir_shorten hways hnames hc hdirs hshorten hrenamed hname⟩

/-- Whatever calls make the directories of products, and however consolidating them ends: the products
are those of the calls that succeeded, in their order and each with the first target given for it. Each
names a directory, and does so under a shorter name as well where no way to a product leads through the
place of one that gets another name. -/
theorem Reached.products_stand (h : Reached root t p done)
    (hc : ∀ call ∈ done, IsComponent call.1) :
    p = ⟨root, recorded done⟩ ∧ p.names.Nodup ∧
      (∀ name ∈ p.names, t.isDir (p.path name) = true) ∧
      ∀ (g : Graph) (embedded : List String) (after : FileTree) (q : ProductTree),
        (consolidate t p g embedded).1 = (after, q) →
          q.names.Nodup ∧ ∃ newName : String → String,
            (∀ name ∈ p.names, newName name = name ∨ newName name = stemOf name) ∧
              q = ⟨root, (recorded done).map fun entry => (newName entry.1, entry.2)⟩ ∧
              (LeadsApart t p newName → ∀ name ∈ q.names, after.isDir (q.path name) = true) := by
  have hp := h.eq
  have hnames : p.names = (done.map (·.1)).eraseDups := by rw [hp, names, names_recorded]
  have hmem : ∀ name ∈ p.names, ∃ call ∈ done, call.1 = name := by
    intro name hname
    rw [hnames, List.mem_eraseDups] at hname
    exact List.mem_map.1 hname
  have hnodup : p.names.Nodup := hnames ▸ nodup_eraseDups _
  have hcomponents : ∀ name ∈ p.names, IsComponent name := by
    intro name hname
    obtain ⟨call, hcall, rfl⟩ := hmem name hname
    exact hc call hcall
  have hdirs : ∀ name ∈ p.names, t.isDir (p.path name) = true := by
    intro name hname
    obtain ⟨call, hcall, rfl⟩ := hmem name hname
    rw [path, hp]
    exact h.isDir hc call hcall
  refine ⟨hp, hnodup, hdirs, fun g embedded after q hafter => ?_⟩
  obtain ⟨newName, hrenamed, hfound⟩ := consolidate_standing hnodup hcomponents hdirs hafter
  have hproducts := hrenamed.products
  have hroot : q.root = root := by rw [hrenamed.root, hp]
  rw [hp] at hproducts
  refine ⟨hrenamed.nodup, newName, hrenamed.named, ?_, hfound⟩
  rw [← hproducts, ← hroot]

/-! ### A link beside a framework -/

/-- A link stands where the directory of a product is asked for. -/
def earlyTree (target : String) : FileTree :=
  ⟨[(["out"], .dir), (["lib"], .dir), (["out", "A"], .link target)]⟩

/-- The directory of a framework has been made beside it. -/
def besideTree (target : String) : FileTree := (earlyTree target).put ["out", "B.framework"] .dir

/-- The framework has been given its shorter name. -/
def shortTree (target : String) : FileTree :=
  (besideTree target).relocate ["out", "B.framework"] ["out", "B"]

def besideProducts : ProductTree := ⟨"/out", [("B.framework", none), ("A", none)]⟩

def shortProducts : ProductTree := ⟨"/out", [("B", none), ("A", none)]⟩

theorem isComponent_beside : ∀ call ∈ besideProducts.products, IsComponent call.1 := by decide

theorem leadsTo_out {t : FileTree} (h : t.get? ["out"] = some .dir) :
    t.LeadsTo "/out" maxLinks ["out"] :=
  leadsTo_of_names (by decide) (by decide) (by decide) h

/-- Where a product stands as a link, its path leads on from the target of the link. -/
theorem passage_link {t : FileTree} {target : String} (h : t.get? ["out"] = some .dir)
    (hlink : t.get? ["out", "A"] = some (.link target)) (hne : target ≠ "") :
    t.passage maxLinks [] (Path.names (join "/out" "A")) =
      t.passage 39 (if isAbsolute target then [] else ["out"]) (FileTree.steps target) := by
  have hon : t.onward maxLinks ["out"] "A" [] =
      .ok (39, if isAbsolute target then [] else ["out"], FileTree.steps target) := by
    have hget : t.get? (["out"] ++ ["A"]) = some (.link target) := hlink
    have hlinks : maxLinks = 39 + 1 := rfl
    rw [onward, if_neg (by decide), if_neg (by decide), if_neg (by decide), hget, hlinks]
    simp only [if_neg hne, List.append_nil]
  rw [names_join "/out" (by decide), passage_append, leadsTo_out h, Except.bind, passage_of_onward hon]

theorem reached_beside {target : String} (h : (besideTree target).isDir (join "/out" "A") = true) :
    Reached "/out" (besideTree target) besideProducts besideProducts.products := by
  have hfirst : ensure (earlyTree target) (.start "/out") "B.framework" none =
      (besideTree target, .ok ⟨"/out", [("B.framework", none)]⟩) := by
    have hmake : (earlyTree target).createDirAll (join "/out" "B.framework") =
        (besideTree target, .ok ()) :=
      (leadsTo_out rfl).createDirAll_of_none (by decide) (by decide) (by decide) rfl
    rw [ensure, path, start, hmake]
    rfl
  have hsecond : ensure (besideTree target) ⟨"/out", [("B.framework", none)]⟩ "A" none =
      (besideTree target, .ok besideProducts) := by
    rw [ensure, path, createDirAll_of_isDir (by decide) h]
    rfl
  exact ((Reached.start _).made hfirst).made hsecond

/-- Where nothing is merged, the framework gets its shorter name. -/
theorem consolidate_framework (hlead : t.LeadsTo p.root left ["out"])
    (hpaths : ∀ name ∈ ["B.framework", "B"], IsResolvable (p.path name))
    (hdir : t.get? ["out", "B.framework"] = some .dir) (hfree : t.get? ["out", "B"] = none)
    (hnew : "B" ∉ p.names) (hsteps : p.steps .empty [] = [])
    (hpairs : p.shortenings = [("B.framework", "B")]) :
    consolidate t p .empty [] = ((t.relocate ["out", "B.framework"] ["out", "B"],
      p.renameProduct "B.framework" "B"), .ok ⟨0, 0, 1⟩) := by
  obtain ⟨hlong, hshort⟩ : _ ∧ _ := by simpa using hpaths
  refine consolidate_of_no_steps hsteps ?_
  rw [hpairs, shorten_of_free 0 hlead (by decide) (by decide) hlong hshort (by decide) (by decide)
    hdir hfree hnew]
  rfl

theorem consolidate_beside (target : String) :
    consolidate (besideTree target) besideProducts .empty [] =
      ((shortTree target, shortProducts), .ok ⟨0, 0, 1⟩) :=
  consolidate_framework (leadsTo_out rfl) (by decide) rfl rfl (by decide) (by decide) (by decide)

/-- If the link leads to the framework, its own product is lost when the framework gets its shorter
name. -/
theorem isDir_linked : (besideTree "B.framework").isDir (join "/out" "A") = true ∧
    (shortTree "B.framework").isDir (join "/out" "A") = false := by
  constructor
  · have hstands : (besideTree "B.framework").Stands ["out"] ["B.framework"] := by decide
    refine isDir_iff.2 ⟨by decide, 39, ["out", "B.framework"], ?_⟩
    rw [LeadsTo, passage_link rfl rfl (by decide)]
    exact hstands.passage_eq 39
  · rw [← Bool.not_eq_true, isDir_iff]
    rintro ⟨-, left, loc, hlead⟩
    have hgone : (shortTree "B.framework").onward 39 ["out"] "B.framework" [] =
        .error .notFound := by
      rw [onward, if_neg (by decide), if_neg (by decide), if_neg (by decide)]
      rfl
    have hsteps : FileTree.steps "B.framework" = ["B.framework"] := by decide
    rw [LeadsTo, passage_link rfl rfl (by decide), hsteps, if_neg (by decide), passage_cons,
      hgone] at hlead
    cases hlead

/-- The path of the root leads through the directory of a framework. -/
def roundTree : FileTree := ⟨[(["out"], .dir), (["out", "B.framework"], .dir)]⟩

def shortRoundTree : FileTree := roundTree.relocate ["out", "B.framework"] ["out", "B"]

def roundProducts : ProductTree := ⟨"/out/B.framework/..", [("B.framework", none)]⟩

def shortRoundProducts : ProductTree := ⟨"/out/B.framework/..", [("B", none)]⟩

theorem leadsTo_round : roundTree.LeadsTo "/out/B.framework/.." maxLinks ["out"] := by
  have hnames : Path.names "/out/B.framework/.." = ["out", "B.framework"] ++ [".."] := by decide
  have hstands : roundTree.Stands [] ["out", "B.framework"] := by decide
  have hback : roundTree.onward maxLinks ["out", "B.framework"] ".." [] =
      .ok (maxLinks, ["out"], []) := rfl
  rw [LeadsTo, hnames, passage_append, hstands.passage_eq, Except.bind]
  exact (passage_of_onward hback).trans (passage_nil ..)

theorem reached_round :
    Reached "/out/B.framework/.." roundTree roundProducts roundProducts.products := by
  have hon : roundTree.onward maxLinks ["out"] "B.framework" [] =
      .ok (maxLinks, ["out", "B.framework"], []) := rfl
  have hdir : roundTree.isDir (join "/out/B.framework/.." "B.framework") = true := by
    refine isDir_iff.2 ⟨by decide, maxLinks, ["out", "B.framework"], ?_⟩
    rw [LeadsTo, names_join _ (by decide), passage_append, leadsTo_round, Except.bind]
    exact (passage_of_onward hon).trans (passage_nil ..)
  have hensure : ensure roundTree (.start "/out/B.framework/..") "B.framework" none =
      (roundTree, .ok roundProducts) := by
    rw [ensure, path, start, createDirAll_of_isDir (by decide) hdir]
    rfl
  exact (Reached.start _).made hensure

theorem consolidate_round : consolidate roundTree roundProducts .empty [] =
    ((shortRoundTree, shortRoundProducts), .ok ⟨0, 0, 1⟩) :=
  consolidate_framework leadsTo_round (by decide) rfl rfl (by decide) (by decide) (by decide)

/-- The framework gets its shorter name, and the path of the root leads nowhere. -/
theorem isDir_round : shortRoundTree.isDir (shortRoundProducts.path "B") = false := by
  rw [← Bool.not_eq_true, isDir_iff]
  rintro ⟨-, left, loc, hlead⟩
  have hnames : Path.names (shortRoundProducts.path "B") = "out" :: ["B.framework", "..", "B"] := by
    decide
  have hout : shortRoundTree.onward maxLinks [] "out" ["B.framework", "..", "B"] =
      .ok (maxLinks, ["out"], ["B.framework", "..", "B"]) := rfl
  have hgone : shortRoundTree.onward maxLinks ["out"] "B.framework" ["..", "B"] =
      .error .notFound := rfl
  rw [LeadsTo, hnames, passage_of_onward hout, passage_cons, hgone] at hlead
  cases hlead

/-- A product is lost when another one gets its shorter name, if it is a link that leads there; and
every product is, if the path of the root leads there. -/
theorem products_are_lost :
    (Reached "/out" (besideTree "B.framework") besideProducts besideProducts.products ∧
      (∀ call ∈ besideProducts.products, IsComponent call.1) ∧
      consolidate (besideTree "B.framework") besideProducts .empty [] =
        ((shortTree "B.framework", shortProducts), .ok ⟨0, 0, 1⟩) ∧
      "A" ∈ shortProducts.names ∧
      (shortTree "B.framework").isDir (shortProducts.path "A") = false) ∧
    Reached "/out/B.framework/.." roundTree roundProducts roundProducts.products ∧
      (∀ call ∈ roundProducts.products, IsComponent call.1) ∧
      consolidate roundTree roundProducts .empty [] =
        ((shortRoundTree, shortRoundProducts), .ok ⟨0, 0, 1⟩) ∧
      "B" ∈ shortRoundProducts.names ∧
      shortRoundTree.isDir (shortRoundProducts.path "B") = false := by
  obtain ⟨hdir, hlost⟩ := isDir_linked
  exact ⟨⟨reached_beside hdir, isComponent_beside, consolidate_beside _, by decide, hlost⟩,
    reached_round, by decide, consolidate_round, by decide, isDir_round⟩

/-- A link that leads elsewhere stands apart from the framework. -/
theorem leadsApart_beside {newName : String → String} (hframework : newName "B.framework" = "B")
    (hlink : newName "A" = "A") : LeadsApart (besideTree "/lib") besideProducts newName := by
  have hnames : besideProducts.names = ["B.framework", "A"] := rfl
  have hapart : ∀ top : String, IsApart besideProducts newName ["out"] [top] := by
    intro top name hname hne
    rw [hnames, List.mem_cons, List.mem_singleton] at hname
    rcases hname with rfl | rfl
    · rw [hframework]
      simp [isWithin, List.isPrefixOf]
    · exact absurd hlink hne
  constructor
  · intro left base hlead
    obtain ⟨-, rfl⟩ := (leadsTo_out (t := besideTree "/lib") rfl).unique hlead
    have hroot : Path.names "/out" = ["out"] := by decide
    have hout : (besideTree "/lib").get? ["out"] = some .dir := rfl
    change Stays _ _ maxLinks [] (Path.names "/out")
    rw [hroot]
    exact stays_name (by decide) (by simp [hout]) (hapart _)
  · intro left base hlead name hname target hget
    obtain ⟨-, rfl⟩ := (leadsTo_out (t := besideTree "/lib") rfl).unique hlead
    rw [hnames, List.mem_cons, List.mem_singleton] at hname
    rcases hname with rfl | rfl
    · cases hget
    · cases hget
      have hsteps : FileTree.steps "/lib" = ["lib"] := by decide
      have hlib : (besideTree "/lib").get? ["lib"] = some .dir := rfl
      rw [hsteps, if_pos (by decide)]
      exact stays_name (by decide) (by simp [hlib]) (hapart _)

theorem products_stand_beside :
    Reached "/out" (besideTree "/lib") besideProducts besideProducts.products ∧
      (∀ call ∈ besideProducts.products, IsComponent call.1) ∧
      consolidate (besideTree "/lib") besideProducts .empty [] =
        ((shortTree "/lib", shortProducts), .ok ⟨0, 0, 1⟩) ∧
      (shortTree "/lib").isDir (shortProducts.path "B") = true ∧
      (shortTree "/lib").isDir (shortProducts.path "A") = true := by
  have hdir : (besideTree "/lib").isDir (join "/out" "A") = true := by
    have hstands : (besideTree "/lib").Stands [] ["lib"] := by decide
    refine isDir_iff.2 ⟨by decide, 39, ["lib"], ?_⟩
    rw [LeadsTo, passage_link rfl rfl (by decide)]
    exact hstands.passage_eq 39
  have hreached := reached_beside hdir
  obtain ⟨-, -, -, hconsolidated⟩ := hreached.products_stand isComponent_beside
  obtain ⟨-, newName, -, hq, hfound⟩ := hconsolidated .empty [] (shortTree "/lib") shortProducts
    (congrArg (·.1) (consolidate_beside "/lib"))
  have hrecorded : recorded besideProducts.products = [("B.framework", none), ("A", none)] := by
    decide
  have hnew : "B" = newName "B.framework" ∧ "A" = newName "A" := by
    simpa [shortProducts, hrecorded] using hq
  have hstands := hfound (leadsApart_beside hnew.1.symm hnew.2.symm)
  exact ⟨hreached, isComponent_beside, consolidate_beside _, hstands "B" (by decide),
    hstands "A" (by decide)⟩

end BitcodeReplay.ProductTree
