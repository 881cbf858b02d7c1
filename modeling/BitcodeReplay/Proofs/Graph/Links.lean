import BitcodeReplay.Graph.Basic
import BitcodeReplay.Proofs.Traversal.Discovery
import Mathlib.Data.List.Induction
import Mathlib.Data.List.Nodup
import Mathlib.Logic.Function.Basic

/-!
Edges without node numbers. Relating pairs of identifiers one after the other leaves each identifier
with the links that this module describes: which neighbours it has whatever the order of the pairs,
and, where names are distinct, which of them it keeps as its dependencies. A graph is drawn from a
list of targets and the links of each, and built of nothing else: a target joins the list, a relation
joins the links, and numbers are places in the list.
-/

namespace BitcodeReplay.Graph

/-- An edge by the identifier of its end. -/
abbrev Link := EdgeKind × Pif.Guid

variable (nameOf : Pif.Guid → String)

/-- Adds a link, unless there is one to a neighbour of that name. -/
def pushLink (links : List Link) (l : Link) : List Link :=
  if nameOf l.2 ∈ links.map (nameOf ·.2) then links else links ++ [l]

/-- Adds a dependency at both its ends. -/
def relate (links : Pif.Guid → List Link) (p : Pif.Guid × Pif.Guid) : Pif.Guid → List Link :=
  let owner := Function.update links p.1 (pushLink nameOf (links p.1) (.dependency, p.2))
  Function.update owner p.2 (pushLink nameOf (owner p.2) (.depender, p.1))

/-- The links that some pairs, of an owner and its dependency each, leave behind. -/
def linksOf (pairs : List (Pif.Guid × Pif.Guid)) : Pif.Guid → List Link :=
  pairs.foldl (relate nameOf) fun _ => []

variable {nameOf}

@[simp] theorem linksOf_nil : linksOf nameOf [] = fun _ => [] := rfl

theorem linksOf_concat (pairs : List (Pif.Guid × Pif.Guid)) (p : Pif.Guid × Pif.Guid) :
    linksOf nameOf (pairs ++ [p]) = relate nameOf (linksOf nameOf pairs) p := by
  simp [linksOf]

theorem mem_pushLink {links : List Link} {l m : Link} (h : m ∈ pushLink nameOf links l) :
    m ∈ links ∨ m = l := by
  rw [pushLink] at h
  split at h
  · exact .inl h
  · simpa using h

theorem subset_pushLink (links : List Link) (l : Link) : links ⊆ pushLink nameOf links l := by
  rw [pushLink]
  split
  · exact List.Subset.refl _
  · exact List.subset_append_left _ _

theorem name_mem_pushLink (links : List Link) (l : Link) :
    nameOf l.2 ∈ (pushLink nameOf links l).map (nameOf ·.2) := by
  rw [pushLink]
  split
  · next h => exact h
  · simp

theorem mem_relate {links : Pif.Guid → List Link} {p : Pif.Guid × Pif.Guid} {x : Pif.Guid}
    {l : Link} (h : l ∈ relate nameOf links p x) :
    l ∈ links x ∨ (x = p.1 ∧ l = (.dependency, p.2)) ∨ (x = p.2 ∧ l = (.depender, p.1)) := by
  simp only [relate] at h
  by_cases h2 : x = p.2
  · subst h2
    rw [Function.update_self] at h
    rcases mem_pushLink h with h | h
    · by_cases h1 : p.2 = p.1
      · rw [Function.update_apply, if_pos h1] at h
        rcases mem_pushLink h with h | h
        · exact .inl (h1 ▸ h)
        · exact .inr (.inl ⟨h1, h⟩)
      · rw [Function.update_of_ne h1] at h
        exact .inl h
    · exact .inr (.inr ⟨rfl, h⟩)
  · rw [Function.update_of_ne h2] at h
    by_cases h1 : x = p.1
    · subst h1
      rw [Function.update_self] at h
      exact (mem_pushLink h).imp_right fun h => .inl ⟨rfl, h⟩
    · rw [Function.update_of_ne h1] at h
      exact .inl h

theorem subset_relate (links : Pif.Guid → List Link) (p : Pif.Guid × Pif.Guid) (x : Pif.Guid) :
    links x ⊆ relate nameOf links p x := by
  have howner : links x ⊆ Function.update links p.1
      (pushLink nameOf (links p.1) (.dependency, p.2)) x := by
    by_cases h1 : x = p.1
    · subst h1
      rw [Function.update_self]
      exact subset_pushLink _ _
    · rw [Function.update_of_ne h1]
      exact List.Subset.refl _
  refine List.Subset.trans howner ?_
  simp only [relate]
  by_cases h2 : x = p.2
  · subst h2
    rw [Function.update_self]
    exact subset_pushLink _ _
  · rw [Function.update_of_ne h2]
    exact List.Subset.refl _

theorem name_mem_relate_dependency (links : Pif.Guid → List Link) (p : Pif.Guid × Pif.Guid) :
    nameOf p.2 ∈ (relate nameOf links p p.1).map (nameOf ·.2) := by
  have howner : nameOf p.2 ∈ (Function.update links p.1
      (pushLink nameOf (links p.1) (.dependency, p.2)) p.1).map (nameOf ·.2) := by
    rw [Function.update_self]
    exact name_mem_pushLink (links p.1) (.dependency, p.2)
  simp only [relate]
  by_cases h : p.1 = p.2
  · rw [h, Function.update_self]
    rw [h] at howner
    exact List.map_subset _ (subset_pushLink _ _) howner
  · rwa [Function.update_of_ne h]

theorem name_mem_relate_depender (links : Pif.Guid → List Link) (p : Pif.Guid × Pif.Guid) :
    nameOf p.1 ∈ (relate nameOf links p p.2).map (nameOf ·.2) := by
  simp only [relate, Function.update_self]
  exact name_mem_pushLink _ (.depender, p.1)

/-! ### All links -/

/-- Every link stands for a pair. -/
theorem pair_of_mem_linksOf {pairs : List (Pif.Guid × Pif.Guid)} {x : Pif.Guid} {l : Link}
    (h : l ∈ linksOf nameOf pairs x) :
    (l.1 = .dependency ∧ (x, l.2) ∈ pairs) ∨ (l.1 = .depender ∧ (l.2, x) ∈ pairs) := by
  induction pairs using List.reverseRecOn with
  | nil => simp at h
  | append_singleton pairs p ih =>
    rw [linksOf_concat] at h
    rcases mem_relate h with h | ⟨rfl, rfl⟩ | ⟨rfl, rfl⟩
    · exact (ih h).imp (And.imp_right (List.mem_append_left _))
        (And.imp_right (List.mem_append_left _))
    · exact .inl ⟨rfl, by simp⟩
    · exact .inr ⟨rfl, by simp⟩

/-- Both ends of a pair have a neighbour of the name of the other end. -/
theorem names_of_mem_pairs {pairs : List (Pif.Guid × Pif.Guid)} {a b : Pif.Guid}
    (h : (a, b) ∈ pairs) : nameOf b ∈ (linksOf nameOf pairs a).map (nameOf ·.2) ∧
      nameOf a ∈ (linksOf nameOf pairs b).map (nameOf ·.2) := by
  induction pairs using List.reverseRecOn with
  | nil => simp at h
  | append_singleton pairs p ih =>
    rw [linksOf_concat]
    rcases List.mem_append.1 h with h | h
    · obtain ⟨hb, ha⟩ := ih h
      exact ⟨List.map_subset _ (subset_relate _ p a) hb, List.map_subset _ (subset_relate _ p b) ha⟩
    · obtain rfl := List.mem_singleton.1 h
      exact ⟨name_mem_relate_dependency _ (a, b), name_mem_relate_depender _ (a, b)⟩

/-! ### The dependencies that are kept -/

/-- The ends of the links that are dependencies. -/
def dependencyEnds (links : List Link) : List Pif.Guid :=
  (links.filter (·.1 == .dependency)).map (·.2)

/-- The ends of pairs have names of their own. -/
def NamesEnds (nameOf : Pif.Guid → String) (pairs : List (Pif.Guid × Pif.Guid)) : Prop :=
  ∀ p ∈ pairs, ∀ q ∈ pairs, ∀ a ∈ [p.1, p.2], ∀ b ∈ [q.1, q.2], nameOf a = nameOf b → a = b

theorem NamesEnds.of_append {pairs more : List (Pif.Guid × Pif.Guid)}
    (h : NamesEnds nameOf (pairs ++ more)) : NamesEnds nameOf pairs :=
  fun p hp q hq => h p (List.mem_append_left _ hp) q (List.mem_append_left _ hq)

/-- With names of their own, the neighbours are the other ends of the pairs. -/
theorem name_mem_iff {pairs : List (Pif.Guid × Pif.Guid)} {p : Pif.Guid × Pif.Guid}
    (hn : NamesEnds nameOf (pairs ++ [p])) (a : Pif.Guid) {b : Pif.Guid}
    (hb : b ∈ [p.1, p.2]) : nameOf b ∈ (linksOf nameOf pairs a).map (nameOf ·.2) ↔
      (a, b) ∈ pairs ∨ (b, a) ∈ pairs := by
  constructor
  · intro h
    obtain ⟨⟨kind, c⟩, hl, hc⟩ := List.mem_map.1 h
    have hp : p ∈ pairs ++ [p] := by simp
    rcases pair_of_mem_linksOf hl with ⟨-, hpair⟩ | ⟨-, hpair⟩
    · have := hn (a, c) (List.mem_append_left _ hpair) p hp c (by simp) b hb hc
      exact .inl (this ▸ hpair)
    · have := hn (c, a) (List.mem_append_left _ hpair) p hp c (by simp) b hb hc
      exact .inr (this ▸ hpair)
  · rintro (h | h)
    · exact (names_of_mem_pairs h).1
    · exact (names_of_mem_pairs h).2

theorem dependencyEnds_pushLink (links : List Link) (l : Link) :
    dependencyEnds (pushLink nameOf links l) = dependencyEnds links ++
      if l.1 = .dependency ∧ nameOf l.2 ∉ links.map (nameOf ·.2) then [l.2] else [] := by
  obtain ⟨kind, b⟩ := l
  by_cases h : nameOf b ∈ links.map (nameOf ·.2)
  · simp only [pushLink, h, if_true, not_true_eq_false, and_false, if_false, List.append_nil]
  · cases kind <;> simp only [pushLink, h, if_false, dependencyEnds, List.filter_append,
      List.map_append, not_false_eq_true, and_true] <;> simp

/-- One more pair gives its owner a dependency, unless the opposite pair came before. -/
theorem dependencyEnds_concat {pairs : List (Pif.Guid × Pif.Guid)} {p : Pif.Guid × Pif.Guid}
    (hn : NamesEnds nameOf (pairs ++ [p])) (hne : p.1 ≠ p.2) (hnew : p ∉ pairs) (x : Pif.Guid) :
    dependencyEnds (linksOf nameOf (pairs ++ [p]) x) = dependencyEnds (linksOf nameOf pairs x) ++
      if x = p.1 ∧ (p.2, p.1) ∉ pairs then [p.2] else [] := by
  rw [linksOf_concat, relate]
  by_cases h1 : x = p.1
  · subst h1
    have hname := name_mem_iff hn p.1 (List.mem_cons_of_mem p.1 List.mem_cons_self)
    rw [Function.update_of_ne hne, Function.update_self, dependencyEnds_pushLink]
    simp only [hname, hnew, false_or, true_and]
  · simp only [h1, false_and, if_false, List.append_nil]
    by_cases h2 : x = p.2
    · subst h2
      rw [Function.update_self, dependencyEnds_pushLink, Function.update_of_ne h1]
      simp
    · rw [Function.update_of_ne h2, Function.update_of_ne h1]

/-- The dependencies kept are those of the pairs, in their order, without those for which the
opposite pair came before. -/
theorem dependencyEnds_sublist {pairs : List (Pif.Guid × Pif.Guid)}
    (hn : NamesEnds nameOf pairs) (hne : ∀ p ∈ pairs, p.1 ≠ p.2) (hnew : pairs.Nodup)
    (x : Pif.Guid) :
    (dependencyEnds (linksOf nameOf pairs x)).Sublist (Traversal.endsFrom x pairs) := by
  induction pairs using List.reverseRecOn with
  | nil => exact List.Sublist.refl _
  | append_singleton pairs p ih =>
    obtain ⟨hold, -, hp⟩ := List.nodup_append.1 hnew
    have hmem : p ∉ pairs := fun h => hp p h p (by simp) rfl
    rw [dependencyEnds_concat hn (hne p (by simp)) hmem, Traversal.endsFrom_append]
    refine (ih hn.of_append (fun q hq => hne q (List.mem_append_left _ hq)) hold).append ?_
    split
    · next h => simp [Traversal.endsFrom, h.1]
    · exact List.nil_sublist _

/-- Of a pair and its opposite the one that comes first keeps its dependency, and a pair without an
opposite keeps it. -/
theorem mem_dependencyEnds {pairs : List (Pif.Guid × Pif.Guid)}
    (hn : NamesEnds nameOf pairs) (hne : ∀ p ∈ pairs, p.1 ≠ p.2) (hnew : pairs.Nodup)
    {a b : Pif.Guid} (hab : (a, b) ∈ pairs) :
    b ∈ dependencyEnds (linksOf nameOf pairs a) ↔
      a ∉ dependencyEnds (linksOf nameOf pairs b) := by
  induction pairs using List.reverseRecOn generalizing a b with
  | nil => simp at hab
  | append_singleton pairs p ih =>
    obtain ⟨hold, -, hp⟩ := List.nodup_append.1 hnew
    have hmem : p ∉ pairs := fun h => hp p h p (by simp) rfl
    have hnp := hne p (by simp)
    have hsub := dependencyEnds_sublist hn.of_append
      (fun q hq => hne q (List.mem_append_left _ hq)) hold
    have hpair : ∀ {x y}, y ∈ dependencyEnds (linksOf nameOf pairs x) → (x, y) ∈ pairs :=
      fun h => Traversal.mem_endsFrom.1 ((hsub _).subset h)
    have ih : ∀ {x y}, (x, y) ∈ pairs → (y ∈ dependencyEnds (linksOf nameOf pairs x) ↔
        x ∉ dependencyEnds (linksOf nameOf pairs y)) :=
      fun h => ih hn.of_append (fun q hq => hne q (List.mem_append_left _ hq)) hold h
    rw [dependencyEnds_concat hn hnp hmem, dependencyEnds_concat hn hnp hmem]
    rcases List.mem_append.1 hab with hbefore | hlast
    · -- neither the new pair nor its opposite adds to what is kept of an old one
      have hnot : ¬ (p = (a, b)) := fun e => hmem (e ▸ hbefore)
      have hopp : ¬ (p = (b, a) ∧ (p.2, p.1) ∉ pairs) := by
        rintro ⟨rfl, h⟩
        exact h hbefore
      obtain ⟨x, y⟩ := p
      simp only [Prod.mk.injEq] at hnot hopp
      have hb : b ∉ (if a = x ∧ (y, x) ∉ pairs then [y] else []) := by
        split
        · next h => simpa using fun e => hnot ⟨h.1.symm, e.symm⟩
        · simp
      have ha : a ∉ (if b = x ∧ (y, x) ∉ pairs then [y] else []) := by
        split
        · next h => simpa using fun e => hopp ⟨⟨h.1.symm, e.symm⟩, h.2⟩
        · simp
      simp only [List.mem_append, hb, ha, or_false]
      exact ih hbefore
    · obtain rfl := List.mem_singleton.1 hlast
      have hba : b ≠ a := fun e => hnp e.symm
      have hnone : b ∉ dependencyEnds (linksOf nameOf pairs a) := fun h => hmem (hpair h)
      by_cases hopp : (b, a) ∈ pairs
      · have hold : a ∈ dependencyEnds (linksOf nameOf pairs b) := (ih hopp).2 hnone
        simp [hopp, hba, hnone, hold]
      · have hold : a ∉ dependencyEnds (linksOf nameOf pairs b) := fun h => hopp (hpair h)
        simp [hopp, hba, hold]

/-! ### Graphs drawn from targets and links -/

/-- The targets as nodes, with links as edges. -/
def drawn (ts : List Pif.Target) (links : Pif.Guid → List Link) : Graph :=
  ⟨ts.map fun t =>
    ⟨t, (links t.guid).map fun l => ⟨(ts.map (·.guid)).idxOf l.2, l.1⟩⟩⟩

/-- The links lead to targets of the list and start at targets of the list. -/
structure Closed (ts : List Pif.Target) (links : Pif.Guid → List Link) : Prop where
  ends : ∀ a, ∀ l ∈ links a, l.2 ∈ ts.map (·.guid)
  starts : ∀ a, links a ≠ [] → a ∈ ts.map (·.guid)

variable {ts : List Pif.Target} {links : Pif.Guid → List Link}

@[simp] theorem drawn_nil (links : Pif.Guid → List Link) : drawn [] links = .empty := rfl

@[simp] theorem target?_drawn (n : Nat) : (drawn ts links).target? n = ts[n]? := by
  cases h : ts[n]? <;> simp [drawn, target?, node?, h]

@[simp] theorem size_drawn : (drawn ts links).size = ts.length := by simp [drawn, size]

theorem edges_drawn {n : Nat} {t : Pif.Target} (h : ts[n]? = some t) :
    (drawn ts links).edges n =
      (links t.guid).map fun l => ⟨(ts.map (·.guid)).idxOf l.2, l.1⟩ := by
  simp [drawn, edges, node?, h]

theorem findGuid?_drawn (a : Pif.Guid) : (drawn ts links).findGuid? a =
    if a ∈ ts.map (·.guid) then some ((ts.map (·.guid)).idxOf a) else none := by
  have hfind : (drawn ts links).findGuid? a = (ts.map (·.guid)).findIdx? (· == a) := by
    simp [findGuid?, drawn, List.findIdx?_map, Function.comp_def]
  rw [hfind]
  split
  · next h => exact List.findIdx?_eq_some_of_exists ⟨a, h, beq_self_eq_true a⟩
  · next h =>
    refine List.findIdx?_eq_none_iff.2 fun x hx => ?_
    exact beq_eq_false_iff_ne.2 fun hxa => h (hxa ▸ hx)

/-- The target in the place of an identifier. -/
theorem target_of_idxOf {a : Pif.Guid} (h : a ∈ ts.map (·.guid)) :
    ∃ t, ts[(ts.map (·.guid)).idxOf a]? = some t ∧ t.guid = a := by
  have hlt := List.idxOf_lt_length_of_mem h
  have hget := List.getElem_idxOf hlt
  rw [List.getElem_map] at hget
  exact ⟨_, List.getElem?_eq_getElem (by simpa using hlt), hget⟩

theorem number_drawn {t : Pif.Target} (h : t.guid ∈ ts.map (·.guid)) :
    (drawn ts links).number t = (ts.map (·.guid)).idxOf t.guid := by
  simp [number, findGuid?_drawn, h]

theorem add_drawn_of_mem {t : Pif.Target} (h : t.guid ∈ ts.map (·.guid)) :
    (drawn ts links).add t = drawn ts links := by
  rw [add, findGuid?_drawn, if_pos h]

theorem add_drawn_of_not_mem {t : Pif.Target} (hc : Closed ts links)
    (h : t.guid ∉ ts.map (·.guid)) :
    (drawn ts links).add t = drawn (ts ++ [t]) links := by
  have hnone : links t.guid = [] := by_contra fun hne => h (hc.starts _ hne)
  have hplace : ∀ a, ∀ l ∈ links a,
      ((ts ++ [t]).map (·.guid)).idxOf l.2 = (ts.map (·.guid)).idxOf l.2 := by
    intro a l hl
    rw [List.map_append, List.idxOf_append_of_mem (hc.ends a l hl)]
  rw [add, findGuid?_drawn, if_neg h]
  simp only [drawn, List.map_append, List.map_cons, List.map_nil, hnone]
  congr 2
  refine List.map_congr_left fun u _ => ?_
  congr 1
  refine List.map_congr_left fun l hl => ?_
  simpa using (hplace _ l hl).symm

/-- The node in the place of an identifier has the name of its target. -/
theorem name?_drawn (hname : ∀ t ∈ ts, nameOf t.guid = t.name) {a : Pif.Guid}
    (h : a ∈ ts.map (·.guid)) :
    (drawn ts links).name? ((ts.map (·.guid)).idxOf a) = some (nameOf a) := by
  obtain ⟨t, ht, rfl⟩ := target_of_idxOf h
  rw [name?, target?_drawn, ht, Option.map_some, hname t (List.mem_of_getElem? ht)]

theorem neighbourNames_drawn (hname : ∀ t ∈ ts, nameOf t.guid = t.name) (hc : Closed ts links)
    {n : Nat} {t : Pif.Target} (ht : ts[n]? = some t) :
    (drawn ts links).neighbourNames n = (links t.guid).map (nameOf ·.2) := by
  rw [neighbourNames, edges_drawn ht, List.filterMap_map]
  calc
    _ = (links t.guid).filterMap (some ∘ (nameOf ·.2)) := by
      apply List.filterMap_congr
      intro l hl
      exact name?_drawn hname (hc.ends _ l hl)
    _ = (links t.guid).map (nameOf ·.2) := by rw [List.filterMap_eq_map]

theorem dependencies_drawn {lookup : Pif.Guid → Option Pif.Target}
    (hlookup : ∀ t ∈ ts, lookup t.guid = some t) (hc : Closed ts links) {n : Nat}
    {t : Pif.Target} (ht : ts[n]? = some t) :
    (drawn ts links).dependencies n = (dependencyEnds (links t.guid)).filterMap lookup := by
  rw [dependencies, neighbours, edges_drawn ht, List.filter_map, List.map_map, dependencyEnds,
    List.filterMap_map, List.filterMap_map]
  apply List.filterMap_congr
  intro l hl
  obtain ⟨u, hu, hguid⟩ := target_of_idxOf (hc.ends _ l (List.mem_of_mem_filter hl))
  simp only [Function.comp_apply, target?_drawn]
  rw [hu, ← hguid, hlookup u (List.mem_of_getElem? hu)]

/-! ### Adding an edge -/

/-- Changing one node changes the links of its target. -/
theorem modify_drawn (hnodup : (ts.map (·.guid)).Nodup) {n : Nat} {t : Pif.Target}
    (ht : ts[n]? = some t) (l : Link) :
    (⟨(drawn ts links).nodes.modify n fun node =>
      { node with edges := node.edges ++ [⟨(ts.map (·.guid)).idxOf l.2, l.1⟩] }⟩ : Graph) =
      drawn ts (Function.update links t.guid (links t.guid ++ [l])) := by
  simp only [drawn]
  congr 1
  refine List.ext_getElem? fun m => ?_
  rw [List.getElem?_modify, List.getElem?_map, List.getElem?_map]
  cases hm : ts[m]? with
  | none => rfl
  | some u =>
    by_cases hnm : n = m
    · obtain rfl : t = u := by rw [hnm, hm] at ht; exact (Option.some.inj ht).symm
      simp [hnm]
    · have hne : u.guid ≠ t.guid := by
        intro he
        refine hnm ?_
        have hn' : (ts.map (·.guid))[n]? = some t.guid := by simp [ht]
        have hm' : (ts.map (·.guid))[m]? = some t.guid := by simp [hm, he]
        exact (List.getElem?_inj (by simpa using (List.getElem?_eq_some_iff.1 ht).1) hnodup).1
          (hn'.trans hm'.symm)
      simp [hnm, Function.update_of_ne hne]

theorem pushEdge_drawn (hname : ∀ t ∈ ts, nameOf t.guid = t.name)
    (hnodup : (ts.map (·.guid)).Nodup) (hc : Closed ts links) {a b : Pif.Guid}
    (ha : a ∈ ts.map (·.guid)) (hb : b ∈ ts.map (·.guid)) (kind : EdgeKind) :
    (drawn ts links).pushEdge ((ts.map (·.guid)).idxOf a) ⟨(ts.map (·.guid)).idxOf b, kind⟩ =
      drawn ts (Function.update links a (pushLink nameOf (links a) (kind, b))) := by
  obtain ⟨t, ht, rfl⟩ := target_of_idxOf ha
  rw [pushEdge, name?_drawn hname hb]
  simp only [neighbourNames_drawn hname hc ht, pushLink]
  split
  · rw [Function.update_eq_self]
  · exact modify_drawn hnodup ht (kind, b)

theorem Closed.pushLink (hc : Closed ts links) {a b : Pif.Guid} (ha : a ∈ ts.map (·.guid))
    (hb : b ∈ ts.map (·.guid)) (kind : EdgeKind) :
    Closed ts (Function.update links a (pushLink nameOf (links a) (kind, b))) where
  ends := by
    intro x l hl
    by_cases hx : x = a
    · subst hx
      rw [Function.update_self] at hl
      rcases mem_pushLink hl with hl | rfl
      · exact hc.ends _ l hl
      · exact hb
    · rw [Function.update_of_ne hx] at hl
      exact hc.ends _ l hl
  starts := by
    intro x hne
    by_cases hx : x = a
    · exact hx ▸ ha
    · rw [Function.update_of_ne hx] at hne
      exact hc.starts _ hne

theorem addEdge_drawn (hname : ∀ t ∈ ts, nameOf t.guid = t.name)
    (hnodup : (ts.map (·.guid)).Nodup) (hc : Closed ts links) {a b : Pif.Guid}
    (ha : a ∈ ts.map (·.guid)) (hb : b ∈ ts.map (·.guid)) :
    (drawn ts links).addEdge ((ts.map (·.guid)).idxOf a) ((ts.map (·.guid)).idxOf b)
      .dependency = drawn ts (relate nameOf links (a, b)) := by
  rw [addEdge, pushEdge_drawn hname hnodup hc ha hb]
  exact pushEdge_drawn hname hnodup (hc.pushLink ha hb .dependency) hb ha .depender

end BitcodeReplay.Graph
