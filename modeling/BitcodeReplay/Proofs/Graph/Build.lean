import BitcodeReplay.Graph.Build
import BitcodeReplay.Proofs.Graph.Links
import BitcodeReplay.Proofs.Pif.Cache

/-!
The dependency graph of a snapshot: which targets it holds and in which order, and what the edges of
each say about its direct dependencies.
-/

namespace BitcodeReplay.Graph

open Traversal

theorem build_nil (c : Pif.Cache) : build c [] = .empty := by
  rw [build, trace, List.map_nil, Traversal.run, List.foldl_nil]

/-- Every edge that is still to be passed stands right before the visit of its end. -/
def Paired : List (Traversal.Task Pif.Guid) → Prop
  | [] => True
  | .edge _ b :: rest => rest.head? = some (.visit b) ∧ Paired rest
  | .visit _ :: rest => Paired rest
  | .leave _ :: rest => Paired rest

theorem paired_roots (roots : List Pif.Guid) : Paired (roots.map .visit) := by
  induction roots with
  | nil => exact trivial
  | cons r rest ih => exact ih

theorem paired_tasksOf (next : Pif.Guid → List Pif.Guid) (a : Pif.Guid)
    {rest : List (Traversal.Task Pif.Guid)} (h : Paired rest) : Paired (tasksOf next a ++ rest) := by
  simp only [tasksOf]
  induction next a with
  | nil => exact h
  | cons b children ih => exact ⟨rfl, ih⟩

/-- The targets of the graph are those met, in order, and one more while it waits to be met: the end
of the edge that has just been passed. -/
def Waits (c : Pif.Cache) (tasks : List (Traversal.Task Pif.Guid)) (seen known : List Pif.Guid) : Prop :=
  known = seen.reverse ∨
    ∃ b, tasks.head? = some (.visit b) ∧ b ∈ c.guids ∧ b ∉ seen ∧ known = seen.reverse ++ [b]

theorem Waits.known_eq {c : Pif.Cache} {tasks : List (Traversal.Task Pif.Guid)} {seen known : List Pif.Guid}
    (h : Waits c tasks seen known)
    (hhead : ∀ b, tasks.head? = some (.visit b) → ¬ (b ∈ c.guids ∧ b ∉ seen)) :
    known = seen.reverse := by
  rcases h with h | ⟨b, hb, hv, hs, -⟩
  · exact h
  · exact absurd ⟨hv, hs⟩ (hhead b hb)

theorem Waits.nodup {c : Pif.Cache} {tasks : List (Traversal.Task Pif.Guid)}
    {seen known : List Pif.Guid} (h : Waits c tasks seen known) (hseen : seen.Nodup) :
    known.Nodup := by
  rcases h with rfl | ⟨b, -, -, hb, rfl⟩
  · exact List.nodup_reverse.2 hseen
  · rw [List.nodup_append]
    refine ⟨List.nodup_reverse.2 hseen, by simp, fun x hx y hy hxy => hb ?_⟩
    rw [List.mem_singleton.1 hy] at hxy
    exact hxy ▸ List.mem_reverse.1 hx

/-- What the traversal keeps: the graph so far is drawn from the targets met and the edges
passed. -/
structure Draws (c : Pif.Cache) (tasks : List (Traversal.Task Pif.Guid)) (seen : List Pif.Guid)
    (past : List (Event Pif.Guid)) (ts : List Pif.Target) : Prop where
  graph : past.foldl (apply c) .empty = drawn ts (linksOf c.nameOf (passed past))
  known : ∀ t ∈ ts, c.target? t.guid = some t
  waits : Waits c tasks seen (ts.map (·.guid))
  nodup : seen.Nodup
  ends : ∀ p ∈ passed past, p.1 ∈ ts.map (·.guid) ∧ p.2 ∈ ts.map (·.guid)
  paired : Paired tasks
  accounts : AccountsEdges c.dependencyGuids tasks seen past

variable {c : Pif.Cache} {tasks rest : List (Traversal.Task Pif.Guid)} {seen : List Pif.Guid}
  {past : List (Event Pif.Guid)} {ts : List Pif.Target}

theorem closed_linksOf {pairs : List (Pif.Guid × Pif.Guid)} {nameOf : Pif.Guid → String}
    (h : ∀ p ∈ pairs, p.1 ∈ ts.map (·.guid) ∧ p.2 ∈ ts.map (·.guid)) :
    Closed ts (linksOf nameOf pairs) where
  ends := by
    intro a l hl
    rcases pair_of_mem_linksOf hl with ⟨-, hp⟩ | ⟨-, hp⟩
    · exact (h _ hp).2
    · exact (h _ hp).1
  starts := by
    intro a hne
    obtain ⟨l, hl⟩ := List.exists_mem_of_ne_nil _ hne
    rcases pair_of_mem_linksOf hl with ⟨-, hp⟩ | ⟨-, hp⟩
    · exact (h _ hp).1
    · exact (h _ hp).2

theorem Draws.closed (h : Draws c tasks seen past ts) :
    Closed ts (linksOf c.nameOf (passed past)) := closed_linksOf h.ends

/-- A target is added at most once, and those that were there stay. -/
theorem Draws.add (h : Draws c tasks seen past ts) {u : Pif.Target}
    (hu : c.target? u.guid = some u) :
    ∃ ts', (past.foldl (apply c) .empty).add u = drawn ts' (linksOf c.nameOf (passed past)) ∧
      ts'.map (·.guid) = (if u.guid ∈ ts.map (·.guid) then ts.map (·.guid)
        else ts.map (·.guid) ++ [u.guid]) ∧
      ts.map (·.guid) ⊆ ts'.map (·.guid) ∧ u.guid ∈ ts'.map (·.guid) ∧
      ∀ t ∈ ts', c.target? t.guid = some t := by
  rw [h.graph]
  by_cases hmem : u.guid ∈ ts.map (·.guid)
  · exact ⟨ts, add_drawn_of_mem hmem, by rw [if_pos hmem], List.Subset.refl _, hmem, h.known⟩
  · refine ⟨ts ++ [u], add_drawn_of_not_mem h.closed hmem, ?_, ?_, by simp, ?_⟩
    · rw [if_neg hmem, List.map_append, List.map_singleton]
    · rw [List.map_append]
      exact List.subset_append_left _ _
    · intro t ht
      rcases List.mem_append.1 ht with ht | ht
      · exact h.known t ht
      · rwa [List.mem_singleton.1 ht]

theorem draws_leave {a : Pif.Guid} (h : Draws c (.leave a :: rest) seen past ts) :
    Draws c rest seen (past ++ [.leave a]) ts where
  graph := by
    rw [List.foldl_append, passed_concat_leave]
    exact h.graph
  known := h.known
  waits := .inl (h.waits.known_eq (by simp))
  nodup := h.nodup
  ends := by
    rw [passed_concat_leave]
    exact h.ends
  paired := h.paired
  accounts := h.accounts.leave

theorem draws_skip {a : Pif.Guid} (ha : ¬ (a ∈ c.guids ∧ a ∉ seen))
    (h : Draws c (.visit a :: rest) seen past ts) : Draws c rest seen past ts where
  graph := h.graph
  known := h.known
  waits := .inl (h.waits.known_eq fun b hb => by
    obtain rfl : a = b := by simpa using hb
    exact ha)
  nodup := h.nodup
  ends := h.ends
  paired := h.paired
  accounts := h.accounts.skip

theorem draws_enter {a : Pif.Guid} (ha : a ∈ c.guids) (hs : a ∉ seen)
    (h : Draws c (.visit a :: rest) seen past ts) :
    ∃ ts', Draws c (tasksOf c.dependencyGuids a ++ rest) (a :: seen) (past ++ [.enter a]) ts' := by
  obtain ⟨u, hu⟩ := Pif.Cache.mem_guids_iff.1 ha
  obtain rfl := Pif.Cache.guid_of_target? hu
  obtain ⟨ts', hgraph, hguids, hsub, -, hknown⟩ := h.add hu
  -- either the target has been waiting or it joins the graph now
  have horder : ts'.map (·.guid) = (u.guid :: seen).reverse := by
    rw [hguids, List.reverse_cons]
    rcases h.waits with heq | ⟨b, hb, -, -, heq⟩
    · rw [heq, if_neg (by simpa using hs)]
    · obtain rfl : u.guid = b := by simpa using hb
      rw [heq, if_pos (by simp)]
  refine ⟨ts', ?_, hknown, .inl horder, List.nodup_cons.2 ⟨hs, h.nodup⟩, ?_,
    paired_tasksOf _ _ h.paired, h.accounts.enter hs⟩
  · rw [List.foldl_append, passed_concat_enter, ← hgraph]
    simp [apply, hu]
  · rw [passed_concat_enter]
    exact fun p hp => (h.ends p hp).imp (fun h => hsub h) fun h => hsub h

theorem draws_edge {a b : Pif.Guid} (h : Draws c (.edge a b :: rest) seen past ts) :
    ∃ ts', Draws c rest seen (past ++ [.edge a b]) ts' := by
  have hpending : (a, b) ∈ passed past ++ pendingEdges (.edge a b :: rest) := by
    simp [pendingEdges]
  obtain ⟨hseen, hnext⟩ := h.accounts.of_mem hpending
  obtain ⟨t, u, ht, hu, -⟩ := Pif.Cache.mem_dependencyGuids.1 hnext
  obtain rfl := Pif.Cache.guid_of_target? ht
  obtain rfl := Pif.Cache.guid_of_target? hu
  obtain ⟨ts', hgraph, hguids, hsub, humem, hknown⟩ := h.add hu
  have hall := h.waits.known_eq (by simp)
  have htmem : t.guid ∈ ts'.map (·.guid) := hsub (by rw [hall]; exact List.mem_reverse.2 hseen)
  have hwaits : Waits c rest seen (ts'.map (·.guid)) := by
    rw [hguids, hall]
    split
    · exact .inl rfl
    · next hmem =>
      exact .inr ⟨u.guid, h.paired.1, Pif.Cache.mem_guids_of_target? hu, by simpa using hmem, rfl⟩
  have hends : ∀ p ∈ passed past, p.1 ∈ ts'.map (·.guid) ∧ p.2 ∈ ts'.map (·.guid) :=
    fun p hp => (h.ends p hp).imp (fun h => hsub h) fun h => hsub h
  refine ⟨ts', ?_, hknown, hwaits, h.nodup, ?_, h.paired.2, h.accounts.edge⟩
  · rw [List.foldl_append, passed_concat_edge, linksOf_concat,
      ← addEdge_drawn (fun t ht => Pif.Cache.nameOf_guid (hknown t ht))
        (hwaits.nodup h.nodup) (closed_linksOf hends) htmem humem, ← hgraph]
    simp only [List.foldl_cons, List.foldl_nil, apply, ht, hu]
    rw [hgraph, number_drawn htmem, number_drawn humem]
  · rw [passed_concat_edge]
    intro p hp
    rcases List.mem_append.1 hp with hp | hp
    · exact hends p hp
    · rw [List.mem_singleton.1 hp]
      exact ⟨htmem, humem⟩

/-- The graph of a snapshot is drawn from the targets that are met and the edges that are passed. -/
theorem draws_trace (c : Pif.Cache) (roots : List Pif.Guid) :
    ∃ ts, Draws c [] (entered (trace c roots)).reverse (trace c roots) ts := by
  have hstart : Draws c (roots.map .visit) [] [] [] :=
    ⟨rfl, by simp, .inl rfl, List.nodup_nil, by simp, paired_roots roots,
      accountsEdges_roots _ roots⟩
  have hend := run_invariant (P := fun tasks seen past => ∃ ts, Draws c tasks seen past ts)
    (fun a rest seen past ⟨ts, h⟩ => ⟨ts, draws_leave h⟩)
    (fun a b rest seen past ⟨_, h⟩ => draws_edge h)
    (fun a rest seen past ha hs ⟨_, h⟩ => draws_enter ha hs h)
    (fun a rest seen past ha ⟨ts, h⟩ => ⟨ts, draws_skip ha h⟩)
    (roots.map .visit) [] [] ⟨[], hstart⟩
  simpa [trace] using hend

/-! ### The nodes -/

/-- A target to which dependencies lead from a root. -/
inductive Reachable (c : Pif.Cache) (roots : List Pif.Guid) : Pif.Target → Prop
  | root {r : Pif.Guid} {t : Pif.Target} : r ∈ roots → c.target? r = some t → Reachable c roots t
  | dependency {u v : Pif.Target} :
      Reachable c roots u → v ∈ c.dependencies u → Reachable c roots v

variable {roots : List Pif.Guid}

theorem Reachable.target? {t : Pif.Target} (h : Reachable c roots t) :
    c.target? t.guid = some t := by
  cases h with
  | root _ ht => exact Pif.Cache.target?_guid ht
  | dependency _ hv => exact (Pif.Cache.target?_of_mem_dependencies hv).1

/-- A target is met when dependencies lead to it. -/
theorem reachable_iff_mem_entered {t : Pif.Target} (ht : c.target? t.guid = some t) :
    Reachable c roots t ↔ t.guid ∈ entered (trace c roots) := by
  have hmet := isDiscoveryOrder_entered c.dependencyGuids c.guids roots
  constructor
  · intro h
    clear ht
    induction h with
    | root hr ht =>
      rw [Pif.Cache.guid_of_target? ht]
      exact hmet.root_mem hr (Pif.Cache.mem_guids_of_target? ht)
    | dependency hu hv ih =>
      have hv' := (Pif.Cache.target?_of_mem_dependencies hv).1
      exact hmet.next_mem ih (Pif.Cache.mem_dependencyGuids.2 ⟨_, _, hu.target?, hv', hv⟩)
        (Pif.Cache.mem_guids_of_target? hv')
  · intro h
    obtain ⟨r, hr, -, hpath⟩ := hmet.mem_iff.1 h
    clear h
    generalize t.guid = a at hpath ht
    induction hpath generalizing t with
    | refl => exact .root hr ht
    | tail _ hstep ih =>
      obtain ⟨u, v, hu, hv, hd⟩ := Pif.Cache.mem_dependencyGuids.1 hstep.1
      obtain rfl : v = t := Option.some.inj (hv.symm.trans ht)
      exact .dependency (ih hu) hd

/-! ### The edges -/

section

variable (h : Draws c [] (entered (trace c roots)).reverse (trace c roots) ts)

include h

theorem build_eq_drawn : build c roots = drawn ts (linksOf c.nameOf (passed (trace c roots))) :=
  h.graph

theorem guids_eq_entered : ts.map (·.guid) = entered (trace c roots) := by
  simpa using h.waits.known_eq (by simp)

theorem mem_iff_reachable {t : Pif.Target} : t ∈ ts ↔ Reachable c roots t := by
  constructor
  · intro ht
    rw [reachable_iff_mem_entered (h.known t ht), ← guids_eq_entered h]
    exact List.mem_map_of_mem ht
  · intro ht
    have hguid := (reachable_iff_mem_entered ht.target?).1 ht
    rw [← guids_eq_entered h] at hguid
    obtain ⟨u, hu, he⟩ := List.mem_map.1 hguid
    have hsome : some u = some t := by rw [← h.known u hu, he, ht.target?]
    exact Option.some.inj hsome ▸ hu

/-- The edges passed at a target of the graph are its direct dependencies, in order. -/
theorem endsFrom_passed {u : Pif.Target} (hu : u ∈ ts) :
    endsFrom u.guid (passed (trace c roots)) = (c.dependencies u).map (·.guid) := by
  have hmem : u.guid ∈ (entered (trace c roots)).reverse := by
    rw [← guids_eq_entered h]
    exact List.mem_reverse.2 (List.mem_map_of_mem hu)
  have hends := h.accounts u.guid
  rw [if_pos hmem, Pif.Cache.dependencyGuids_eq (h.known u hu)] at hends
  simpa [pendingEdges] using hends

/-- The edges passed stand for direct dependencies of targets of the graph. -/
theorem mem_passed_iff {a b : Pif.Guid} : (a, b) ∈ passed (trace c roots) ↔
    ∃ u ∈ ts, ∃ v ∈ ts, u.guid = a ∧ v.guid = b ∧ v ∈ c.dependencies u := by
  constructor
  · intro hp
    obtain ⟨hstart, hend⟩ := h.ends _ hp
    obtain ⟨u, hu, rfl⟩ := List.mem_map.1 hstart
    obtain ⟨v, hv, rfl⟩ := List.mem_map.1 hend
    rw [← mem_endsFrom, endsFrom_passed h hu] at hp
    obtain ⟨w, hw, he⟩ := List.mem_map.1 hp
    have hsome : some w = some v := by
      rw [← (Pif.Cache.target?_of_mem_dependencies hw).1, he, h.known v hv]
    exact ⟨u, hu, v, hv, rfl, rfl, Option.some.inj hsome ▸ hw⟩
  · rintro ⟨u, hu, v, -, rfl, rfl, hd⟩
    rw [← mem_endsFrom, endsFrom_passed h hu]
    exact List.mem_map_of_mem hd

/-- An end of an edge of the traversal, as a target. -/
theorem mem_passed_guid_iff {u v : Pif.Target} (hu : u ∈ ts) (hv : v ∈ ts) :
    (u.guid, v.guid) ∈ passed (trace c roots) ↔ v ∈ c.dependencies u := by
  have hinj : ∀ {s t : Pif.Target}, s ∈ ts → t ∈ ts → s.guid = t.guid → s = t := by
    intro s t hs ht he
    have hsome : some s = some t := by rw [← h.known s hs, he, h.known t ht]
    exact Option.some.inj hsome
  rw [mem_passed_iff h]
  constructor
  · rintro ⟨s, hs, t, ht, hsu, htv, hd⟩
    rwa [hinj hs hu hsu, hinj ht hv htv] at hd
  · exact fun hd => ⟨u, hu, v, hv, rfl, rfl, hd⟩

/-- A direct dependency of a target of the graph is in the graph. -/
theorem mem_of_mem_dependencies {u v : Pif.Target} (hu : u ∈ ts) (hv : v ∈ c.dependencies u) :
    v ∈ ts :=
  (mem_iff_reachable h).2 (.dependency ((mem_iff_reachable h).1 hu) hv)

/-- Edges of the graph stand for direct dependencies, in the direction of their kind. -/
theorem dependency_of_mem_edges {n : Nat} {u : Pif.Target} (hu : ts[n]? = some u) {e : Edge}
    (he : e ∈ (build c roots).edges n) : ∃ v, (build c roots).target? e.neighbour = some v ∧
      (e.kind = .dependency → v ∈ c.dependencies u) ∧
      (e.kind = .depender → u ∈ c.dependencies v) := by
  have hmem := List.mem_of_getElem? hu
  rw [build_eq_drawn h, edges_drawn hu] at he
  rw [build_eq_drawn h]
  obtain ⟨l, hl, rfl⟩ := List.mem_map.1 he
  obtain ⟨v, hv, hguid⟩ := target_of_idxOf (h.closed.ends _ l hl)
  have hvmem := List.mem_of_getElem? hv
  refine ⟨v, by rwa [target?_drawn], ?_⟩
  have hpair := pair_of_mem_linksOf hl
  rw [← hguid, mem_passed_guid_iff h hmem hvmem, mem_passed_guid_iff h hvmem hmem] at hpair
  rcases hpair with ⟨hkind, hd⟩ | ⟨hkind, hd⟩
  · exact ⟨fun _ => hd, by simp [hkind]⟩
  · exact ⟨by simp [hkind], fun _ => hd⟩

/-- Both ends of a direct dependency have a neighbour of the other's name. -/
theorem names_of_mem_dependencies {n : Nat} {u v : Pif.Target} (hu : ts[n]? = some u)
    (hv : v ∈ c.dependencies u) : v.name ∈ (build c roots).neighbourNames n ∧
      ∃ m, (build c roots).target? m = some v ∧ u.name ∈ (build c roots).neighbourNames m := by
  have hmem := List.mem_of_getElem? hu
  have hvmem := mem_of_mem_dependencies h hmem hv
  obtain ⟨m, hm⟩ := List.mem_iff_getElem?.1 hvmem
  obtain ⟨hvname, huname⟩ := @names_of_mem_pairs c.nameOf _ _ _
    ((mem_passed_guid_iff h hmem hvmem).2 hv)
  rw [Pif.Cache.nameOf_guid (h.known v hvmem)] at hvname
  rw [Pif.Cache.nameOf_guid (h.known u hmem)] at huname
  have hname : ∀ t ∈ ts, c.nameOf t.guid = t.name := fun t ht => Pif.Cache.nameOf_guid (h.known t ht)
  rw [build_eq_drawn h, neighbourNames_drawn hname h.closed hu]
  refine ⟨hvname, m, by rwa [target?_drawn], ?_⟩
  rwa [neighbourNames_drawn hname h.closed hm]

/-! ### The dependencies that a node keeps -/

theorem nodup_passed : (passed (trace c roots)).Nodup := by
  apply nodup_of_endsFrom
  intro a
  have hends := h.accounts a
  rw [show pendingEdges ([] : List (Traversal.Task Pif.Guid)) = [] from rfl,
    List.append_nil] at hends
  rw [hends]
  split
  · exact Pif.Cache.nodup_dependencyGuids a
  · exact List.nodup_nil

theorem ne_of_mem_passed : ∀ p ∈ passed (trace c roots), p.1 ≠ p.2 := by
  rintro ⟨a, b⟩ hp
  obtain ⟨u, -, v, -, rfl, rfl, hd⟩ := (mem_passed_iff h).1 hp
  exact (Pif.Cache.target?_of_mem_dependencies hd).2.symm

theorem namesEnds_passed (hdistinct : ∀ s ∈ ts, ∀ t ∈ ts, s.name = t.name → s = t) :
    NamesEnds c.nameOf (passed (trace c roots)) := by
  have hend : ∀ p ∈ passed (trace c roots), ∀ a ∈ [p.1, p.2], ∃ t ∈ ts, t.guid = a := by
    intro p hp a ha
    obtain ⟨hstart, hend⟩ := h.ends p hp
    rcases List.mem_cons.1 ha with rfl | ha
    · exact List.mem_map.1 hstart
    · rw [List.mem_singleton.1 ha]
      exact List.mem_map.1 hend
  intro p hp q hq a ha b hb hname
  obtain ⟨s, hs, rfl⟩ := hend p hp a ha
  obtain ⟨t, ht, rfl⟩ := hend q hq b hb
  rw [Pif.Cache.nameOf_guid (h.known s hs), Pif.Cache.nameOf_guid (h.known t ht)] at hname
  rw [hdistinct s hs t ht hname]

theorem dependencies_build {n : Nat} {u : Pif.Target} (hu : ts[n]? = some u) :
    (build c roots).dependencies n =
      (dependencyEnds (linksOf c.nameOf (passed (trace c roots)) u.guid)).filterMap c.target? := by
  rw [build_eq_drawn h, dependencies_drawn h.known h.closed hu]

theorem mem_dependencies_build {n : Nat} {u v : Pif.Target} (hu : ts[n]? = some u) (hv : v ∈ ts) :
    v ∈ (build c roots).dependencies n ↔
      v.guid ∈ dependencyEnds (linksOf c.nameOf (passed (trace c roots)) u.guid) := by
  rw [dependencies_build h hu, List.mem_filterMap]
  constructor
  · rintro ⟨a, ha, hav⟩
    rwa [Pif.Cache.guid_of_target? hav]
  · exact fun hmem => ⟨v.guid, hmem, h.known v hv⟩

/-- With distinct names, a node keeps its direct dependencies in their order, and of two targets
that depend on each other exactly one keeps the other. -/
theorem dependencies_kept (hdistinct : ∀ s ∈ ts, ∀ t ∈ ts, s.name = t.name → s = t) {n : Nat}
    {u : Pif.Target} (hu : ts[n]? = some u) :
    ((build c roots).dependencies n).Sublist (c.dependencies u) ∧
      ∀ v ∈ c.dependencies u, (u ∉ c.dependencies v → v ∈ (build c roots).dependencies n) ∧
        ∀ m, ts[m]? = some v →
          (v ∈ (build c roots).dependencies n ↔ u ∉ (build c roots).dependencies m) := by
  have hmem := List.mem_of_getElem? hu
  have hnames := namesEnds_passed h hdistinct
  have hsub := dependencyEnds_sublist hnames (ne_of_mem_passed h) (nodup_passed h)
  constructor
  · have hends := hsub u.guid
    rw [endsFrom_passed h hmem] at hends
    rw [dependencies_build h hu, ← Pif.Cache.filterMap_target?_dependencies u]
    exact hends.filterMap _
  · intro v hv
    have hvmem := mem_of_mem_dependencies h hmem hv
    have hkept := mem_dependencyEnds hnames (ne_of_mem_passed h) (nodup_passed h)
      ((mem_passed_guid_iff h hmem hvmem).2 hv)
    refine ⟨fun hone => ?_, fun m hm => ?_⟩
    · rw [mem_dependencies_build h hu hvmem, hkept]
      intro hopp
      have hpair := mem_endsFrom.1 ((hsub v.guid).subset hopp)
      exact hone ((mem_passed_guid_iff h hvmem hmem).1 hpair)
    · rwa [mem_dependencies_build h hu hvmem, mem_dependencies_build h hm hmem]

end

/-- The dependency graph of a snapshot, whatever cycles, repeated roots and repeated names there
are: its nodes are the targets that can be reached, numbered as a depth-first traversal meets them,
and its edges are their direct dependencies up to names. -/
theorem build_is_dependency_graph (c : Pif.Cache) (roots : List Pif.Guid) :
    (∀ t, (∃ n, (build c roots).target? n = some t) ↔ Reachable c roots t) ∧
    ((build c roots).nodes.map (·.target.guid)).Nodup ∧
    IsDiscoveryOrder c.dependencyGuids c.guids roots
      ((build c roots).nodes.map (·.target.guid)) ∧
    (∀ n u, (build c roots).target? n = some u → ∀ e ∈ (build c roots).edges n,
      ∃ v, (build c roots).target? e.neighbour = some v ∧
        (e.kind = .dependency → v ∈ c.dependencies u) ∧
        (e.kind = .depender → u ∈ c.dependencies v)) ∧
    (∀ n u, (build c roots).target? n = some u → ∀ v ∈ c.dependencies u,
      v.name ∈ (build c roots).neighbourNames n ∧
        ∃ m, (build c roots).target? m = some v ∧
          u.name ∈ (build c roots).neighbourNames m) ∧
    ((∀ s t, Reachable c roots s → Reachable c roots t → s.name = t.name → s = t) →
      ∀ n u, (build c roots).target? n = some u →
        ((build c roots).dependencies n).Sublist (c.dependencies u) ∧
          ∀ v ∈ c.dependencies u,
            (u ∉ c.dependencies v → v ∈ (build c roots).dependencies n) ∧
              ∀ m, (build c roots).target? m = some v →
                (v ∈ (build c roots).dependencies n ↔
                  u ∉ (build c roots).dependencies m)) := by
  obtain ⟨ts, h⟩ := draws_trace c roots
  have htarget : ∀ n, (build c roots).target? n = ts[n]? := by
    intro n
    rw [build_eq_drawn h, target?_drawn]
  have hguids : (build c roots).nodes.map (·.target.guid) = entered (trace c roots) := by
    rw [build_eq_drawn h, ← guids_eq_entered h]
    simp [drawn]
  have hmet := isDiscoveryOrder_entered c.dependencyGuids c.guids roots
  simp only [htarget, hguids]
  refine ⟨fun t => ?_, hmet.nodup, hmet, fun n u hu e he => ?_, fun n u hu v hv => ?_, ?_⟩
  · rw [← mem_iff_reachable h, List.mem_iff_getElem?]
  · simpa only [htarget] using dependency_of_mem_edges h hu he
  · simpa only [htarget] using names_of_mem_dependencies h hu hv
  · intro hdistinct n u hu
    refine dependencies_kept h (fun s hs t ht => ?_) hu
    exact hdistinct s t ((mem_iff_reachable h).1 hs) ((mem_iff_reachable h).1 ht)

end BitcodeReplay.Graph
