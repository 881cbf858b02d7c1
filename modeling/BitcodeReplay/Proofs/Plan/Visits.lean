import BitcodeReplay.Proofs.Plan.Precedence

/-!
Every product is visited once when products are merged, whatever depends on what. The order lists
the directories of the nodes that are left, not the products themselves, so it matters that a
product is found again at the node that it leads to. After a run of planned jobs it is: where several
targets share a directory, the product leads to the node of the target which came first, and a name
that the snapshot does not know leads to no node.
-/

namespace BitcodeReplay

open Replay Traversal

namespace ProductTree

/-- The directories that are found at some nodes are in an order. -/
def Lists (p : ProductTree) (g : Graph) (nodes : List Nat) (order : List String) : Prop :=
  ∀ m ∈ nodes, ∀ name, p.foundAt g m = some name → name ∈ order

/-- A product with a node is found there. -/
def FoundAgain (p : ProductTree) (g : Graph) (product : String) : Prop :=
  ∀ n, p.node? g product = some n → p.foundAt g n = some product

variable {p : ProductTree} {g : Graph} {product : String} {order products : List String}
  {seen : List Nat} {n : Nat}

theorem Lists.addName (h : p.Lists g seen order) (name : String) :
    p.Lists g seen (addName order name) :=
  fun m hm name' hfound => mem_addName.2 (.inl (h m hm name' hfound))

/-- What a traversal leaves is listed, and it leaves all that it enters. -/
theorem Lists.visit (h : p.Lists g seen order) (n : Nat) :
    p.Lists g (entered (run (dependencyNodes g) (List.range g.size) [.visit n] seen) ++ seen)
      (p.addDirectories g order
        (left (run (dependencyNodes g) (List.range g.size) [.visit n] seen))) := by
  intro m hm name hfound
  rw [mem_entered_iff_left, List.mem_append] at hm
  rcases hm with hleft | hseen
  · exact mem_addDirectories.2 (.inr ⟨m, hleft, hfound⟩)
  · exact mem_addDirectories.2 (.inl (h m hseen name hfound))

theorem subset_orderFrom (p : ProductTree) (g : Graph) (products : List String) (seen : List Nat)
    (order : List String) : order ⊆ p.orderFrom g products seen order := by
  induction products generalizing seen order with
  | nil => exact List.Subset.refl _
  | cons first rest ih =>
    rw [orderFrom]
    split
    · exact fun name hname => ih _ _ (mem_addName.2 (.inl hname))
    · exact fun name hname => ih _ _ (mem_addDirectories.2 (.inl hname))

/-- From products on, each that is found again comes into the order, by its node if it has one. -/
theorem Lists.mem_orderFrom (h : p.Lists g seen order)
    (hfound : ∀ product ∈ products, p.FoundAgain g product) :
    ∀ product ∈ products, product ∈ p.orderFrom g products seen order := by
  induction products generalizing seen order with
  | nil => simp
  | cons first rest ih =>
    have hrest : ∀ product ∈ rest, p.FoundAgain g product :=
      fun product hproduct => hfound product (List.mem_cons_of_mem _ hproduct)
    rw [orderFrom]
    split
    · refine List.forall_mem_cons.2 ⟨?_, ih (h.addName first) hrest⟩
      exact subset_orderFrom _ _ _ _ _ (mem_addName.2 (.inr rfl))
    next n hnode =>
      refine List.forall_mem_cons.2 ⟨?_, ih (h.visit n) hrest⟩
      have hfirst : p.foundAt g n = some first := hfound first List.mem_cons_self n hnode
      obtain ⟨u, hu, -⟩ := Option.bind_eq_some_iff.1 hfirst
      have hentered := mem_entered_of_visit (List.mem_range.2 (Graph.lt_of_target? hu))
        (dependencyNodes g) seen
      exact subset_orderFrom _ _ _ _ _ (h.visit n n hentered first hfirst)

/-- Where every product is found again, the order holds each of them once and nothing else. -/
theorem mergeOrder_perm (hnames : p.names.Nodup)
    (hfound : ∀ product ∈ p.names, p.FoundAgain g product) : (p.mergeOrder g).Perm p.names := by
  have hstart : p.Lists g [] [] := by simp [Lists]
  exact (List.perm_ext_iff_of_nodup (nodup_mergeOrder p g) hnames).2 fun product =>
    ⟨fun hmem => mergeOrder_subset p g hmem, hstart.mem_orderFrom hfound product⟩

end ProductTree

namespace Plan

open ProductTree Pipeline

variable {i : Inputs} {archived : List String} {p : ProductTree}

/-- After a run of the planned jobs, products are merged in an order that holds each of them once. So
what is done are the steps of every product, once, whatever depends on what. -/
theorem mergeOrder_perm_names_after_run {replay : Replayer} {base scratch root : String}
    {tree after : FileTree} {tally : Tally} (ht : i.transcript.targetNames.Nodup)
    (hc : i.cache.guids.Nodup) (hrun : runJobs replay base scratch tree (.start root)
      (jobs i.transcript i.cache archived) = ((after, p), .ok tally)) :
    p.names.Nodup ∧ (p.mergeOrder i.graph).Perm p.names ∧
    ∀ embedded, (p.steps i.graph embedded).Perm
      (p.names.flatMap (p.stepsOf i.graph embedded)) := by
  have hdirectories := (partitions_jobs ht hc archived).directories
  have hp := (runJobs_records hrun hdirectories).2
  have hnames : p.names.Nodup := by rwa [names_planned hp]
  have hperm : (p.mergeOrder i.graph).Perm p.names :=
    mergeOrder_perm hnames fun product hproduct n hnode =>
      foundAt_of_node? ht hc hp hproduct hnode
  exact ⟨hnames, hperm, fun embedded => hperm.flatMap_right _⟩

/-- The framework's second target is found in the app, and the app's plugin in the framework. Both
products are visited once all the same, the framework before the app. -/
theorem mergeOrder_perm_names_after_run_borrowing :
    borrowing.transcript.targetNames.Nodup ∧ borrowing.cache.guids.Nodup ∧
    ∃ after tally, runJobs (replayJobs fun _ _ _ t => (t, .error .notFound)) "/" "/tmp"
      borrowingTree (.start "/out") (jobs borrowing.transcript borrowing.cache []) =
        ((after, borrowingProducts), .ok tally) ∧
      (borrowingProducts.mergeOrder borrowing.graph).Perm ["App.app", "Core.framework"] := by
  have ht : borrowing.transcript.targetNames.Nodup := by decide
  have hc : borrowing.cache.guids.Nodup := by decide
  obtain ⟨after, tally, hrun⟩ := runJobs_borrowing (replayJobs fun _ _ _ t => (t, .error .notFound))
  obtain ⟨-, hperm, -⟩ := mergeOrder_perm_names_after_run ht hc hrun
  exact ⟨ht, hc, after, tally, hrun, hperm⟩

end Plan

end BitcodeReplay
