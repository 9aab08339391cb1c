import Dataflow.Proofs.Halting

/-! # Nodes are expanded once

A node that is looked at before its parents is expanded: its missing parents go on the stack above
it. With outputs nothing else is ever put on the stack, so above an expanded node there are only
ancestors of it, and when it is on top again all its parents have been produced. Main statement: so
no node is expanded twice, and the stack cannot outgrow the links of the model. Without outputs this
does not hold, for the dependents of a parent may bring a node back to the top too early.
-/

namespace Dataflow

open Relation

namespace Traversal

/-- The node whose missing parents the next step puts on the stack, if it does that. -/
def expands? (traversal : Traversal) : Option Node :=
  match traversal.stack with
  | [] => none
  | top :: _ =>
    if top ∈ traversal.visited then none
    else (traversal.model.get? top).filter fun node => !traversal.isReady node

/-- Steps lead from the first traversal to the last one. These are the nodes that they have
    expanded, the latest first. -/
inductive Trail (first : Traversal) : (expanded : List Node) → (last : Traversal) → Prop where
  | start : Trail first [] first
  | step {expanded : List Node} {traversal after : Traversal} : Trail first expanded traversal →
      traversal.Leads after → Trail first (traversal.expands?.toList ++ expanded) after

theorem exists_trail {first last : Traversal} (path : ReflTransGen Leads first last) :
    ∃ expanded, first.Trail expanded last := by
  induction path with
  | refl => exact ⟨[], .start⟩
  | tail _ step ih =>
      obtain ⟨expanded, trail⟩ := ih
      exact ⟨_, trail.step step⟩

/-- The top of the stack is taken off, and has been produced, now if not before. -/
structure Pops (before after : Traversal) : Prop where
  isOf : after.model = before.model
  stack : ∃ top ∈ after.visited, before.stack = top :: after.stack
  visited : before.visited ⊆ after.visited

/-- The node on top of the stack is missing and so is one of its parents. The missing parents are
    put on top of it. -/
structure Pushes (before : Traversal) (node : Node) (after : Traversal) : Prop where
  isOf : after.model = before.model
  stack : after.stack = node.parents.filter (· ∉ before.visited) ++ before.stack
  visited : after.visited = before.visited
  onTop : before.stack.head? = some node.id
  new : node.id ∉ before.visited
  waits : ∃ parent ∈ node.parents, parent ∉ before.visited

namespace Sound

variable {model : Model} {outputs : List NodeId} {traversal after : Traversal}

theorem leads (linked : model.Linked) (sound : Sound model outputs traversal)
    (leads : traversal.Leads after) : Sound model outputs after := by
  rcases leads with step | ⟨node, step⟩
  · exact (sound.moved linked (step ▸ traversal.takes_step)).1
  · exact (sound.produced linked (step ▸ traversal.takes_step)).1

/-- With outputs, a step takes the top off the stack or expands it. -/
theorem leads_cases (linked : model.Linked) (sound : Sound model outputs traversal)
    (given : traversal.full = false) (leads : traversal.Leads after) :
    (traversal.expands? = none ∧ traversal.Pops after) ∨
      ∃ node ∈ model.nodes, traversal.expands? = some node ∧ traversal.Pushes node after := by
  obtain rfl := sound.isOf
  have takes := traversal.takes_step
  rcases leads with step | ⟨node, step⟩
  · rw [step] at takes
    cases takes with
    | reseeded _ whole =>
        rw [given] at whole
        cases whole
    | @dropped top below stack gone =>
        exact .inl ⟨by simp [expands?, stack, gone], rfl, ⟨top, gone, stack⟩, List.Subset.refl _⟩
    | unknown stack _ absent =>
        have present := sound.known _ (stack ▸ List.mem_cons_self)
        rw [Model.contains, absent] at present
        cases present
    | @waiting _ parent _ node stack new found named missing =>
        obtain ⟨member, rfl⟩ := linked.get?_eq_some_iff.1 found
        have waits : ∃ parent ∈ node.parents, parent ∉ traversal.visited := ⟨parent, named, missing⟩
        refine .inr ⟨node, member, ?_, rfl, rfl, rfl, by rw [stack]; rfl, new, waits⟩
        simpa [expands?, stack, new, found, isReady] using waits
  · rw [step] at takes
    cases takes with
    | @ready top below _ stack new found parents =>
        left
        refine ⟨?_, rfl, ⟨top, List.mem_cons_self, ?_⟩, List.subset_cons_self _ _⟩
        · simpa [expands?, stack, new, found, isReady] using parents
        · simp [given, stack]

end Sound

/-- Above the node on the stack there are only ancestors of it, and among them all of its parents
    that are missing. -/
def Awaits (traversal : Traversal) (node : Node) : Prop :=
  ∃ above below, traversal.stack = above ++ node.id :: below ∧
    (∀ id ∈ above, TransGen traversal.model.IsParent id node.id) ∧
    ∀ parent ∈ node.parents, parent ∈ above ∨ parent ∈ traversal.visited

namespace Awaits

variable {traversal after : Traversal} {node : Node}

/-- On top of the stack the node has no missing parents left. -/
theorem parents_produced (awaits : traversal.Awaits node) (acyclic : traversal.model.Acyclic)
    (onTop : traversal.stack.head? = some node.id) :
    ∀ parent ∈ node.parents, parent ∈ traversal.visited := by
  obtain ⟨above, below, stack, ancestors, parents⟩ := awaits
  cases above with
  | nil => simpa using parents
  | cons id above =>
      -- The node would be an ancestor of itself.
      rw [stack] at onTop
      obtain rfl : id = node.id := by simpa using onTop
      exact absurd (ancestors _ List.mem_cons_self) (acyclic _)

theorem pops (awaits : traversal.Awaits node) (pops : traversal.Pops after)
    (missing : node.id ∉ after.visited) : after.Awaits node := by
  obtain ⟨above, below, stack, ancestors, parents⟩ := awaits
  obtain ⟨top, gone, popped⟩ := pops.stack
  rw [stack] at popped
  cases above with
  | nil =>
      obtain ⟨rfl, -⟩ := List.cons.inj popped
      exact absurd gone missing
  | cons id above =>
      obtain ⟨rfl, rest⟩ := List.cons.inj popped
      obtain ⟨-, ancestors⟩ := List.forall_mem_cons.1 ancestors
      refine ⟨above, below, rest.symm, pops.isOf ▸ ancestors, fun parent named => ?_⟩
      rcases parents parent named with stacked | early
      · rcases List.mem_cons.1 stacked with rfl | stacked
        · exact .inr gone
        · exact .inl stacked
      · exact .inr (pops.visited early)

/-- Of another node the one on top is an ancestor, and so are its parents. -/
theorem pushes {top : Node} (awaits : traversal.Awaits node) (different : node.id ≠ top.id)
    (member : top ∈ traversal.model.nodes) (pushes : traversal.Pushes top after) :
    after.Awaits node := by
  obtain ⟨above, below, stack, ancestors, parents⟩ := awaits
  have onTop := pushes.onTop
  rw [stack] at onTop
  cases above with
  | nil => exact absurd (Option.some.inj onTop) different
  | cons id above =>
      -- What comes on top are parents of an ancestor, so ancestors too.
      obtain rfl : id = top.id := Option.some.inj onTop
      refine ⟨top.parents.filter (· ∉ traversal.visited) ++ top.id :: above, below, ?_, ?_, ?_⟩
      · rw [pushes.stack, stack, List.append_assoc, List.cons_append]
      · rw [pushes.isOf]
        intro id stacked
        rcases List.mem_append.1 stacked with waited | old
        · have isParent : traversal.model.IsParent id top.id :=
            ⟨top, member, rfl, (List.mem_filter.1 waited).1⟩
          exact .head isParent (ancestors _ List.mem_cons_self)
        · exact ancestors id old
      · rw [pushes.visited]
        intro parent named
        exact (parents parent named).imp_left (List.mem_append_right _)

/-- A node that is expanded is on top, and its missing parents come above it. -/
theorem of_pushes (member : node ∈ traversal.model.nodes) (pushes : traversal.Pushes node after) :
    after.Awaits node := by
  obtain ⟨below, stack⟩ := List.head?_eq_some_iff.1 pushes.onTop
  refine ⟨node.parents.filter (· ∉ traversal.visited), below, ?_, ?_, ?_⟩
  · rw [pushes.stack, stack]
  · rw [pushes.isOf]
    intro id waited
    exact .single ⟨node, member, rfl, (List.mem_filter.1 waited).1⟩
  · rw [pushes.visited]
    intro parent named
    by_cases gone : parent ∈ traversal.visited
    · exact .inr gone
    · exact .inl (by simp [named, gone])

end Awaits

/-- What is known of the nodes that a traversal has expanded, and of the stack that comes of it. -/
structure Account (model : Model) (outputs : List NodeId) (expanded : List Node)
    (traversal : Traversal) : Prop where
  sound : Sound model outputs traversal
  members : ∀ node ∈ expanded, node ∈ model.nodes
  once : (expanded.map Node.id).Nodup
  awaits : ∀ node ∈ expanded, node.id ∉ traversal.visited → traversal.Awaits node
  stack : traversal.stack.length ≤
    outputs.length + (expanded.map fun node => node.parents.length).sum

namespace Account

variable {model : Model} {outputs : List NodeId} {expanded : List Node}
  {traversal after : Traversal}

theorem start (known : ∀ output ∈ outputs, model.contains output) :
    Account model outputs [] (.start model outputs) where
  sound := .start known
  members := List.forall_mem_nil _
  once := List.nodup_nil
  awaits := List.forall_mem_nil _
  stack := by simp [Traversal.start]

/-- When an expanded node is on top of the stack again, all its parents have been produced. -/
theorem parents_produced (account : Account model outputs expanded traversal)
    (wellFormed : model.WellFormed) {node : Node} (member : node ∈ expanded)
    (onTop : traversal.stack.head? = some node.id) :
    ∀ parent ∈ node.parents, parent ∈ traversal.visited := by
  have sound := account.sound
  obtain rfl := sound.isOf
  by_cases gone : node.id ∈ traversal.visited
  · intro parent named
    have isParent : traversal.model.IsParent parent node.id :=
      ⟨node, account.members node member, rfl, named⟩
    exact sound.scheduled.ancestor_mem wellFormed.linked (.single isParent) gone
  · exact (account.awaits node member gone).parents_produced wellFormed.acyclic onTop

theorem pops (account : Account model outputs expanded traversal)
    (sound : Sound model outputs after) (pops : traversal.Pops after) :
    Account model outputs expanded after where
  sound := sound
  members := account.members
  once := account.once
  awaits node member missing :=
    (account.awaits node member fun early => missing (pops.visited early)).pops pops missing
  stack := by
    obtain ⟨top, -, stack⟩ := pops.stack
    have bound := account.stack
    rw [stack, List.length_cons] at bound
    omega

/-- A node that is expanded has not been expanded before: with a parent missing, it would not be on
    top again. -/
theorem not_mem_of_pushes (account : Account model outputs expanded traversal)
    (wellFormed : model.WellFormed) {node : Node} (member : node ∈ model.nodes)
    (pushes : traversal.Pushes node after) : node.id ∉ expanded.map Node.id := by
  intro again
  obtain ⟨other, present, same⟩ := List.mem_map.1 again
  obtain rfl := wellFormed.linked.numbered.eq_of_id_eq (account.members other present) member same
  obtain ⟨parent, named, missing⟩ := pushes.waits
  exact missing (account.parents_produced wellFormed present pushes.onTop parent named)

theorem pushes (account : Account model outputs expanded traversal) (wellFormed : model.WellFormed)
    (sound : Sound model outputs after) {node : Node} (member : node ∈ model.nodes)
    (pushes : traversal.Pushes node after) : Account model outputs (node :: expanded) after := by
  have first := account.not_mem_of_pushes wellFormed member pushes
  refine ⟨sound, List.forall_mem_cons.2 ⟨member, account.members⟩,
    List.nodup_cons.2 ⟨first, account.once⟩, ?_, ?_⟩
  · rw [← account.sound.isOf] at member
    refine List.forall_mem_cons.2 ⟨fun _ => .of_pushes member pushes, ?_⟩
    intro other present missing
    have different : other.id ≠ node.id := fun same =>
      first (List.mem_map.2 ⟨other, present, same⟩)
    rw [pushes.visited] at missing
    exact (account.awaits other present missing).pushes different member pushes
  · have bound := account.stack
    have few := List.length_filter_le (fun id => decide (id ∉ traversal.visited)) node.parents
    rw [pushes.stack, List.length_append, List.map_cons, List.sum_cons]
    omega

theorem step (account : Account model outputs expanded traversal) (wellFormed : model.WellFormed)
    (given : outputs ≠ []) (leads : traversal.Leads after) :
    Account model outputs (traversal.expands?.toList ++ expanded) after := by
  have linked := wellFormed.linked
  have sound := account.sound
  have sound' := sound.leads linked leads
  have active : traversal.full = false := by simp [sound.full, given]
  rcases sound.leads_cases linked active leads with
    ⟨none, pops⟩ | ⟨node, member, some, pushes⟩
  · rw [none]
    exact account.pops sound' pops
  · rw [some]
    exact account.pushes wellFormed sound' member pushes

theorem of_trail (wellFormed : model.WellFormed) (given : outputs ≠ [])
    (known : ∀ output ∈ outputs, model.contains output)
    (trail : (Traversal.start model outputs).Trail expanded traversal) :
    Account model outputs expanded traversal := by
  induction trail with
  | start => exact .start known
  | step _ leads ih => exact ih.step wellFormed given leads

/-- The nodes are expanded once, so they name no more parents than all nodes of the model. -/
theorem stack_le (account : Account model outputs expanded traversal) : traversal.stack.length ≤
    outputs.length + (model.nodes.map fun node => node.parents.length).sum := by
  have within : expanded.Subperm model.nodes :=
    List.subperm_of_subset account.once.of_map account.members
  obtain ⟨nodes, perm, sublist⟩ := within
  have fewer : (nodes.map fun node => node.parents.length).sum ≤
      (model.nodes.map fun node => node.parents.length).sum :=
    (sublist.map _).sum_le_sum fun _ _ => Nat.zero_le _
  rw [(perm.map _).sum_eq] at fewer
  exact account.stack.trans (Nat.add_le_add_left fewer _)

end Account

end Traversal

namespace Model

variable {model : Model} {outputs : List NodeId}

/-- The steps of a traversal of a reachable model for outputs come to their end with the nodes that
    are needed, and up to there, wherever they have come, they have expanded no node twice. For when
    an expanded node is on top of the stack again, all its parents have been produced. And so the
    stack never holds more than the outputs and one id for each parent that a node of the model
    names. -/
theorem Reachable.expands_once (reachable : model.Reachable) (room : model.size < UInt64.size)
    (given : outputs ≠ []) {first : Traversal} (accepted : model.traversal outputs = .ok first) :
    (∃ expanded last, first.Trail expanded last ∧ last.step = .finished ∧
      model.activeNodes outputs = .ok last.visited.reverse) ∧
    ∀ expanded now, first.Trail expanded now →
      (expanded.map Node.id).Nodup ∧
      (∀ node ∈ expanded, now.stack.head? = some node.id →
        ∀ parent ∈ node.parents, parent ∈ now.visited) ∧
      now.stack.length ≤
        outputs.length + (model.nodes.map fun node => node.parents.length).sum := by
  have wellFormed := reachable.wellFormed room
  obtain ⟨known, rfl⟩ := traversal_eq_ok_iff.1 accepted
  constructor
  · obtain ⟨last, path, ends⟩ := (Traversal.Sound.start known).exists_leads_to_end wellFormed
    obtain ⟨expanded, trail⟩ := Traversal.exists_trail path
    refine ⟨expanded, last, trail, ends, ?_⟩
    rw [activeNodes, accepted, ← wellFormed.ids_toList_eq known path ends]
    rfl
  · intro expanded now trail
    have account := Traversal.Account.of_trail wellFormed given known trail
    exact ⟨account.once, fun node member => account.parents_produced wellFormed member,
      account.stack_le⟩

/-- The second output reads from the first one twice, and from the only parent of that one. After
    six steps it is on top of the stack again. -/
theorem expands_once_sample : ∃ first expanded now, sample.traversal [⟨0⟩, ⟨2⟩] = .ok first ∧
    first.Trail expanded now ∧ expanded.map Node.id = [⟨0⟩, ⟨2⟩] ∧ now.stack = [⟨2⟩, ⟨0⟩] ∧
    (expanded.map Node.id).Nodup ∧
    (∀ node ∈ expanded, now.stack.head? = some node.id →
      ∀ parent ∈ node.parents, parent ∈ now.visited) ∧
    now.stack.length ≤ 2 + (sample.nodes.map fun node => node.parents.length).sum := by
  have accepted : sample.traversal [⟨0⟩, ⟨2⟩] = .ok (.start sample [⟨0⟩, ⟨2⟩]) := rfl
  obtain ⟨expanded, now, trail, nodes, stack⟩ : ∃ expanded now,
      (Traversal.start sample [⟨0⟩, ⟨2⟩]).Trail expanded now ∧
        expanded.map Node.id = [⟨0⟩, ⟨2⟩] ∧ now.stack = [⟨2⟩, ⟨0⟩] := by
    have nothing := @Traversal.Trail.start (.start sample [⟨0⟩, ⟨2⟩])
    have expanded := (nothing.step (.inl rfl)).step (.inl rfl)
    have produced := (expanded.step (.inr ⟨_, rfl⟩)).step (.inr ⟨_, rfl⟩)
    exact ⟨_, _, (produced.step (.inl rfl)).step (.inl rfl), rfl, rfl⟩
  obtain ⟨-, trails⟩ :=
    Reachable.expands_once reachable_sample (by decide) (List.cons_ne_nil _ _) accepted
  exact ⟨_, expanded, now, accepted, trail, nodes, stack, trails expanded now trail⟩

end Model

end Dataflow
