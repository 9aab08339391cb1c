import Dataflow.Proofs.Cycles

/-! # Nodes on or behind a cycle

In a finite model parents can be followed forever from a node if and only if it lies on a cycle or
has an ancestor on one. Main statement: the cycle check counts exactly these nodes.
-/

namespace Dataflow

open Relation

section

variable {α β : Type} {link : α → α → Prop}

/-- A node that lies on a cycle of links, or to which links lead from one. -/
def BehindCycle (link : α → α → Prop) (a : α) : Prop :=
  ∃ on, TransGen link on on ∧ ReflTransGen link on a

/-- From a node on a cycle links can be followed back forever. -/
theorem not_acc_of_cycle {on : α} (cycle : TransGen link on on) : ¬Acc link on := by
  intro grounded
  induction grounded.transGen with
  | intro on _ ih => exact ih on cycle cycle (grounded.inv_of_transGen cycle)

theorem behindCycle_iff_not_acc [Finite α] {a : α} : BehindCycle link a ↔ ¬Acc link a := by
  constructor
  · rintro ⟨on, cycle, leads⟩ grounded
    apply not_acc_of_cycle cycle
    rcases reflTransGen_iff_eq_or_transGen.1 leads with rfl | chain
    · exact grounded
    · exact grounded.inv_of_transGen chain
  · intro endless
    by_contra free
    -- Links among the ancestors of `a` alone have no cycle, so they are well-founded.
    let above : α → α → Prop := fun x y => link x y ∧ ReflTransGen link y a
    have acyclic : ∀ x, ¬TransGen above x x := by
      intro x cycle
      obtain ⟨_, -, last⟩ := TransGen.tail'_iff.1 cycle
      exact free ⟨x, TransGen.mono (fun _ _ both => both.1) _ _ cycle, last.2⟩
    have grounded : ∀ x, ReflTransGen link x a → Acc link x := by
      intro x
      induction (wellFounded_of_acyclic acyclic).apply x with
      | intro x _ ih =>
          intro leads
          exact ⟨x, fun y step => ih y ⟨step, leads⟩ (.head step leads)⟩
    exact endless (grounded a .refl)

variable {f : α → β} {known : Set α}

theorem known_of_transGen (inside : ∀ a b, link a b → a ∈ known ∧ b ∈ known) {a b : α}
    (chain : TransGen link a b) : a ∈ known ∧ b ∈ known := by
  obtain ⟨_, first, -⟩ := TransGen.head'_iff.1 chain
  obtain ⟨_, -, last⟩ := TransGen.tail'_iff.1 chain
  exact ⟨(inside _ _ first).1, (inside _ _ last).2⟩

/-- Chains of renamed links are renamed chains, if no two linked nodes get one name. -/
theorem transGen_map_iff (inj : known.InjOn f)
    (inside : ∀ a b, link a b → a ∈ known ∧ b ∈ known) {x y : β} :
    TransGen (Relation.Map link f f) x y ↔ Relation.Map (TransGen link) f f x y := by
  constructor
  · intro chain
    induction chain with
    | single step =>
        obtain ⟨a, b, step, rfl, rfl⟩ := step
        exact ⟨a, b, .single step, rfl, rfl⟩
    | tail _ step ih =>
        obtain ⟨middle, b, step, same, rfl⟩ := step
        obtain ⟨a, end_, chain, rfl, rfl⟩ := ih
        obtain rfl := inj (inside _ _ step).1 (known_of_transGen inside chain).2 same
        exact ⟨a, b, chain.tail step, rfl, rfl⟩
  · rintro ⟨a, b, chain, rfl, rfl⟩
    exact chain.lift f fun a b step => ⟨a, b, step, rfl, rfl⟩

theorem behindCycle_map_iff (inj : known.InjOn f)
    (inside : ∀ a b, link a b → a ∈ known ∧ b ∈ known) {y : β} :
    BehindCycle (Relation.Map link f f) y ↔ ∃ a, BehindCycle link a ∧ f a = y := by
  simp only [BehindCycle, reflTransGen_iff_eq_or_transGen, transGen_map_iff inj inside]
  constructor
  · rintro ⟨_, ⟨a, b, cycle, rfl, same⟩, leads⟩
    have ends := known_of_transGen inside cycle
    obtain rfl := inj ends.2 ends.1 same
    rcases leads with rfl | ⟨c, d, chain, same, rfl⟩
    · exact ⟨b, ⟨b, cycle, .inl rfl⟩, rfl⟩
    · obtain rfl := inj (known_of_transGen inside chain).1 ends.1 same
      exact ⟨d, ⟨c, cycle, .inr chain⟩, rfl⟩
  · rintro ⟨a, ⟨on, cycle, leads⟩, rfl⟩
    refine ⟨f on, ⟨on, on, cycle, rfl, rfl⟩, ?_⟩
    rcases leads with rfl | chain
    · exact .inl rfl
    · exact .inr ⟨on, a, chain, rfl, rfl⟩

/-- Renaming keeps the number of nodes on or behind a cycle. -/
theorem ncard_behindCycle_map (inj : known.InjOn f)
    (inside : ∀ a b, link a b → a ∈ known ∧ b ∈ known) :
    {b | BehindCycle (Relation.Map link f f) b}.ncard = {a | BehindCycle link a}.ncard := by
  have image : {b | BehindCycle (Relation.Map link f f) b} = f '' {a | BehindCycle link a} :=
    Set.ext fun b => behindCycle_map_iff inj inside
  rw [image]
  apply Set.InjOn.ncard_image
  apply inj.mono
  intro a behind
  obtain ⟨on, cycle, leads⟩ := behind
  exact (known_of_transGen inside (cycle.trans_left leads)).2

end

namespace Model

variable {model : Model}

theorem Linked.contains_of_behindCycle (linked : model.Linked) {id : NodeId}
    (behind : BehindCycle model.IsParent id) : model.contains id := by
  by_contra absent
  apply behindCycle_iff_not_acc.1 behind
  constructor
  intro parent isParent
  exact absurd (linked.contains_child isParent) absent

/-- Every node is either put in order or on or behind a cycle. -/
theorem Linked.size_eq_add (linked : model.Linked) :
    model.size = model.orderedCount + {id | BehindCycle model.IsParent id}.ncard := by
  obtain ⟨taken, once, length, mem_taken⟩ := linked.orderedCount
  have rest : {id | BehindCycle model.IsParent id} =
      ↑((model.nodes.map Node.id).toFinset \ taken.toFinset) := by
    ext id
    simp only [Finset.coe_sdiff, List.coe_toFinset, Set.mem_sdiff, Set.mem_ofPred_eq,
      linked.mem_ids_iff, mem_taken]
    constructor
    · intro behind
      exact ⟨linked.contains_of_behindCycle behind, fun gone => behindCycle_iff_not_acc.1 behind gone.2⟩
    · rintro ⟨present, left⟩
      exact behindCycle_iff_not_acc.2 fun grounded => left ⟨present, grounded⟩
  have within : taken.toFinset ⊆ (model.nodes.map Node.id).toFinset := by
    intro id gone
    rw [List.mem_toFinset] at gone ⊢
    exact linked.mem_ids_iff.2 ((mem_taken id).1 gone).1
  rw [rest, Set.ncard_coe_finset, Finset.card_sdiff_of_subset within,
    List.toFinset_card_of_nodup once, List.toFinset_card_of_nodup linked.numbered.nodup_ids, length,
    List.length_map]
  have bound := Finset.card_le_card within
  rw [List.toFinset_card_of_nodup once, List.toFinset_card_of_nodup linked.numbered.nodup_ids,
    length, List.length_map] at bound
  exact (Nat.add_sub_cancel' bound).symm

/-- The check of a linked model with a cycle fails, and counts the nodes on or behind a cycle. -/
theorem Linked.checkAcyclic_of_cycle (linked : model.Linked) (cyclic : ¬model.Acyclic) :
    model.checkAcyclic = .error (.cyclicGraph {id | BehindCycle model.IsParent id}.ncard) := by
  have size := linked.size_eq_add
  have fails : model.checkAcyclic ≠ .ok () := fun ok => cyclic (linked.checkAcyclic_eq_ok_iff.1 ok)
  unfold checkAcyclic at fails ⊢
  split at fails
  · rw [if_pos ‹_›, size, Nat.add_sub_cancel_left]
  · exact absurd rfl fails

end Model

end Dataflow
