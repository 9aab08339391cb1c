import Dataflow.Proofs.RoundTrip

/-! # The order in which nodes are listed

Restoring takes the nodes of a description in ascending order of their ids, and those of one id as
they are listed. There is one such order only. Main statement: if ids are distinct, the order in
which a description lists its nodes makes no difference.
-/

namespace Dataflow

namespace NodeDescription

/-- The listed nodes in ascending order of their ids, those of one id in the order in which they are
    listed. -/
structure Arranges (sorted listed : List NodeDescription) : Prop where
  ascending : sorted.Pairwise fun a b => a.id ≤ b.id
  stable : ∀ id, sorted.filter (·.id = id) = listed.filter (·.id = id)

theorem filter_insertById (node : NodeDescription) (nodes : List NodeDescription) (id : NodeId) :
    (insertById node nodes).filter (·.id = id) = (node :: nodes).filter (·.id = id) := by
  induction nodes with
  | nil => rfl
  | cons other rest ih =>
      simp only [insertById]
      split
      · rfl
      · next greater =>
        have different : ¬(node.id = id ∧ other.id = id) := fun both =>
          greater (le_of_eq (both.1.trans both.2.symm))
        rw [List.filter_cons, ih]
        grind

theorem arranges_sortById (nodes : List NodeDescription) : Arranges (sortById nodes) nodes where
  ascending := pairwise_sortById nodes
  stable := by
    intro id
    induction nodes with
    | nil => rfl
    | cons node rest ih =>
        refine (filter_insertById node (sortById rest) id).trans ?_
        rw [List.filter_cons, List.filter_cons, ih]

/-- The first of an arrangement has an id that is not greater than any other. -/
theorem Arranges.id_le {first : NodeDescription} {rest listed : List NodeDescription}
    (arranges : Arranges (first :: rest) listed) {other : NodeDescription}
    (member : other ∈ listed) : first.id ≤ other.id := by
  have found : other ∈ (first :: rest).filter (·.id = other.id) := by
    rw [arranges.stable]
    simpa using member
  rcases List.mem_cons.1 (List.mem_filter.1 found).1 with rfl | later
  · exact le_refl _
  · exact (List.pairwise_cons.1 arranges.ascending).1 other later

theorem Arranges.tail {first : NodeDescription} {rest others : List NodeDescription}
    (arranges : Arranges (first :: rest) (first :: others)) : Arranges rest others where
  ascending := (List.pairwise_cons.1 arranges.ascending).2
  stable := by
    intro id
    have same := arranges.stable id
    simp only [List.filter_cons] at same
    split at same
    · exact (List.cons.inj same).2
    · exact same

/-- Two lists that arrange each other are one. -/
theorem Arranges.eq {a b : List NodeDescription} (ab : Arranges a b) (ba : Arranges b a) :
    a = b := by
  induction a generalizing b with
  | nil =>
      cases b with
      | nil => rfl
      | cons second others => simpa using ba.stable second.id
  | cons first rest ih =>
      cases b with
      | nil => simpa using ab.stable first.id
      | cons second others =>
          have same : first.id = second.id :=
            le_antisymm (ab.id_le List.mem_cons_self) (ba.id_le List.mem_cons_self)
          have heads := ab.stable first.id
          simp only [List.filter_cons, same, decide_true, if_true] at heads
          obtain rfl := (List.cons.inj heads).1
          rw [ih ab.tail ba.tail]

theorem Arranges.eq_sortById {sorted listed : List NodeDescription}
    (arranges : Arranges sorted listed) : sorted = sortById listed := by
  have byId := arranges_sortById listed
  exact Arranges.eq ⟨arranges.ascending, fun id => (arranges.stable id).trans (byId.stable id).symm⟩
    ⟨byId.ascending, fun id => (byId.stable id).trans (arranges.stable id).symm⟩

end NodeDescription

namespace Model

/-- Two descriptions of the same nodes, whose ids are distinct, are restored alike, whatever the
    outcome. -/
theorem restoreIn_eq_of_perm {a b : ModelDescription}
    (once : (a.nodes.map NodeDescription.id).Nodup) (same : a.nodes.Perm b.nodes)
    (context : Context) : restoreIn a context = restoreIn b context := by
  have once' : (b.nodes.map NodeDescription.id).Nodup :=
    (same.map NodeDescription.id).nodup_iff.1 once
  have sorted : NodeDescription.sortById a.nodes = NodeDescription.sortById b.nodes :=
    NodeDescription.sortById_eq (same.trans (NodeDescription.sortById_perm b.nodes).symm)
      (NodeDescription.pairwise_lt_sortById once')
  simp only [restoreIn, sorted]

/-- The nodes of `crossed` in reverse. -/
theorem restoreIn_eq_of_perm_reverse :
    (ModelDescription.crossed.nodes.map NodeDescription.id).Nodup ∧
    ModelDescription.crossed.nodes.Perm ModelDescription.crossed.nodes.reverse ∧
    restoreIn .crossed .sample = restoreIn ⟨ModelDescription.crossed.nodes.reverse⟩ .sample :=
  ⟨by decide, (List.reverse_perm _).symm,
    restoreIn_eq_of_perm (by decide) (List.reverse_perm _).symm .sample⟩

end Model

end Dataflow
