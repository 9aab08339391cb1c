import Dataflow.Proofs.Renaming

/-! # Frames in both directions

A frame takes a stored id once only. So each of its pairs is found by its stored id, also the one
that the way back from a new id leads to.
-/

namespace Dataflow

namespace Frame

/-- No stored id is in two pairs. -/
def Once (frame : Frame) : Prop := (frame.pairs.map Prod.fst).Nodup

theorem once_empty : Once .empty := List.nodup_nil

theorem get?_eq_none_iff {frame : Frame} {stored : NodeId} :
    frame.get? stored = none ↔ stored ∉ frame.pairs.map Prod.fst := by
  simp only [get?, List.lookup_eq_none_iff, List.mem_map, bne_iff_ne, ne_eq, not_exists, not_and]
  exact ⟨fun apart pair member same => apart pair member same.symm,
    fun apart pair member same => apart pair member same.symm⟩

/-- Registering keeps stored ids apart. -/
theorem Once.register {frame after : Frame} (once : frame.Once) {stored new : NodeId}
    (registered : frame.register stored new = .ok after) : after.Once := by
  obtain ⟨absent, rfl⟩ := register_eq_ok_iff.1 registered
  exact List.nodup_cons.2 ⟨get?_eq_none_iff.1 absent, once⟩

theorem Once.get?_eq_some_iff {frame : Frame} (once : frame.Once) {stored new : NodeId} :
    frame.get? stored = some new ↔ (stored, new) ∈ frame.pairs := by
  obtain ⟨pairs⟩ := frame
  induction pairs with
  | nil => simp [get?]
  | cons pair rest ih =>
      obtain ⟨absent, later⟩ := List.nodup_cons.1 once
      rw [get?_cons, List.mem_cons]
      by_cases same : stored = pair.1
      · obtain rfl := same
        have only : (pair.1, new) ∉ rest := fun member =>
          absent (List.mem_map.2 ⟨_, member, rfl⟩)
        simp [Prod.ext_iff, eq_comm, only]
      · rw [if_neg same, ih later]
        simp [Prod.ext_iff, same]

/-- The way back from a new id leads to a stored id that has this new id. -/
theorem Once.get?_of_stored? {frame : Frame} (once : frame.Once) {stored new : NodeId}
    (found : frame.stored? new = some stored) : frame.get? stored = some new := by
  obtain ⟨pair, first, rfl⟩ := Option.map_eq_some_iff.1 found
  obtain rfl : pair.2 = new := by simpa using List.find?_some first
  exact once.get?_eq_some_iff.2 (List.mem_of_find?_eq_some first)

/-- There is a way back from every new id. -/
theorem Once.exists_stored? {frame : Frame} (once : frame.Once) {stored new : NodeId}
    (found : frame.get? stored = some new) : ∃ other, frame.stored? new = some other := by
  have member := once.get?_eq_some_iff.1 found
  rw [← Option.isSome_iff_exists, stored?, Option.isSome_map, List.find?_isSome]
  exact ⟨_, member, by simp⟩

end Frame

end Dataflow
