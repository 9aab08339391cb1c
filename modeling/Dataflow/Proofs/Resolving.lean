import Dataflow.Proofs.Renaming

/-! # Resolving the parents of one node

Resolving walks over the parents of a node, input by input, and replaces each occurrence once. It
ends early at a parent that the frame does not know. Main statement: what becomes of the node and
what is reported, in either case.
-/

namespace Dataflow

namespace NodeId

/-- In `distinct`, ids stand in the order in which they first occur. -/
theorem pairwise_idxOf_distinct (ids : List NodeId) :
    (distinct ids).Pairwise fun a b => ids.idxOf a < ids.idxOf b := by
  induction ids with
  | nil => exact .nil
  | cons head rest ih =>
      have other {id : NodeId} (member : id ∈ (distinct rest).filter (· ≠ head)) :
          (head :: rest).idxOf id = rest.idxOf id + 1 := by
        have different : id ≠ head := by simpa using (List.mem_filter.1 member).2
        exact List.idxOf_cons_ne rest different.symm
      apply List.pairwise_cons.2
      constructor
      · intro id member
        rw [List.idxOf_cons_self, other member]
        exact Nat.succ_pos _
      · refine (ih.filter _).imp_of_mem ?_
        intro a b ha hb less
        rw [other ha, other hb]
        exact Nat.succ_lt_succ less

end NodeId

/-- What stays of an input when its parents are replaced: its name and how many parents it has. -/
def Input.shape (input : Input) : String × Nat := (input.name, input.parents.length)

namespace Frame

/-- The frame has the second id as the new one of the first. -/
abbrev Maps (frame : Frame) (stored new : NodeId) : Prop := frame.get? stored = some new

/-- Ids before and after a walk that replaces one after the other, up to the first without a new id
    if there is one. -/
inductive Walks (frame : Frame) : List NodeId → List NodeId → Option NodeId → Prop where
  | done : Walks frame [] [] none
  | stopped {id : NodeId} {rest : List NodeId} :
      frame.get? id = none → Walks frame (id :: rest) (id :: rest) (some id)
  | replaced {id new : NodeId} {rest after : List NodeId} {missing : Option NodeId} :
      frame.Maps id new → Walks frame rest after missing →
      Walks frame (id :: rest) (new :: after) missing

namespace Walks

variable {frame : Frame} {ids after later later' : List NodeId} {missing : Option NodeId}
  {id : NodeId}

/-- A walk that is done goes on behind. -/
theorem append (walks : frame.Walks ids after none) (next : frame.Walks later later' missing) :
    frame.Walks (ids ++ later) (after ++ later') missing := by
  generalize done : (none : Option NodeId) = found at walks
  induction walks with
  | done => exact next
  | stopped => cases done
  | replaced maps _ ih => exact .replaced maps (ih done)

/-- A walk that has stopped leaves alone what stands behind. -/
theorem append_stopped (walks : frame.Walks ids after (some id)) (later : List NodeId) :
    frame.Walks (ids ++ later) (after ++ later) (some id) := by
  generalize stopped : some id = found at walks
  induction walks with
  | done => cases stopped
  | stopped unknown => exact stopped ▸ .stopped unknown
  | replaced maps _ ih => exact .replaced maps (ih stopped)

theorem length_eq (walks : frame.Walks ids after missing) : after.length = ids.length := by
  induction walks with
  | done | stopped => rfl
  | replaced _ _ ih => exact congrArg Nat.succ ih

/-- A walk that is done has replaced all ids. -/
theorem forall₂ (walks : frame.Walks ids after none) : List.Forall₂ frame.Maps ids after := by
  generalize done : (none : Option NodeId) = found at walks
  induction walks with
  | done => exact .nil
  | stopped => cases done
  | replaced maps _ ih => exact .cons maps (ih done)

theorem exists_maps (walks : frame.Walks ids after none) (member : id ∈ ids) :
    ∃ new, frame.Maps id new := by
  generalize done : (none : Option NodeId) = found at walks
  induction walks with
  | done => cases member
  | stopped => cases done
  | replaced maps _ ih =>
      rcases List.mem_cons.1 member with rfl | later
      · exact ⟨_, maps⟩
      · exact ih later done

/-- A walk that stops has replaced the ids before the one it stops at. -/
theorem exists_split (walks : frame.Walks ids after (some id)) :
    ∃ before replaced rest, ids = before ++ id :: rest ∧ after = replaced ++ id :: rest ∧
      List.Forall₂ frame.Maps before replaced ∧ frame.get? id = none := by
  generalize stopped : some id = found at walks
  induction walks with
  | done => cases stopped
  | stopped unknown =>
      cases stopped
      exact ⟨[], [], _, rfl, rfl, .nil, unknown⟩
  | replaced maps _ ih =>
      obtain ⟨before, replaced, rest, rfl, rfl, all, unknown⟩ := ih stopped
      exact ⟨_ :: before, _ :: replaced, rest, rfl, rfl, .cons maps all, unknown⟩

end Walks

theorem walks_replaceIds (frame : Frame) (ids : List NodeId) :
    frame.Walks ids (frame.replaceIds ids).1 (frame.replaceIds ids).2 := by
  induction ids with
  | nil => exact .done
  | cons id rest ih =>
      cases found : frame.get? id with
      | none =>
          simp only [replaceIds, found]
          exact .stopped found
      | some new =>
          simp only [replaceIds, found]
          exact .replaced found ih

/-- Over several inputs the walk goes on from one to the next. -/
theorem walks_replaceParents (frame : Frame) (inputs : List Input) :
    frame.Walks (Input.allParents inputs) (Input.allParents (frame.replaceParents inputs).1)
      (frame.replaceParents inputs).2 := by
  induction inputs with
  | nil => exact .done
  | cons input rest ih =>
      have first := walks_replaceIds frame input.parents
      simp only [Input.allParents, List.flatMap_cons, replaceParents] at ih first ⊢
      generalize frame.replaceIds input.parents = outcome at first ⊢
      obtain ⟨parents, _ | missing⟩ := outcome
      · exact first.append ih
      · exact first.append_stopped _

theorem shape_replaceParents (frame : Frame) (inputs : List Input) :
    (frame.replaceParents inputs).1.map Input.shape = inputs.map Input.shape := by
  induction inputs with
  | nil => rfl
  | cons input rest ih =>
      have length := (walks_replaceIds frame input.parents).length_eq
      simp only [replaceParents]
      generalize frame.replaceIds input.parents = outcome at length ⊢
      obtain ⟨parents, _ | missing⟩ := outcome
      · simp only [List.map_cons, Input.shape, length, ih]
      · simp only [List.map_cons, Input.shape, length]

end Frame

namespace Node

/-- The ids are those of the list, each once, in the order in which they first occur in it. -/
structure ListsDistinct (ids all : List NodeId) : Prop where
  mem_iff : ∀ id, id ∈ ids ↔ id ∈ all
  ordered : ids.Pairwise fun a b => all.idxOf a < all.idxOf b

theorem listsDistinct_distinctParents (node : Node) :
    ListsDistinct node.distinctParents node.parents where
  mem_iff _ := mem_distinctParents
  ordered := NodeId.pairwise_idxOf_distinct _

/-- Resolving touches nothing but the parents of a node, and goes through exactly if all of them are
    registered. Then each occurrence has become its new id, once, and the distinct new ids are
    given. Otherwise the occurrences before the first that is not registered have become theirs,
    this one and the later ones are as before, and it is reported together with the stored id of the
    node, or the id of the node if there is none. -/
theorem resolveParents_outcome (frame : Frame) (node : Node) :
    let outcome := (node.resolveParents frame).1
    let resolved := (node.resolveParents frame).2
    resolved = { node with inputs := resolved.inputs } ∧
      resolved.inputs.map Input.shape = node.inputs.map Input.shape ∧
      ((∃ parents, outcome = .ok parents) ↔
        ∀ parent ∈ node.parents, ∃ new, frame.Maps parent new) ∧
      ((∃ parents, outcome = .ok parents ∧
          List.Forall₂ frame.Maps node.parents resolved.parents ∧
          ListsDistinct parents resolved.parents) ∨
        ∃ before replaced missing rest,
          outcome = .error (.danglingReference ((frame.stored? node.id).getD node.id) missing) ∧
          node.parents = before ++ missing :: rest ∧
          resolved.parents = replaced ++ missing :: rest ∧
          List.Forall₂ frame.Maps before replaced ∧ frame.get? missing = none) := by
  intro outcome resolved
  have walks := frame.walks_replaceParents node.inputs
  have shape := frame.shape_replaceParents node.inputs
  simp only [outcome, resolved, resolveParents]
  generalize frame.replaceParents node.inputs = walked at walks shape ⊢
  obtain ⟨inputs, _ | missing⟩ := walked
  · refine ⟨rfl, shape, ?_, .inl ⟨_, rfl, walks.forall₂, listsDistinct_distinctParents _⟩⟩
    exact iff_of_true ⟨_, rfl⟩ fun parent named => walks.exists_maps named
  · obtain ⟨before, replaced, rest, split, split', all, unknown⟩ := walks.exists_split
    refine ⟨rfl, shape, ?_, .inr ⟨before, replaced, missing, rest, rfl, split, split', all, unknown⟩⟩
    refine iff_of_false (by simp) ?_
    intro known
    have named : missing ∈ node.parents := by simp [Node.parents, split]
    obtain ⟨new, maps⟩ := known missing named
    rw [Frame.Maps, unknown] at maps
    cases maps

/-- Two ids that are exchanged are replaced once each, up to one that is not registered. -/
example :
    let frame : Frame := ⟨[(⟨1⟩, ⟨2⟩), (⟨2⟩, ⟨1⟩)]⟩
    let node : Node := ⟨⟨1⟩, "sum", [⟨"a", [⟨1⟩, ⟨2⟩]⟩, ⟨"b", [⟨2⟩, ⟨9⟩, ⟨1⟩]⟩], [], .empty⟩
    node.resolveParents frame =
      (.error (.danglingReference ⟨2⟩ ⟨9⟩),
        { node with inputs := [⟨"a", [⟨2⟩, ⟨1⟩]⟩, ⟨"b", [⟨1⟩, ⟨9⟩, ⟨1⟩]⟩] }) := rfl

end Node

end Dataflow
