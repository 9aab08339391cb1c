import Dataflow.Proofs.Frames

/-! # What a frame records

A frame refuses a pair only for its stored id. So over any history of pairs the first one of a stored
id is kept, while the last of those kept with a new id leads back from it. Main statement: which
pairs are accepted, and what the frame then finds in both directions.
-/

namespace Dataflow

namespace Frame

/-- The frame after an attempt to register a pair. A rejected one leaves it as it was. -/
def tryRegister (frame : Frame) (pair : NodeId × NodeId) : Frame :=
  match frame.register pair.1 pair.2 with
  | .ok after => after
  | .error _ => frame

/-- The frame after attempts to register pairs one after the other. -/
def tryRegisterAll (frame : Frame) (pairs : List (NodeId × NodeId)) : Frame :=
  pairs.foldl tryRegister frame

/-- The pairs whose registration goes through when all are attempted one after the other. -/
def accepted (frame : Frame) : List (NodeId × NodeId) → List (NodeId × NodeId)
  | [] => []
  | pair :: rest =>
    match frame.register pair.1 pair.2 with
    | .ok after => pair :: after.accepted rest
    | .error _ => frame.accepted rest

theorem tryRegisterAll_concat (frame : Frame) (pairs : List (NodeId × NodeId))
    (pair : NodeId × NodeId) :
    frame.tryRegisterAll (pairs ++ [pair]) = (frame.tryRegisterAll pairs).tryRegister pair := by
  simp [tryRegisterAll]

theorem accepted_append (frame : Frame) (pairs later : List (NodeId × NodeId)) :
    frame.accepted (pairs ++ later) =
      frame.accepted pairs ++ (frame.tryRegisterAll pairs).accepted later := by
  induction pairs generalizing frame with
  | nil => rfl
  | cons pair rest ih =>
      cases registered : frame.register pair.1 pair.2 <;>
        simp [accepted, tryRegisterAll, tryRegister, registered, ih]

/-- A frame holds the accepted pairs, the latest first. -/
theorem pairs_tryRegisterAll (frame : Frame) (pairs : List (NodeId × NodeId)) :
    (frame.tryRegisterAll pairs).pairs = (frame.accepted pairs).reverse ++ frame.pairs := by
  induction pairs generalizing frame with
  | nil => rfl
  | cons pair rest ih =>
      simp only [accepted, tryRegisterAll, List.foldl_cons, tryRegister] at ih ⊢
      cases registered : frame.register pair.1 pair.2 with
      | error e => exact ih frame
      | ok after =>
          obtain ⟨-, rfl⟩ := register_eq_ok_iff.1 registered
          simp [ih]

theorem Once.tryRegisterAll {frame : Frame} (once : frame.Once)
    (pairs : List (NodeId × NodeId)) : (frame.tryRegisterAll pairs).Once := by
  induction pairs generalizing frame with
  | nil => exact once
  | cons pair rest ih =>
      simp only [Frame.tryRegisterAll, List.foldl_cons, tryRegister] at ih ⊢
      cases registered : frame.register pair.1 pair.2 with
      | error e => exact ih once
      | ok after => exact ih (once.register registered)

/-- The pair is the last of its new id. -/
def LastOf (pairs : List (NodeId × NodeId)) (stored new : NodeId) : Prop :=
  ∃ earlier later, pairs = earlier ++ (stored, new) :: later ∧ ∀ pair ∈ later, pair.2 ≠ new

theorem stored?_eq_some_iff {frame : Frame} {stored new : NodeId} :
    frame.stored? new = some stored ↔ LastOf frame.pairs.reverse stored new := by
  simp only [stored?, Option.map_eq_some_iff, List.find?_eq_some_iff_append, LastOf]
  constructor
  · intro found
    obtain ⟨⟨_, _⟩, ⟨same, later, earlier, split, others⟩, rfl⟩ := found
    obtain rfl := eq_of_beq same
    refine ⟨earlier.reverse, later.reverse, by simp [split], ?_⟩
    intro pair member
    simpa using others pair (List.mem_reverse.1 member)
  · intro last
    obtain ⟨earlier, later, split, others⟩ := last
    have split' : frame.pairs = later.reverse ++ (stored, new) :: earlier.reverse := by
      rw [← List.reverse_reverse frame.pairs, split]
      simp
    refine ⟨(stored, new), ⟨beq_self_eq_true new, later.reverse, earlier.reverse, split', ?_⟩, rfl⟩
    intro pair member
    simpa using others pair (List.mem_reverse.1 member)

/-- The frame finds what the accepted pairs say: forward the only pair of a stored id, and backward
    the last pair of a new one. -/
structure Records (frame : Frame) (accepted : List (NodeId × NodeId)) : Prop where
  once : (accepted.map Prod.fst).Nodup
  get?_iff : ∀ stored new, frame.get? stored = some new ↔ (stored, new) ∈ accepted
  stored?_iff : ∀ stored new, frame.stored? new = some stored ↔ LastOf accepted stored new
  size_eq : frame.size = accepted.length

theorem Once.records {frame : Frame} (once : frame.Once) : frame.Records frame.pairs.reverse where
  once := by
    rw [List.map_reverse, List.nodup_reverse]
    exact once
  get?_iff stored new := by rw [once.get?_eq_some_iff, List.mem_reverse]
  stored?_iff _ _ := stored?_eq_some_iff
  size_eq := List.length_reverse.symm

namespace Records

variable {frame : Frame} {accepted : List (NodeId × NodeId)} (records : frame.Records accepted)

include records

/-- A pair is refused exactly if one of its stored id has been accepted. -/
theorem register_cases (stored new : NodeId) :
    (∃ pair ∈ accepted, pair.1 = stored) ∧
        frame.register stored new = .error (.duplicateNode stored) ∨
      (∀ pair ∈ accepted, pair.1 ≠ stored) ∧
        frame.register stored new = .ok ⟨(stored, new) :: frame.pairs⟩ := by
  cases found : frame.get? stored with
  | some other =>
      refine .inl ⟨⟨_, (records.get?_iff stored other).1 found, rfl⟩, ?_⟩
      exact register_eq_error_iff.2 ⟨by simp [found], rfl⟩
  | none =>
      refine .inr ⟨?_, register_eq_ok_iff.2 ⟨found, rfl⟩⟩
      intro pair member same
      have known := (records.get?_iff pair.1 pair.2).2 member
      rw [same, found] at known
      cases known

/-- Pairs of one new id are the same pair exactly if no new id has been accepted twice. -/
theorem nodup_new_iff : (accepted.map Prod.snd).Nodup ↔
    ∀ stored other new, frame.get? stored = some new → frame.get? other = some new →
      stored = other := by
  rw [List.nodup_map_iff_inj_on records.once.of_map]
  simp only [records.get?_iff]
  constructor
  · intro unique stored other new member member'
    exact congrArg Prod.fst (unique _ member _ member' rfl)
  · intro unique pair member pair' member' same
    have first := unique pair.1 pair'.1 pair.2 member (same ▸ member')
    exact Prod.ext first same

end Records

/-- The ways there and back are inverse to each other exactly if no two stored ids have one new
    id. -/
theorem Once.inverse_iff {frame : Frame} (once : frame.Once) :
    (∀ stored new, frame.get? stored = some new ↔ frame.stored? new = some stored) ↔
      ∀ stored other new, frame.get? stored = some new → frame.get? other = some new →
        stored = other := by
  constructor
  · intro inverse stored other new found found'
    have back := (inverse stored new).1 found
    rw [(inverse other new).1 found'] at back
    exact (Option.some.inj back).symm
  · intro unique stored new
    refine ⟨fun found => ?_, once.get?_of_stored?⟩
    obtain ⟨other, back⟩ := once.exists_stored? found
    rwa [unique stored other new found (once.get?_of_stored? back)]

/-- After any calls a fresh frame finds just what the accepted ones say. The next call is rejected
    exactly if one of its stored id was accepted, and then changes nothing; otherwise it is the last
    accepted one. Back and forth leads to where one was, and forth and back does so everywhere
    exactly if no new id was accepted twice. -/
theorem tryRegisterAll_records (calls : List (NodeId × NodeId)) :
    let frame := empty.tryRegisterAll calls
    let accepted := empty.accepted calls
    frame.Records accepted ∧
      (∀ stored new,
        (∃ pair ∈ accepted, pair.1 = stored) ∧
            frame.register stored new = .error (.duplicateNode stored) ∧
            empty.tryRegisterAll (calls ++ [(stored, new)]) = frame ∧
            empty.accepted (calls ++ [(stored, new)]) = accepted ∨
          (∀ pair ∈ accepted, pair.1 ≠ stored) ∧
            frame.register stored new =
              .ok (empty.tryRegisterAll (calls ++ [(stored, new)])) ∧
            empty.accepted (calls ++ [(stored, new)]) = accepted ++ [(stored, new)]) ∧
      (∀ stored new, frame.stored? new = some stored → frame.get? stored = some new) ∧
      ((∀ stored new, frame.get? stored = some new ↔ frame.stored? new = some stored) ↔
        (accepted.map Prod.snd).Nodup) := by
  intro frame accepted
  have once : frame.Once := once_empty.tryRegisterAll calls
  have same : frame.pairs.reverse = accepted := by
    simp [frame, accepted, pairs_tryRegisterAll, empty]
  have records : frame.Records accepted := same ▸ once.records
  refine ⟨records, ?_, fun _ _ => once.get?_of_stored?, ?_⟩
  · intro stored new
    rw [accepted_append, tryRegisterAll_concat]
    refine (records.register_cases stored new).imp ?_ ?_
    · intro refused
      obtain ⟨earlier, refused⟩ := refused
      refine ⟨earlier, refused, ?_, ?_⟩
      · simp only [tryRegister, frame] at refused ⊢
        rw [refused]
      · simp only [Frame.accepted, frame] at refused ⊢
        rw [refused]
        exact List.append_nil _
    · intro taken
      obtain ⟨first, taken⟩ := taken
      refine ⟨first, ?_, ?_⟩
      · simp only [tryRegister, frame] at taken ⊢
        rw [taken]
      · simp only [Frame.accepted, frame] at taken ⊢
        rw [taken]
  · rw [once.inverse_iff, records.nodup_new_iff]

/-- The pair of a stored id that is there already is refused. Of two stored ids with one new id both
    are kept, and the later one is found on the way back. -/
example :
    let calls : List (NodeId × NodeId) := [(⟨7⟩, ⟨0⟩), (⟨7⟩, ⟨1⟩), (⟨8⟩, ⟨0⟩)]
    empty.accepted calls = [(⟨7⟩, ⟨0⟩), (⟨8⟩, ⟨0⟩)] ∧
      (empty.tryRegisterAll calls).stored? ⟨0⟩ = some ⟨8⟩ ∧
      (empty.tryRegisterAll calls).get? ⟨7⟩ = some ⟨0⟩ := by decide

end Frame

end Dataflow
