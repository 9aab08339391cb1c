import Dataflow.Proofs.Halting

/-! # Asking a traversal again and again

A traversal may be asked for nodes at any time, also when it has none left, and each time it is left
in some state. Its hint counts the nodes that it has not produced. Main statements: however often it
has been asked, the search for the next node ends, and the hint is right about the nodes still to
come; and once it has none, it never has any again, and the hint stays as it is.
-/

namespace Dataflow

open Relation

namespace Traversal

theorem seek_eq_askWithin (steps : Nat) (traversal : Traversal) :
    traversal.seek steps =
      (traversal.askWithin steps).1.map fun node => (node, (traversal.askWithin steps).2) := by
  induction steps generalizing traversal with
  | zero => rfl
  | succ steps ih =>
      unfold seek askWithin
      cases traversal.step with
      | finished => rfl
      | moved after => exact ih after
      | produced node after => rfl

/-- The next node is the one that asking gives. -/
theorem next_eq_ask (traversal : Traversal) :
    traversal.next = traversal.ask.1.map fun node => (node, traversal.ask.2) :=
  seek_eq_askWithin _ traversal

theorem ask_of_next {traversal after : Traversal} {node : Node}
    (next : traversal.next = some (node, after)) : traversal.ask = (some node, after) := by
  rw [next_eq_ask, Option.map_eq_some_iff] at next
  obtain ⟨_, found, same⟩ := next
  obtain ⟨rfl, rfl⟩ := Prod.mk.inj same
  exact Prod.ext found rfl

/-- A run is what asking so many times comes to. -/
theorem asked_of_run {traversal last : Traversal} {nodes : List Node}
    (run : traversal.Run nodes last) : traversal.asked nodes.length = last := by
  induction run with
  | stop => rfl
  | more next _ ih =>
      rw [List.length_cons, asked, ask_of_next next]
      exact ih

theorem ask_eq_none_iff {traversal : Traversal} :
    traversal.ask.1 = none ↔ traversal.next = none := by
  rw [next_eq_ask, Option.map_eq_none_iff]

/-- Within enough steps, asking in vain leaves what the loop of steps has come to. -/
theorem Halts.askWithin_eq {traversal : Traversal} {count steps : Nat}
    (halts : Halts count traversal none) (enough : count ≤ steps) :
    ∃ last, ReflTransGen Moves traversal last ∧ last.step = .finished ∧
      traversal.askWithin steps = (none, last.exhausted) := by
  generalize outcome : (none : Option (Node × Traversal)) = found at halts
  induction halts generalizing steps with
  | @finished traversal step =>
      obtain ⟨steps, rfl⟩ := Nat.exists_eq_add_of_le' enough
      exact ⟨traversal, .refl, step, by simp [askWithin, step]⟩
  | produced => cases outcome
  | @moved count traversal after _ step _ ih =>
      obtain ⟨steps, rfl⟩ : ∃ left, steps = left + 1 := ⟨steps - 1, by omega⟩
      obtain ⟨last, path, ends, same⟩ := ih (Nat.le_of_succ_le_succ enough) outcome
      refine ⟨last, .head step path, ends, ?_⟩
      rw [askWithin, step]
      exact same

theorem visited_exhausted (traversal : Traversal) :
    traversal.exhausted.visited = traversal.visited := by
  unfold exhausted
  split <;> rfl

/-- Where the loop of steps has come to its end, it would end again at once. -/
theorem step_exhausted {traversal : Traversal} (finished : traversal.step = .finished) :
    traversal.exhausted.step = .finished := by
  have takes := traversal.takes_step
  rw [finished] at takes
  cases takes with
  | stopped _ given => simpa [exhausted, given] using finished
  | complete empty whole _ => simp [exhausted, step, reseed?, empty, whole, Model.size]

namespace Sound

variable {model : Model} {outputs : List NodeId} {traversal other : Traversal}
  {left : List Node}

theorem exhausted (linked : model.Linked) (sound : Sound model outputs traversal)
    (finished : traversal.step = .finished) : Sound model outputs traversal.exhausted := by
  have takes := traversal.takes_step
  rw [finished] at takes
  have stack : traversal.stack = [] := by
    cases takes <;> assumption
  rcases sound.step_of_empty linked stack with ⟨-, all⟩ | ⟨cursor, sink, -, step⟩
  · unfold Traversal.exhausted
    split
    · next whole =>
      exact { sound with passed := fun node taken => all whole node (List.take_subset _ _ taken) }
    · exact sound
  · cases finished.symm.trans step

/-- Asking keeps the invariant, and adds to what has been produced the node that it gives. -/
theorem askWithin (linked : model.Linked) (sound : Sound model outputs traversal) (steps : Nat) :
    Sound model outputs (traversal.askWithin steps).2 ∧
      (traversal.askWithin steps).2.visited =
        ((traversal.askWithin steps).1.map Node.id).toList ++ traversal.visited := by
  induction steps generalizing traversal with
  | zero => exact ⟨sound, rfl⟩
  | succ steps ih =>
      have takes := traversal.takes_step
      unfold Traversal.askWithin
      cases step : traversal.step with
      | finished => exact ⟨sound.exhausted linked step, traversal.visited_exhausted⟩
      | moved after =>
          obtain ⟨sound', visited⟩ := sound.moved linked (step ▸ takes)
          rw [← visited]
          exact ih sound'
      | produced node after =>
          obtain ⟨sound', visited, -⟩ := sound.produced linked (step ▸ takes)
          exact ⟨sound', visited⟩

theorem ask (linked : model.Linked) (sound : Sound model outputs traversal) :
    Sound model outputs traversal.ask.2 ∧
      traversal.ask.2.visited = (traversal.ask.1.map Node.id).toList ++ traversal.visited :=
  sound.askWithin linked traversal.stepBound

/-- Asking in vain is not cut short by the bound on the steps. -/
theorem ask_of_finished (wellFormed : model.WellFormed) (sound : Sound model outputs traversal)
    (finished : traversal.next = none) :
    ∃ last, ReflTransGen Moves traversal last ∧ last.step = .finished ∧
      traversal.ask = (none, last.exhausted) := by
  obtain ⟨count, few, halts⟩ := sound.halts_next wellFormed
  rw [finished] at halts
  exact halts.askWithin_eq (by rwa [stepBound, sound.isOf])

theorem asked (linked : model.Linked) (sound : Sound model outputs traversal) (count : Nat) :
    Sound model outputs (traversal.asked count) := by
  induction count generalizing traversal with
  | zero => exact sound
  | succ count ih => exact ih (sound.ask linked).1

/-- A traversal without a next node has none after it has been asked either, and has produced as
    much. -/
theorem asked_of_finished (wellFormed : model.WellFormed) (sound : Sound model outputs traversal)
    (finished : traversal.next = none) (count : Nat) :
    (traversal.asked count).next = none ∧ (traversal.asked count).visited = traversal.visited := by
  have linked := wellFormed.linked
  induction count generalizing traversal with
  | zero => exact ⟨finished, rfl⟩
  | succ count ih =>
      obtain ⟨last, path, ends, answer⟩ := sound.ask_of_finished wellFormed finished
      have sound' := (sound.moves linked path).exhausted linked ends
      have again := sound'.next_eq wellFormed (.finished (step_exhausted ends))
      obtain ⟨none, visited⟩ := ih sound' again
      have same := (sound.ask linked).2
      rw [answer] at same
      rw [Traversal.asked, answer]
      exact ⟨none, visited.trans same⟩

/-- Asking again gives the nodes still to come in turn, and then none. -/
theorem ask_asked (wellFormed : model.WellFormed) (sound : Sound model outputs traversal)
    (gives : traversal.Gives left) (count : Nat) :
    (traversal.asked count).ask.1 = left[count]? := by
  obtain ⟨last, run, ends⟩ := gives
  induction run generalizing count with
  | stop =>
      rw [List.getElem?_nil, ask_eq_none_iff]
      exact (sound.asked_of_finished wellFormed ends count).1
  | more next _ ih =>
      have answer := ask_of_next next
      cases count with
      | zero => exact congrArg Prod.fst answer
      | succ count =>
          rw [Traversal.asked, answer, List.getElem?_cons_succ]
          exact ih (sound.seek wellFormed.linked next).1 count ends

/-- What has been produced and what is still to come are no more than the nodes of the model, and
    all of them if the whole model is to be produced. -/
theorem length_left (wellFormed : model.WellFormed) (sound : Sound model outputs traversal)
    (gives : traversal.Gives left) : left.length + traversal.visited.length ≤ model.size ∧
      (traversal.full → left.length + traversal.visited.length = model.size) := by
  have linked := wellFormed.linked
  obtain ⟨last, run, ends⟩ := gives
  obtain ⟨sound', visited, -⟩ := sound.run linked run
  have total : last.visited.length = left.length + traversal.visited.length := by
    rw [visited, List.length_append, List.length_reverse, List.length_map]
  have few := sound'.scheduled.length_le_size linked
  refine ⟨total ▸ few, fun whole => Nat.le_antisymm (total ▸ few) ?_⟩
  have all := (sound'.drained wellFormed ends).2 (sound'.full.trans (sound.full.symm.trans whole))
  have within : model.nodes.map Node.id ⊆ last.visited := by
    intro id member
    obtain ⟨node, present, rfl⟩ := List.mem_map.1 member
    exact all node present
  have many := (List.subperm_of_subset linked.numbered.nodup_ids within).length_le
  rwa [List.length_map, total] at many

/-- The hint is right about the nodes still to come. -/
theorem sizeHint_left (wellFormed : model.WellFormed) (sound : Sound model outputs traversal)
    (gives : traversal.Gives left) :
    (traversal.full → traversal.sizeHint = (left.length, left.length)) ∧
      traversal.sizeHint.1 ≤ left.length ∧ left.length ≤ traversal.sizeHint.2 := by
  obtain ⟨within, all⟩ := sound.length_left wellFormed gives
  cases whole : traversal.full with
  | false =>
      have few : left.length ≤ model.size - traversal.visited.length := by omega
      simp [sizeHint, sound.isOf, whole, few]
  | true =>
      have total := all whole
      have remaining : model.size - traversal.visited.length = left.length := by omega
      simp [sizeHint, sound.isOf, whole, remaining]

theorem sizeHint_congr (sound : Sound model outputs traversal) (sound' : Sound model outputs other)
    (same : other.visited = traversal.visited) : other.sizeHint = traversal.sizeHint := by
  simp only [sizeHint, sound.isOf, sound'.isOf, sound.full, sound'.full, same]

end Sound

end Traversal

namespace Model

variable {model : Model} {outputs : List NodeId}

/-- However often a traversal of a reachable model has been asked for a node, with or without
    success, and however far it has come in its search for the next one, the loop that searches
    ends from there, and what it ends with is the next node; and if the loop reseeds its stack
    there, it does so with a sink that is missing. Following first dependents ends at a sink, from
    any node. -/
theorem Reachable.next_halts (reachable : model.Reachable) (room : model.size < UInt64.size)
    {first now : Traversal} (accepted : model.traversal outputs = .ok first) {count : Nat}
    (reached : first.asked count = now) :
    (∀ middle, ReflTransGen Traversal.Moves now middle →
      (∃ steps ≤ middle.stack.length + model.size + 2, middle.Halts steps middle.next) ∧
      ∀ seeded, middle.reseed? = some seeded → ∃ sink ∈ model.nodes, sink.dependents = [] ∧
        sink.id ∉ middle.visited ∧ seeded.stack = sink.id :: middle.stack) ∧
    ∀ node ∈ model.nodes, ∃ sink ∈ model.nodes,
      model.SinkOf node sink ∧ model.sinkFrom node = sink.id := by
  have wellFormed := reachable.wellFormed room
  have linked := wellFormed.linked
  obtain ⟨known, rfl⟩ := traversal_eq_ok_iff.1 accepted
  have sound : Traversal.Sound model outputs now :=
    reached ▸ (Traversal.Sound.start known).asked linked count
  refine ⟨fun middle path => ?_, fun node member => wellFormed.exists_sinkOf member⟩
  have sound' := sound.moves linked path
  exact ⟨sound'.halts_next wellFormed,
    fun seeded reseed => sound'.exists_sink_of_reseed? wellFormed reseed⟩

/-- After three nodes of `sample` the stack holds what has been produced, and then has to be
    reseeded for the node that stands alone. After four nodes there is none, and the traversal can
    still be asked. -/
theorem next_halts_sample : ∃ first nodes now, sample.traversal [] = .ok first ∧
    first.Run nodes now ∧ nodes.length = 3 ∧ (first.asked 4).ask.1 = none ∧
    ∀ traversal ∈ [now, first.asked 5],
      (∀ middle, ReflTransGen Traversal.Moves traversal middle →
        (∃ steps ≤ middle.stack.length + sample.size + 2, middle.Halts steps middle.next) ∧
        ∀ seeded, middle.reseed? = some seeded → ∃ sink ∈ sample.nodes, sink.dependents = [] ∧
          sink.id ∉ middle.visited ∧ seeded.stack = sink.id :: middle.stack) ∧
      ∀ node ∈ sample.nodes, ∃ sink ∈ sample.nodes,
        sample.SinkOf node sink ∧ sample.sinkFrom node = sink.id := by
  obtain ⟨nodes, now, run, length⟩ : ∃ nodes now,
      (Traversal.start sample []).Run nodes now ∧ nodes.length = 3 :=
    ⟨_, _, .more rfl (.more rfl (.more rfl .stop)), rfl⟩
  have accepted : sample.traversal [] = .ok (.start sample []) := rfl
  refine ⟨_, nodes, now, accepted, run, length, rfl, List.forall_mem_cons.2
    ⟨?_, List.forall_mem_singleton.2 ?_⟩⟩
  · exact Reachable.next_halts reachable_sample (by decide) accepted (Traversal.asked_of_run run)
  · exact Reachable.next_halts reachable_sample (by decide) accepted rfl

/-- However often a traversal of a reachable model has been asked for a node, it has produced
    distinct nodes of the model, and its hint does not count below zero. If the whole model is to be
    produced, the hint is how many nodes further asking gives, and with outputs that number is
    within its bounds. If the traversal then has no node, it never has one again, and its hint does
    not change any more. -/
theorem Reachable.sizeHint_asked (reachable : model.Reachable) (room : model.size < UInt64.size)
    {first now : Traversal} (accepted : model.traversal outputs = .ok first) {count : Nat}
    (reached : first.asked count = now) :
    now.full = (outputs.isEmpty && !model.isEmpty) ∧
    (now.visited.Nodup ∧ (∀ id ∈ now.visited, id ∈ model.nodes.map Node.id) ∧
      now.visited.length ≤ now.model.size) ∧
    (∃ left : List Node, (∀ more, (now.asked more).ask.1 = left[more]?) ∧
      (now.full → now.sizeHint = (left.length, left.length)) ∧
      now.sizeHint.1 ≤ left.length ∧ left.length ≤ now.sizeHint.2) ∧
    (now.ask.1 = none → ∀ more,
      (now.asked more).ask.1 = none ∧ (now.asked more).sizeHint = now.sizeHint) := by
  have wellFormed := reachable.wellFormed room
  have linked := wellFormed.linked
  obtain ⟨known, rfl⟩ := traversal_eq_ok_iff.1 accepted
  have sound : Traversal.Sound model outputs now :=
    reached ▸ (Traversal.Sound.start known).asked linked count
  refine ⟨sound.full, ⟨sound.scheduled.nodup, ?_, ?_⟩, ?_, ?_⟩
  · intro id produced
    exact linked.mem_ids_iff.2 (sound.scheduled.known linked id produced)
  · rw [sound.isOf]
    exact sound.scheduled.length_le_size linked
  · obtain ⟨left, last, run, ends⟩ := sound.exists_run linked
    have gives : now.Gives left := ⟨last, run, ends⟩
    exact ⟨left, sound.ask_asked wellFormed gives, sound.sizeHint_left wellFormed gives⟩
  · intro none more
    rw [Traversal.ask_eq_none_iff] at none ⊢
    obtain ⟨finished, same⟩ := sound.asked_of_finished wellFormed none more
    exact ⟨finished, sound.sizeHint_congr (sound.asked linked more) same⟩

/-- Asked twice, a traversal of all of `sample` has two nodes left, and asked four times it has
    none. -/
theorem sizeHint_asked_sample : ∃ first, sample.traversal [] = .ok first ∧
    (∃ left : List Node, (∀ more, ((first.asked 2).asked more).ask.1 = left[more]?) ∧
      (first.asked 2).sizeHint = (left.length, left.length) ∧ left.length = 2) ∧
    ∀ more, ((first.asked 4).asked more).ask.1 = none ∧
      ((first.asked 4).asked more).sizeHint = (0, 0) := by
  have accepted : sample.traversal [] = .ok (.start sample []) := rfl
  obtain ⟨-, -, ⟨left, answers, whole, -⟩, -⟩ :=
    Reachable.sizeHint_asked reachable_sample (by decide) accepted (rfl : Traversal.asked 2 _ = _)
  obtain ⟨-, -, -, ended⟩ :=
    Reachable.sizeHint_asked reachable_sample (by decide) accepted (rfl : Traversal.asked 4 _ = _)
  have hint : (Traversal.asked 2 (.start sample [])).sizeHint = (2, 2) := rfl
  have exact := whole rfl
  have two := congrArg Prod.fst (exact.symm.trans hint)
  exact ⟨_, accepted, ⟨left, answers, exact, two⟩, ended rfl⟩

end Model

end Dataflow
