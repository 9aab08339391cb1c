import Dataflow.Proofs.Schedules

/-! # Steps of a traversal

What a single step can do is said once. From that it follows that steps keep the invariant of a
traversal: it has produced nodes after their parents and each once, its stack holds ids of the
model, and if outputs are given, it is about them and their ancestors only.
-/

namespace Dataflow

open Relation

namespace Model

variable {model : Model}

/-- Following first dependents from a node leads to nodes of the model that are below it. -/
theorem Linked.followToSink (linked : model.Linked) (links : Nat) {node : Node}
    (member : node ∈ model.nodes) :
    ReflTransGen model.IsParent node.id (model.followToSink links node) ∧
      model.contains (model.followToSink links node) := by
  have known : model.contains node.id := contains_iff.2 (linked.numbered.position_lt member)
  induction links generalizing node with
  | zero => exact ⟨.refl, known⟩
  | succ links ih =>
      unfold Model.followToSink
      split
      · next dependent found =>
        obtain ⟨id, first, found⟩ := Option.bind_eq_some_iff.1 found
        obtain ⟨present, rfl⟩ := linked.get?_eq_some_iff.1 found
        have isParent := (linked.mem_dependents member).1 (List.mem_of_head? first)
        obtain ⟨path, contained⟩ := ih present (linked.contains_child isParent)
        exact ⟨.head isParent path, contained⟩
      · exact ⟨.refl, known⟩

end Model

namespace Traversal

/-- An empty stack is reseeded below the first node that is missing, if there is one. -/
theorem reseed?_cases (traversal : Traversal) :
    (traversal.reseed? = none ∧
      ∀ node ∈ traversal.model.nodes.drop traversal.cursor, node.id ∈ traversal.visited) ∨
    ∃ passed node rest, traversal.model.nodes.drop traversal.cursor = passed ++ node :: rest ∧
      (∀ other ∈ passed, other.id ∈ traversal.visited) ∧ node.id ∉ traversal.visited ∧
      traversal.reseed? = some { traversal with
        cursor := traversal.cursor + passed.length
        stack := traversal.model.sinkFrom node :: traversal.stack } := by
  let left := traversal.model.nodes.drop traversal.cursor
  let passed := left.takeWhile (·.id ∈ traversal.visited)
  have split : passed ++ left.dropWhile (·.id ∈ traversal.visited) = left :=
    List.takeWhile_append_dropWhile
  have produced : ∀ other ∈ passed, other.id ∈ traversal.visited := fun other member => by
    simpa using List.mem_takeWhile_imp member
  have first : traversal.model.nodes[traversal.cursor + passed.length]? =
      (left.dropWhile (·.id ∈ traversal.visited))[0]? := by
    calc traversal.model.nodes[traversal.cursor + passed.length]?
      _ = left[passed.length]? := List.getElem?_drop.symm
      _ = (passed ++ left.dropWhile (·.id ∈ traversal.visited))[passed.length]? := by rw [split]
      _ = _ := by rw [List.getElem?_append_right (Nat.le_refl _), Nat.sub_self]
  have reseed : traversal.reseed? =
      (traversal.model.nodes[traversal.cursor + passed.length]?).map fun node =>
        { traversal with
          cursor := traversal.cursor + passed.length
          stack := traversal.model.sinkFrom node :: traversal.stack } := rfl
  rw [reseed, first]
  cases rest : left.dropWhile (·.id ∈ traversal.visited) with
  | nil =>
      left
      refine ⟨rfl, ?_⟩
      rw [rest, List.append_nil] at split
      intro node member
      exact produced node (split ▸ member)
  | cons node rest' =>
      right
      refine ⟨passed, node, rest', ?_, produced, ?_, rfl⟩
      · rw [← rest]
        exact split.symm
      · have missing :=
          List.head?_dropWhile_not (fun node : Node => node.id ∈ traversal.visited) left
        rw [rest] at missing
        simpa using missing

/-- What a step of a traversal can come to. -/
inductive Takes (traversal : Traversal) : Step → Prop where
  | stopped : traversal.stack = [] → traversal.full = false → Takes traversal .finished
  | complete : traversal.stack = [] → traversal.full = true →
      (∀ node ∈ traversal.model.nodes.drop traversal.cursor, node.id ∈ traversal.visited) →
      Takes traversal .finished
  | reseeded {passed rest : List Node} {node : Node} : traversal.stack = [] →
      traversal.full = true →
      traversal.model.nodes.drop traversal.cursor = passed ++ node :: rest →
      (∀ other ∈ passed, other.id ∈ traversal.visited) → node.id ∉ traversal.visited →
      Takes traversal (.moved { traversal with
        cursor := traversal.cursor + passed.length
        stack := [traversal.model.sinkFrom node] })
  | dropped {top : NodeId} {below : List NodeId} : traversal.stack = top :: below →
      top ∈ traversal.visited → Takes traversal (.moved { traversal with stack := below })
  | unknown {top : NodeId} {below : List NodeId} : traversal.stack = top :: below →
      top ∉ traversal.visited → traversal.model.get? top = none →
      Takes traversal (.moved { traversal with stack := below })
  | ready {top : NodeId} {below : List NodeId} {node : Node} : traversal.stack = top :: below →
      top ∉ traversal.visited → traversal.model.get? top = some node →
      (∀ parent ∈ node.parents, parent ∈ traversal.visited) →
      Takes traversal (.produced node { traversal with
        stack := if traversal.full then node.dependents ++ below else below
        visited := top :: traversal.visited })
  | waiting {top parent : NodeId} {below : List NodeId} {node : Node} :
      traversal.stack = top :: below → top ∉ traversal.visited →
      traversal.model.get? top = some node → parent ∈ node.parents → parent ∉ traversal.visited →
      Takes traversal (.moved { traversal with
        stack := node.parents.filter (· ∉ traversal.visited) ++ traversal.stack })

theorem takes_step (traversal : Traversal) : traversal.Takes traversal.step := by
  unfold step
  split
  · next empty =>
    split
    · next full =>
      rcases traversal.reseed?_cases with
        ⟨none, all⟩ | ⟨passed, node, rest, left, produced, missing, some⟩
      · rw [none]
        exact .complete empty full all
      · rw [some, empty]
        exact .reseeded empty full left produced missing
    · next given => exact .stopped empty (by simpa using given)
  · next top below stack =>
    split
    · next gone => exact .dropped stack gone
    · next new =>
      split
      · next absent => exact .unknown stack new absent
      · next node found =>
        split
        · next parents => exact .ready stack new found (by simpa [isReady] using parents)
        · next waits =>
          obtain ⟨parent, named, missing⟩ :
              ∃ parent ∈ node.parents, parent ∉ traversal.visited := by
            simpa [isReady] using waits
          exact .waiting stack new found named missing

end Traversal

/-- An id is needed for outputs if it is one of them or an ancestor of one. -/
def Model.Needed (model : Model) (outputs : List NodeId) (id : NodeId) : Prop :=
  ∃ output ∈ outputs, ReflTransGen model.IsParent id output

theorem Model.Needed.parent {model : Model} {outputs : List NodeId} {parent id : NodeId}
    (needed : model.Needed outputs id) (isParent : model.IsParent parent id) :
    model.Needed outputs parent := by
  obtain ⟨output, given, path⟩ := needed
  exact ⟨output, given, .head isParent path⟩

namespace Traversal

/-- What holds of a traversal of a model for outputs at any time. -/
structure Sound (model : Model) (outputs : List NodeId) (traversal : Traversal) : Prop where
  isOf : traversal.model = model
  full : traversal.full = (outputs.isEmpty && !model.isEmpty)
  scheduled : model.Scheduled traversal.visited
  known : ∀ id ∈ traversal.stack, model.contains id
  passed : ∀ node ∈ model.nodes.take traversal.cursor, node.id ∈ traversal.visited
  needed : traversal.full = false → ∀ id ∈ traversal.stack ++ traversal.visited,
    model.Needed outputs id
  pending : ∀ output ∈ outputs, output ∈ traversal.stack ++ traversal.visited

namespace Sound

variable {model : Model} {outputs : List NodeId} {traversal : Traversal}

theorem start (known : ∀ output ∈ outputs, model.contains output) :
    Sound model outputs (.start model outputs) where
  isOf := rfl
  full := rfl
  scheduled := .nil
  known := fun id member => known id (List.mem_reverse.1 member)
  passed := by simp [Traversal.start]
  needed := by
    intro _ id member
    have given : id ∈ outputs := by simpa [Traversal.start] using member
    exact ⟨id, given, .refl⟩
  pending := by simp [Traversal.start]

/-- The stack may change, as long as ids on it are known and needed and no missing output is
    lost. -/
theorem setStack (sound : Sound model outputs traversal) {stack : List NodeId}
    (known : ∀ id ∈ stack, model.contains id)
    (needed : traversal.full = false → ∀ id ∈ stack, model.Needed outputs id)
    (kept : ∀ id ∈ traversal.stack, id ∈ stack ++ traversal.visited) :
    Sound model outputs { traversal with stack } where
  isOf := sound.isOf
  full := sound.full
  scheduled := sound.scheduled
  known := known
  passed := sound.passed
  needed := by
    intro given id member
    rcases List.mem_append.1 member with stacked | produced
    · exact needed given id stacked
    · exact sound.needed given id (List.mem_append_right _ produced)
  pending := by
    intro output given
    rcases List.mem_append.1 (sound.pending output given) with stacked | produced
    · exact kept output stacked
    · exact List.mem_append_right _ produced

/-- A step that moves on keeps what has been produced. -/
theorem moved (linked : model.Linked) (sound : Sound model outputs traversal) {after : Traversal}
    (takes : traversal.Takes (.moved after)) :
    Sound model outputs after ∧ after.visited = traversal.visited := by
  obtain rfl := sound.isOf
  refine ⟨?_, by cases takes <;> rfl⟩
  cases takes with
  | @reseeded passed rest node empty full left produced missing =>
      have member : node ∈ traversal.model.nodes :=
        List.drop_subset traversal.cursor _ (by simp [left])
      have seeded : Sound traversal.model outputs
          { traversal with stack := [traversal.model.sinkFrom node] } := by
        apply sound.setStack
        · intro id sink
          rw [List.mem_singleton.1 sink]
          exact (linked.followToSink _ member).2
        · simp [full]
        · simp [empty]
      refine ⟨rfl, seeded.full, seeded.scheduled, seeded.known, ?_, seeded.needed, seeded.pending⟩
      intro other taken
      rw [List.take_add, left, List.take_left] at taken
      rcases List.mem_append.1 taken with before | between
      · exact sound.passed other before
      · exact produced other between
  | dropped stack gone =>
      apply sound.setStack
      · intro id below
        exact sound.known id (stack ▸ List.mem_cons_of_mem _ below)
      · intro given id below
        exact sound.needed given id (List.mem_append_left _ (stack ▸ List.mem_cons_of_mem _ below))
      · intro id stacked
        rw [stack] at stacked
        rcases List.mem_cons.1 stacked with rfl | below
        · exact List.mem_append_right _ gone
        · exact List.mem_append_left _ below
  | unknown stack new absent =>
      have present := sound.known _ (stack ▸ List.mem_cons_self)
      rw [Model.contains, absent] at present
      cases present
  | @waiting top _ below node stack new found named missing =>
      have onTop : top ∈ traversal.stack := stack ▸ List.mem_cons_self
      have isParent : ∀ id ∈ node.parents.filter (· ∉ traversal.visited),
          traversal.model.IsParent id top := fun id waited =>
        (linked.isParent_iff found).2 (List.mem_filter.1 waited).1
      apply sound.setStack
      · intro id stacked
        rcases List.mem_append.1 stacked with waited | old
        · exact linked.contains_parent (isParent id waited)
        · exact sound.known id old
      · intro given id stacked
        rcases List.mem_append.1 stacked with waited | old
        · exact (sound.needed given top (List.mem_append_left _ onTop)).parent (isParent id waited)
        · exact sound.needed given id (List.mem_append_left _ old)
      · intro id stacked
        exact List.mem_append_left _ (List.mem_append_right _ stacked)

/-- A step that produces a node adds it to what has been produced. -/
theorem produced (linked : model.Linked) (sound : Sound model outputs traversal) {node : Node}
    {after : Traversal} (takes : traversal.Takes (.produced node after)) :
    Sound model outputs after ∧ after.visited = node.id :: traversal.visited ∧
      node ∈ model.nodes := by
  obtain rfl := sound.isOf
  cases takes with
  | @ready top below node stack new found parents =>
      obtain ⟨member, rfl⟩ := linked.get?_eq_some_iff.1 found
      have below_known : ∀ id ∈ below, traversal.model.contains id := fun id stacked =>
        sound.known id (stack ▸ List.mem_cons_of_mem _ stacked)
      have scheduled := sound.scheduled.cons member new parents
      refine ⟨⟨rfl, sound.full, scheduled, ?_, ?_, ?_, ?_⟩, rfl, member⟩
      · intro id stacked
        dsimp only at stacked
        split at stacked
        · rcases List.mem_append.1 stacked with dependent | stacked
          · exact linked.contains_child ((linked.mem_dependents member).1 dependent)
          · exact below_known id stacked
        · exact below_known id stacked
      · intro other earlier
        exact List.mem_cons_of_mem _ (sound.passed other earlier)
      · intro (given : traversal.full = false) id member
        have perm : (below ++ node.id :: traversal.visited).Perm
            (traversal.stack ++ traversal.visited) := by
          rw [stack]
          exact List.perm_middle
        apply sound.needed given id
        rw [← perm.mem_iff]
        simpa [given] using member
      · intro output given
        have kept := sound.pending output given
        rw [stack, List.cons_append, List.mem_cons, List.mem_append] at kept
        dsimp only
        rw [List.mem_append, List.mem_cons]
        rcases kept with rfl | stacked | earlier
        · exact .inr (.inl rfl)
        · left
          split
          · exact List.mem_append_right _ stacked
          · exact stacked
        · exact .inr (.inr earlier)

end Sound

end Traversal

end Dataflow
