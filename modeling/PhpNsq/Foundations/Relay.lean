import PhpNsq.Foundations.Runs

/-!
# Relays

A relay takes items in and passes them on in the order in which they came. What it emits
meanwhile comes in blocks: one when an item arrives, one when the first item that waits leaves,
and others in between. Beside the items that wait a relay has a context, which a block may
depend on.

When the blocks show which items came and what they were passed on as, a run of a relay shows no
loss, no duplicate and no overtaking (`Relay.Shows.conserved`).
-/

set_option autoImplicit false

namespace Foundations

variable {α β γ ε : Type*}

/-- The blocks of a relay, and the contexts that they leave. -/
structure Relay (α γ ε : Type*) where
  arrives : γ → α → List ε → Prop
  leaves : γ → α → List ε → γ → Prop
  besides : γ → List ε → γ → Prop

namespace Relay

/-- One block, with the items that wait before and after it. -/
inductive Step (relay : Relay α γ ε) : List α × γ → List ε → List α × γ → Prop where
  | arrive {waiting : List α} {context : γ} {item : α} {block : List ε}
      (arrives : relay.arrives context item block) :
      Step relay (waiting, context) block (waiting ++ [item], context)
  | leave {waiting : List α} {context context' : γ} {item : α} {block : List ε}
      (leaves : relay.leaves context item block context') :
      Step relay (item :: waiting, context) block (waiting, context')
  | beside {waiting : List α} {context context' : γ} {block : List ε}
      (besides : relay.besides context block context') :
      Step relay (waiting, context) block (waiting, context')

/-- The blocks show the items that arrive, and what they are passed on as. -/
structure Shows (relay : Relay α γ ε) (passedOn : α → β) (arrived : ε → Option α)
    (left : ε → Option β) : Prop where
  arrives : ∀ context item block, relay.arrives context item block →
    block.filterMap arrived = [item] ∧ block.filterMap left = []
  leaves : ∀ context item block context', relay.leaves context item block context' →
    block.filterMap arrived = [] ∧ block.filterMap left = [passedOn item]
  besides : ∀ context block context', relay.besides context block context' →
    block.filterMap arrived = [] ∧ block.filterMap left = []

variable {relay : Relay α γ ε} {passedOn : α → β} {arrived : ε → Option α} {left : ε → Option β}

/-- **Nothing is lost, duplicated or overtaken**: what has left and what waits is what arrived, in
order. -/
theorem Shows.conserved (shows : relay.Shows passedOn arrived left) {context : γ}
    {blocks : List (List ε)} {last : List α × γ} (run : Run relay.Step ([], context) blocks last) :
    ∃ gone, blocks.flatten.filterMap arrived = gone ++ last.1 ∧
      blocks.flatten.filterMap left = gone.map passedOn := by
  refine run.invariant (fun taken s => ∃ gone, taken.flatten.filterMap arrived = gone ++ s.1 ∧
    taken.flatten.filterMap left = gone.map passedOn) ?_ ⟨[], rfl, rfl⟩
  rintro taken s block next ⟨gone, came, went⟩ one
  simp only [List.flatten_append, List.filterMap_append, List.flatten_singleton, came, went]
  cases one with
  | arrive arrives =>
      obtain ⟨here, there⟩ := shows.arrives _ _ _ arrives
      exact ⟨gone, by rw [here, List.append_assoc], by rw [there, List.append_nil]⟩
  | leave leaves =>
      obtain ⟨here, there⟩ := shows.leaves _ _ _ _ leaves
      refine ⟨gone ++ [_], ?_, by rw [there, List.map_append, List.map_singleton]⟩
      rw [here, List.append_nil, List.append_assoc, List.singleton_append]
  | beside besides =>
      obtain ⟨here, there⟩ := shows.besides _ _ _ besides
      exact ⟨gone, by rw [here, List.append_nil], by rw [there, List.append_nil]⟩

end Relay

end Foundations
