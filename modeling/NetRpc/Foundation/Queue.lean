import NetRpc.Foundation.Transition

/-! # First in, first out

The queue that a buffer or a pipeline stands for. Items are put at its end and
taken from its front, and nothing else happens to them.
-/

namespace NetRpc.Queue

variable {Item : Type u}

inductive Operation (Item : Type u)
  | put (items : List Item)
  /-- `taken` is what a request for at most `count` items obtains. -/
  | take (count : Nat) (taken : List Item)

def Operation.puts : Operation Item → List Item
  | .put items => items
  | .take _ _ => []

def Operation.takes : Operation Item → List Item
  | .put _ => []
  | .take _ taken => taken

def fifo : Transition.System (List Item) (Operation Item) where
  Initial contents := contents = []
  Step contents operation next :=
    match operation with
    | .put items => next = contents ++ items
    | .take count taken => taken = contents.take count ∧ next = contents.drop count

theorem put (contents items : List Item) :
    fifo.Run contents [.put items] (contents ++ items) :=
  .cons rfl (.nil _)

theorem take (contents : List Item) (count : Nat) :
    fifo.Run contents [.take count (contents.take count)] (contents.drop count) :=
  .cons ⟨rfl, rfl⟩ (.nil _)

theorem step_conserves {contents next : List Item} {operation : Operation Item}
    (step : fifo.Step contents operation next) :
    contents ++ operation.puts = operation.takes ++ next := by
  cases operation with
  | put items => exact step.symm
  | take count taken =>
      rcases step with ⟨rfl, rfl⟩
      rw [Operation.puts, Operation.takes, List.append_nil, List.take_append_drop]

/-- What has been put comes out in the same order, or is still inside. -/
theorem conservation {initial final : List Item} {operations : List (Operation Item)}
    (run : fifo.Run initial operations final) :
    initial ++ operations.flatMap Operation.puts =
      operations.flatMap Operation.takes ++ final := by
  induction run with
  | nil => simp
  | cons step _ induction =>
      rw [List.flatMap_cons, List.flatMap_cons, ← List.append_assoc, step_conserves step,
        List.append_assoc, induction, List.append_assoc]

end NetRpc.Queue
