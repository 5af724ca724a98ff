/-! # Traced computations

A computation that records every access it attempts. It stops at the first
access that is not `legal`, with that access as its fault. The two fields of
the structure keep the record and the outcome consistent, so a fault can only
be an illegal access and a result can only follow legal ones.
-/

namespace NetRpc

structure Traced {Access : Type u} (legal : Access → Prop) (α : Type v) where
  accesses : List Access
  outcome : Except Access α
  fault_illegal : ∀ access, outcome = .error access →
    access ∈ accesses ∧ ¬legal access
  result_legal : ∀ value, outcome = .ok value →
    ∀ access ∈ accesses, legal access

namespace Traced

variable {Access : Type u} {legal : Access → Prop} {α β : Type v}

def result (value : α) : Traced legal α where
  accesses := []
  outcome := .ok value
  fault_illegal := by simp
  result_legal := by simp

/-- Attempt one access. -/
def touch [DecidablePred legal] (access : Access) : Traced legal PUnit where
  accesses := [access]
  outcome := if legal access then .ok ⟨⟩ else .error access
  fault_illegal := by
    intro other faulted
    split at faulted
    · simp at faulted
    · cases faulted
      exact ⟨by simp, by assumption⟩
  result_legal := by
    intro value succeeded other member
    split at succeeded
    · simp only [List.mem_singleton] at member
      exact member ▸ by assumption
    · simp at succeeded

def andThen (first : Traced legal α) (next : α → Traced legal β) :
    Traced legal β :=
  match outcome : first.outcome with
  | .error access =>
      { accesses := first.accesses
        outcome := .error access
        fault_illegal := by
          intro other equal
          cases equal
          exact first.fault_illegal access outcome
        result_legal := by simp }
  | .ok value =>
      { accesses := first.accesses ++ (next value).accesses
        outcome := (next value).outcome
        fault_illegal := by
          intro access faulted
          have inNext := (next value).fault_illegal access faulted
          exact ⟨List.mem_append_right _ inNext.1, inNext.2⟩
        result_legal := by
          intro other succeeded access member
          rcases List.mem_append.mp member with inFirst | inNext
          · exact first.result_legal value outcome access inFirst
          · exact (next value).result_legal other succeeded access inNext }

instance : Monad (Traced legal) where
  pure := result
  bind := andThen

/-- The computation ends with `value`, without a fault. -/
def Yields (computation : Traced legal α) (value : α) : Prop :=
  computation.outcome = .ok value

instance [DecidableEq (Except Access α)] (computation : Traced legal α) (value : α) :
    Decidable (computation.Yields value) :=
  inferInstanceAs (Decidable (_ = _))

/-- Every recorded access satisfies `bound`. -/
def Within (bound : Access → Prop) (computation : Traced legal α) : Prop :=
  ∀ access ∈ computation.accesses, bound access

theorem Yields.unique {computation : Traced legal α} {value other : α}
    (yields : computation.Yields value) (again : computation.Yields other) :
    value = other := by
  rw [Yields, yields] at again
  exact Except.ok.inj again

theorem exists_yields_iff (computation : Traced legal α) :
    (∃ value, computation.Yields value) ↔ computation.Within legal := by
  constructor
  · intro succeeds
    rcases succeeds with ⟨value, yields⟩
    exact computation.result_legal value yields
  · intro allLegal
    cases outcome : computation.outcome with
    | ok value => exact ⟨value, outcome⟩
    | error access =>
        have faulted := computation.fault_illegal access outcome
        exact absurd (allLegal access faulted.1) faulted.2

theorem yields_pure (value : α) : (pure value : Traced legal α).Yields value := rfl

@[simp] theorem yields_pure_iff {value final : α} :
    (pure value : Traced legal α).Yields final ↔ value = final := by
  constructor
  · exact (yields_pure value).unique
  · intro equal
    exact equal ▸ yields_pure value

@[simp] theorem within_pure (bound : Access → Prop) (value : α) :
    (pure value : Traced legal α).Within bound := by
  intro access member
  cases member

theorem yields_bind_iff {first : Traced legal α} {next : α → Traced legal β}
    {final : β} : (first >>= next).Yields final ↔
      ∃ value, first.Yields value ∧ (next value).Yields final := by
  change (first.andThen next).outcome = _ ↔ ∃ value, first.outcome = _ ∧ _
  rw [andThen]
  split
  · simp_all
  · simp_all [Yields]

theorem Yields.bind {first : Traced legal α} {next : α → Traced legal β} {value : α}
    {final : β} (yields : first.Yields value) (rest : (next value).Yields final) :
    (first >>= next).Yields final :=
  yields_bind_iff.mpr ⟨value, yields, rest⟩

theorem within_bind (bound : Access → Prop) (first : Traced legal α)
    (next : α → Traced legal β) :
    (first >>= next).Within bound ↔
      first.Within bound ∧ ∀ value, first.Yields value → (next value).Within bound := by
  change (first.andThen next).Within bound ↔ _ ∧ ∀ value, first.outcome = _ → _
  unfold Within andThen
  split
  · simp_all
  · rename_i value succeeded
    simp only [succeeded, Except.ok.injEq, forall_eq', List.mem_append]
    constructor
    · intro all
      exact ⟨fun access member => all access (.inl member),
        fun access member => all access (.inr member)⟩
    · intro both access member
      rcases member with member | member
      · exact both.1 access member
      · exact both.2 access member

/-- When a computation within the bound ends with a known value, the next one
only has to be considered at that value. -/
theorem within_bind_of_yields {bound : Access → Prop} {first : Traced legal α} {value : α}
    (next : α → Traced legal β) (yields : first.Within bound → first.Yields value) :
    (first >>= next).Within bound ↔ first.Within bound ∧ (next value).Within bound := by
  rw [within_bind]
  apply and_congr_right
  intro within
  constructor
  · intro rest
    exact rest value (yields within)
  · intro rest other yieldsOther
    exact (yields within).unique yieldsOther ▸ rest

section Touch

variable [DecidablePred legal]

@[simp] theorem within_touch (bound : Access → Prop) (access : Access) :
    (touch access : Traced legal PUnit).Within bound ↔ bound access := by
  simp [Within, touch]

theorem yields_touch {access : Access} (isLegal : legal access) :
    (touch access : Traced legal PUnit).Yields ⟨⟩ := by
  simp [Yields, touch, isLegal]

@[simp] theorem yields_touch_iff {access : Access} {touched : PUnit} :
    (touch access : Traced legal PUnit).Yields touched ↔ legal access := by
  constructor
  · intro yields
    rw [Yields, touch] at yields
    split at yields
    case isTrue isLegal => exact isLegal
    case isFalse => cases yields
  · exact yields_touch

/-- Under a bound that only admits legal accesses, an access within the bound
always lets the computation go on. -/
theorem within_touch_bind {bound : Access → Prop}
    (sound : ∀ access, bound access → legal access) (access : Access)
    (next : PUnit → Traced legal β) :
    (touch access >>= next).Within bound ↔
      bound access ∧ (next ⟨⟩).Within bound := by
  rw [within_bind_of_yields next, within_touch]
  intro within
  exact yields_touch (sound access ((within_touch bound access).mp within))

theorem yields_of_within {bound : Access → Prop}
    (sound : ∀ access, bound access → legal access) {access : Access} (value : α)
    (within : (touch access >>= fun _ => pure value : Traced legal α).Within bound) :
    (touch access >>= fun _ => pure value : Traced legal α).Yields value := by
  have admitted := ((within_touch_bind sound access _).mp within).1
  exact (yields_touch (sound access admitted)).bind (yields_pure value)

end Touch

theorem within_ite (bound : Access → Prop) (condition : Prop) [Decidable condition]
    (whenTrue whenFalse : Traced legal α) :
    (if condition then whenTrue else whenFalse).Within bound ↔
      (condition → whenTrue.Within bound) ∧
        (¬condition → whenFalse.Within bound) := by
  split <;> simp_all

end Traced

end NetRpc
