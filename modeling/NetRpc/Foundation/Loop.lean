import Mathlib.Logic.Relation

/-! # Endless loops

The meaning of `while (1)` over an arbitrary loop body. One pass through the
body either leaves the loop, goes around again with a new state and at most
one emitted item, or stops with a fault.
-/

namespace NetRpc.Loop

inductive Pass (State : Type u) (Item : Type v)
  | leave
  | again (next : State) (item : Option Item)
deriving DecidableEq

abbrev Body (State : Type u) (Item : Type v) (Fault : Type w) :=
  State → Except Fault (Pass State Item)

variable {State : Type u} {Item : Type v} {Fault : Type w}

/-- Run the loop for at most `fuel` passes. The result is `none` exactly when
the passes did not suffice. -/
def run (body : Body State Item Fault) :
    Nat → List Item → State → Option (Except Fault (List Item × State))
  | 0, _, _ => none
  | fuel + 1, items, state =>
      match body state with
      | .error fault => some (.error fault)
      | .ok .leave => some (.ok (items, state))
      | .ok (.again next item) => run body fuel (items ++ item.toList) next

/-- One pass leads from `current` back to the head of the loop in `next`. -/
def Turns (body : Body State Item Fault) (current next : State) : Prop :=
  ∃ item, body current = .ok (.again next item)

/-- `state` is at the head of the loop in a run that entered it at `initial`. -/
def Reaches (body : Body State Item Fault) (initial state : State) : Prop :=
  Relation.ReflTransGen (Turns body) initial state

/-- The loop, entered at `initial`, emits `items` and leaves in `final`. -/
inductive Returns (body : Body State Item Fault) : State → List Item → State → Prop
  | leave {state : State} : body state = .ok .leave → Returns body state [] state
  | again {current next final : State} {item : Option Item} {items : List Item} :
      body current = .ok (.again next item) →
      Returns body next items final →
      Returns body current (item.toList ++ items) final

variable {body : Body State Item Fault}

/-- What every pass emits has a property that all items share. -/
theorem run_items {holds : Item → Prop}
    (emits : ∀ state next item, body state = .ok (.again next (some item)) → holds item) :
    ∀ {fuel : Nat} {items emitted : List Item} {state final : State},
      run body fuel items state = some (.ok (emitted, final)) →
      (∀ item ∈ items, holds item) → ∀ item ∈ emitted, holds item
  | 0, _, _, _, _, ran, _ => by cases ran
  | fuel + 1, items, emitted, state, final, ran, all => by
      rw [run] at ran
      split at ran
      · cases ran
      · cases ran
        exact all
      · rename_i next item passed
        apply run_items emits ran
        intro other member
        rcases List.mem_append.mp member with before | now
        · exact all other before
        · rw [Option.mem_toList] at now
          rw [Option.mem_def.mp now] at passed
          exact emits state next other passed

theorem Returns.run_eq {initial final : State} {emitted : List Item}
    (returns : Returns body initial emitted final) :
    ∃ passes, ∀ fuel, passes ≤ fuel → ∀ items,
      run body fuel items initial = some (.ok (items ++ emitted, final)) := by
  induction returns with
  | leave left =>
      refine ⟨1, fun fuel enough items => ?_⟩
      cases fuel with
      | zero => omega
      | succ fuel => simp [run, left]
  | again turned _ induction =>
      rcases induction with ⟨passes, rest⟩
      refine ⟨passes + 1, fun fuel enough items => ?_⟩
      cases fuel with
      | zero => omega
      | succ fuel =>
          simp only [run, turned]
          rw [rest fuel (by omega), List.append_assoc]

theorem Returns.unique {initial : State} {items others : List Item}
    {final last : State} (returns : Returns body initial items final)
    (again : Returns body initial others last) : items = others ∧ final = last := by
  induction returns generalizing others last with
  | leave left =>
      cases again with
      | leave => exact ⟨rfl, rfl⟩
      | again turned _ =>
          rw [left] at turned
          cases turned
  | again turned _ induction =>
      cases again with
      | leave left =>
          rw [turned] at left
          cases left
      | again other rest =>
          rw [turned] at other
          cases other
          rcases induction rest with ⟨sameItems, sameFinal⟩
          exact ⟨congrArg _ sameItems, sameFinal⟩

/-- The loop leaves from `state` after finitely many passes, without a fault. -/
def Terminates (body : Body State Item Fault) (state : State) : Prop :=
  ∃ items final, Returns body state items final

theorem Terminates.of_turns {current next : State}
    (terminates : Terminates body current) (turns : Turns body current next) :
    Terminates body next := by
  rcases terminates with ⟨items, final, returns⟩
  rcases turns with ⟨item, turned⟩
  cases returns with
  | leave left => simp [turned] at left
  | again other rest =>
      rw [turned] at other
      cases other
      exact ⟨_, final, rest⟩

theorem Terminates.of_reaches {initial state : State}
    (terminates : Terminates body initial) (reaches : Reaches body initial state) :
    Terminates body state := by
  induction reaches with
  | refl => exact terminates
  | tail _ turns induction => exact induction.of_turns turns

theorem Terminates.passes {state : State} (terminates : Terminates body state) :
    ∃ pass, body state = .ok pass := by
  rcases terminates with ⟨items, final, returns⟩
  cases returns with
  | leave left => exact ⟨_, left⟩
  | again turned _ => exact ⟨_, turned⟩

theorem Reaches.head {initial next state : State} (turns : Turns body initial next)
    (reaches : Reaches body next state) : Reaches body initial state :=
  Relation.ReflTransGen.head turns reaches

theorem Returns.reaches {initial final : State} {items : List Item}
    (returns : Returns body initial items final) : Reaches body initial final := by
  induction returns with
  | leave => exact .refl
  | again turned _ induction => exact .head ⟨_, turned⟩ induction

/-- A loop that leaves at once is only ever where it was entered. -/
theorem Reaches.eq_of_leave {initial state : State} (left : body initial = .ok .leave)
    (reaches : Reaches body initial state) : state = initial := by
  rcases Relation.ReflTransGen.cases_head reaches with same | ⟨next, turns, _⟩
  · exact same.symm
  · rcases turns with ⟨item, turned⟩
    rw [left] at turned
    cases turned

theorem Reaches.preserves (invariant : State → Prop)
    (preserved : ∀ current next, invariant current → Turns body current next →
      invariant next)
    {initial state : State} (reaches : Reaches body initial state)
    (start : invariant initial) : invariant state := by
  induction reaches with
  | refl => exact start
  | tail _ turns induction => exact preserved _ _ induction turns

/-- A state that one pass leads back to is never left. -/
theorem not_terminates_of_turns_self {state : State} (turns : Turns body state state) :
    ¬Terminates body state := by
  intro terminates
  rcases terminates with ⟨items, final, returns⟩
  rcases turns with ⟨item, turned⟩
  induction returns with
  | leave left =>
      rw [turned] at left
      cases left
  | again other _ induction =>
      rw [turned] at other
      cases other
      exact induction turned

/-- A loop whose passes never fault and always shrink a measure terminates. -/
theorem terminates_of_measure (measure : State → Nat) :
    ∀ {initial : State},
    (∀ state, Reaches body initial state → ∃ pass, body state = .ok pass) →
    (∀ current next, Reaches body initial current → Turns body current next →
      measure next < measure current) →
    Terminates body initial := by
  intro initial
  induction bound : measure initial using Nat.strongRecOn generalizing initial with
  | ind size induction =>
      intro noFault shrinks
      rcases noFault initial .refl with ⟨pass, passed⟩
      cases pass with
      | leave => exact ⟨[], initial, .leave passed⟩
      | again next item =>
          have turns : Turns body initial next := ⟨item, passed⟩
          have smaller := shrinks initial next .refl turns
          rcases induction (measure next) (bound ▸ smaller) rfl
              (fun state reaches => noFault state (.head turns reaches))
              (fun current after reaches =>
                shrinks current after (.head turns reaches)) with
            ⟨items, final, rest⟩
          exact ⟨_, final, .again passed rest⟩

end NetRpc.Loop
