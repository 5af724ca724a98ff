import Mathlib.Data.List.Induction

/-! # Labelled transition systems

A system is given by its initial states and by what one labelled step can do.
Runs, reachable states and the rule that carries an invariant along a run are
stated once here. Every state machine of the development instantiates them.
-/

namespace NetRpc.Transition

structure System (State : Type u) (Label : Type v) where
  Initial : State → Prop
  Step : State → Label → State → Prop

namespace System

variable {State : Type u} {Label : Type v} {Observation : Type w}
  {State' : Type u'} {Label' : Type v'}

inductive Run (system : System State Label) : State → List Label → State → Prop
  | nil (state : State) : Run system state [] state
  | cons {current middle final : State} {label : Label} {labels : List Label} :
      system.Step current label middle →
      Run system middle labels final →
      Run system current (label :: labels) final

def Reachable (system : System State Label) (state : State) : Prop :=
  ∃ initial labels, system.Initial initial ∧ system.Run initial labels state

/-- The same system, with only the steps that `allowed` admits. -/
def restrict (system : System State Label) (allowed : State → Label → Prop) :
    System State Label where
  Initial := system.Initial
  Step current label next := system.Step current label next ∧ allowed current label

/-- The executable step that `restrict` belongs to. -/
def guarded (allowed : State → Label → Prop) [∀ state label, Decidable (allowed state label)]
    (step : State → Label → Option State) (state : State) (label : Label) : Option State :=
  if allowed state label then step state label else none

/-- Every state that the labels lead through has the property. -/
def Always (system : System State Label) (property : State → Prop) (initial : State)
    (labels : List Label) : Prop :=
  ∀ earlier state, earlier <+: labels → system.Run initial earlier state → property state

/-- Every step that the labels make meets the condition. -/
def EachStep (system : System State Label) (condition : State → Label → State → Prop)
    (initial : State) (labels : List Label) : Prop :=
  ∀ earlier current label next, earlier ++ [label] <+: labels →
    system.Run initial earlier current → system.Step current label next →
    condition current label next

variable {system : System State Label}

theorem Run.preserves (invariant : State → Prop)
    (preserved : ∀ current label next, invariant current →
      system.Step current label next → invariant next)
    {initial final : State} {labels : List Label}
    (run : system.Run initial labels final) (start : invariant initial) :
    invariant final := by
  induction run with
  | nil => exact start
  | cons step _ induction => exact induction (preserved _ _ _ start step)

theorem Reachable.invariant (invariant : State → Prop)
    (initially : ∀ state, system.Initial state → invariant state)
    (preserved : ∀ current label next, invariant current →
      system.Step current label next → invariant next)
    {state : State} (reachable : system.Reachable state) : invariant state := by
  rcases reachable with ⟨initial, labels, isInitial, run⟩
  exact run.preserves invariant preserved (initially initial isInitial)

theorem Run.append {initial middle final : State} {left right : List Label}
    (first : system.Run initial left middle)
    (second : system.Run middle right final) :
    system.Run initial (left ++ right) final := by
  induction first with
  | nil => exact second
  | cons step _ induction => exact .cons step (induction second)

theorem Reachable.run {current next : State} {labels : List Label}
    (reachable : system.Reachable current) (run : system.Run current labels next) :
    system.Reachable next := by
  rcases reachable with ⟨initial, earlier, isInitial, before⟩
  exact ⟨initial, earlier ++ labels, isInitial, before.append run⟩

/-- An invariant that also speaks about the labels so far. -/
theorem Run.history {initial final : State} {labels : List Label}
    (invariant : List Label → State → Prop)
    (preserved : ∀ history current label next, invariant history current →
      system.Step current label next → invariant (history ++ [label]) next)
    (run : system.Run initial labels final) (start : invariant [] initial) :
    invariant labels final := by
  have extended : ∀ history, invariant history initial →
      invariant (history ++ labels) final := by
    clear start
    induction run with
    | nil =>
        intro history holds
        rw [List.append_nil]
        exact holds
    | cons step _ induction =>
        intro history holds
        have next := preserved history _ _ _ holds step
        rw [List.append_cons]
        exact induction _ next
  exact extended [] start

theorem Run.snoc {initial current next : State} {label : Label} {labels : List Label}
    (run : system.Run initial labels current) (step : system.Step current label next) :
    system.Run initial (labels ++ [label]) next :=
  run.append (.cons step (.nil next))

theorem Run.unsnoc {initial final : State} {label : Label} {labels : List Label}
    (run : system.Run initial (labels ++ [label]) final) :
    ∃ current, system.Run initial labels current ∧ system.Step current label final := by
  induction labels generalizing initial with
  | nil =>
      cases run with
      | cons step rest =>
          cases rest
          exact ⟨initial, .nil initial, step⟩
  | cons first rest induction =>
      cases run with
      | cons step later =>
          rcases induction later with ⟨current, before, last⟩
          exact ⟨current, .cons step before, last⟩

theorem Run.split {initial final : State} {left right : List Label}
    (run : system.Run initial (left ++ right) final) :
    ∃ middle, system.Run initial left middle ∧ system.Run middle right final := by
  induction left generalizing initial with
  | nil => exact ⟨initial, .nil initial, run⟩
  | cons label left induction =>
      cases run with
      | cons step later =>
          rcases induction later with ⟨middle, before, after⟩
          exact ⟨middle, .cons step before, after⟩

theorem EachStep.of_prefix {condition : State → Label → State → Prop} {initial : State}
    {earlier labels : List Label} (each : system.EachStep condition initial labels)
    (isPrefix : earlier <+: labels) : system.EachStep condition initial earlier :=
  fun before current label next within =>
    each before current label next (within.trans isPrefix)

/-- Where a condition on the steps keeps an invariant, it holds as long as all
steps meet the condition. -/
theorem EachStep.invariant {condition : State → Label → State → Prop}
    {invariant : State → Prop}
    (preserved : ∀ current label next, invariant current →
      system.Step current label next → condition current label next → invariant next)
    {initial final : State} {labels : List Label} (start : invariant initial)
    (each : system.EachStep condition initial labels) (run : system.Run initial labels final) :
    invariant final := by
  induction labels using List.reverseRecOn generalizing final with
  | nil =>
      cases run
      exact start
  | append_singleton labels label induction =>
      rcases run.unsnoc with ⟨current, before, step⟩
      have inside := induction (each.of_prefix (List.prefix_append _ _)) before
      have met := each labels current label final (List.prefix_refl _) before step
      exact preserved current label final inside step met

/-- Where the steps that meet one condition keep an invariant, and meet a second
condition inside of it, all steps of a run meet the second as long as all meet
the first. -/
theorem EachStep.entails {condition other : State → Label → State → Prop}
    {invariant : State → Prop}
    (preserved : ∀ current label next, invariant current →
      system.Step current label next → condition current label next → invariant next)
    (entailed : ∀ current label next, invariant current →
      system.Step current label next → condition current label next → other current label next)
    {initial : State} {labels : List Label} (start : invariant initial)
    (each : system.EachStep condition initial labels) :
    system.EachStep other initial labels := by
  intro earlier current label next isPrefix run step
  have before := each.of_prefix ((List.prefix_append _ _).trans isPrefix)
  have inside := before.invariant preserved start run
  exact entailed current label next inside step
    (each earlier current label next isPrefix run step)

/-- Where a step is good exactly under a condition that keeps an invariant, all
steps of a run are good exactly where all meet the condition. -/
theorem eachStep_iff {good : State → Label → State → Prop} {invariant : State → Prop}
    {condition : State → Label → Prop}
    (preserved : ∀ current label next, invariant current →
      system.Step current label next → condition current label → invariant next)
    (good_iff : ∀ current label next, invariant current →
      system.Step current label next → (good current label next ↔ condition current label))
    {initial : State} (start : invariant initial) (labels : List Label) :
    system.EachStep good initial labels ↔
      system.EachStep (fun current label _ => condition current label) initial labels := by
  constructor
  · intro allGood
    have preservedByGood : ∀ current label next, invariant current →
        system.Step current label next → good current label next → invariant next := by
      intro current label next inside step isGood
      exact preserved current label next inside step
        ((good_iff current label next inside step).mp isGood)
    exact allGood.entails preservedByGood
      (fun current label next inside step => (good_iff current label next inside step).mp) start
  · intro allMet
    exact allMet.entails preserved
      (fun current label next inside step => (good_iff current label next inside step).mpr) start

/-- A property of the states holds all along exactly if every step establishes it. -/
theorem always_iff_eachStep {property : State → Prop} {initial : State}
    (holds : property initial) (labels : List Label) :
    system.Always property initial labels ↔
      system.EachStep (fun _ _ next => property next) initial labels := by
  constructor
  · intro always earlier current label next isPrefix run step
    exact always _ next isPrefix (run.snoc step)
  · intro established earlier state isPrefix run
    cases earlier using List.reverseRecOn with
    | nil =>
        cases run
        exact holds
    | append_singleton earlier label =>
        rcases run.unsnoc with ⟨current, before, step⟩
        exact established earlier current label state isPrefix before step

/-- Where one step keeps a property exactly under a condition, a run keeps it
exactly where all its steps meet the condition. -/
theorem always_iff {property invariant : State → Prop} {condition : State → Label → Prop}
    (preserved : ∀ current label next, invariant current →
      system.Step current label next → invariant next)
    (keeps_iff : ∀ current label next, invariant current → property current →
      system.Step current label next → (property next ↔ condition current label))
    {initial : State} (start : invariant initial) (holds : property initial)
    (labels : List Label) :
    system.Always property initial labels ↔
      system.EachStep (fun current label _ => condition current label) initial labels := by
  have both : ∀ current label next, invariant current ∧ property current →
      system.Step current label next → condition current label →
      invariant next ∧ property next := by
    intro current label next inside step met
    exact ⟨preserved current label next inside.1 step,
      (keeps_iff current label next inside.1 inside.2 step).mpr met⟩
  have established_iff : ∀ current label next, invariant current ∧ property current →
      system.Step current label next → (property next ↔ condition current label) := by
    intro current label next inside step
    exact keeps_iff current label next inside.1 inside.2 step
  rw [always_iff_eachStep holds]
  exact eachStep_iff both established_iff ⟨start, holds⟩ labels

/-- Where every step of one system is a run of another, so is every run. A
step that the other system does not see is its empty run. -/
theorem Run.simulates {other : System State' Label'} {view : State → State'}
    {seen : Label → List Label'} (invariant : State → Prop)
    (preserved : ∀ current label next, invariant current →
      system.Step current label next → invariant next)
    (simulated : ∀ current label next, invariant current →
      system.Step current label next → other.Run (view current) (seen label) (view next))
    {initial final : State} {labels : List Label}
    (run : system.Run initial labels final) (start : invariant initial) :
    other.Run (view initial) (labels.flatMap seen) (view final) := by
  induction run with
  | nil => exact .nil _
  | cons step _ induction =>
      rw [List.flatMap_cons]
      exact (simulated _ _ _ start step).append (induction (preserved _ _ _ start step))

/-- Where every state of an invariant is at a goal or has a step that brings it
closer, a goal can be reached. -/
theorem exists_run_of_measure {invariant goal : State → Prop} (measure : State → Nat)
    (progress : ∀ state, invariant state → goal state ∨ ∃ label next,
      system.Step state label next ∧ invariant next ∧ measure next < measure state)
    {state : State} (start : invariant state) :
    ∃ labels final, system.Run state labels final ∧ goal final := by
  induction distance : measure state using Nat.strongRecOn generalizing state with
  | ind distance induction =>
      rcases progress state start with there | ⟨label, next, step, inside, closer⟩
      · exact ⟨[], state, .nil state, there⟩
      · rcases induction (measure next) (distance ▸ closer) inside rfl with
          ⟨labels, final, run, there⟩
        exact ⟨label :: labels, final, .cons step run, there⟩

/-- The run that an executable step function computes. -/
theorem Run.of_foldlM {step : State → Label → Option State}
    (agrees : ∀ current label next, step current label = some next →
      system.Step current label next)
    {initial final : State} {labels : List Label}
    (computed : labels.foldlM step initial = some final) :
    system.Run initial labels final := by
  induction labels generalizing initial with
  | nil =>
      cases computed
      exact .nil _
  | cons label labels induction =>
      simp only [List.foldlM_cons, Option.bind_eq_bind, Option.bind_eq_some_iff] at computed
      rcases computed with ⟨next, stepped, rest⟩
      exact .cons (agrees _ label next stepped) (induction rest)

/-- What can be observed at the end of a run that an executable step function computes. -/
theorem Run.of_observed {step : State → Label → Option State}
    (agrees : ∀ current label next, step current label = some next →
      system.Step current label next)
    {initial : State} {labels : List Label} {observe : State → Observation}
    {observed : Observation}
    (computed : (labels.foldlM step initial).map observe = some observed) :
    ∃ final, system.Run initial labels final ∧ observe final = observed := by
  rcases Option.map_eq_some_iff.mp computed with ⟨final, ran, same⟩
  exact ⟨final, .of_foldlM agrees ran, same⟩

theorem restrict_of_guarded {allowed : State → Label → Prop}
    [∀ state label, Decidable (allowed state label)] {step : State → Label → Option State}
    (agrees : ∀ current label next, step current label = some next →
      system.Step current label next) (current : State) (label : Label) (next : State)
    (stepped : guarded allowed step current label = some next) :
    (system.restrict allowed).Step current label next := by
  rcases Option.ite_none_right_eq_some.mp stepped with ⟨holds, stepped⟩
  exact ⟨agrees current label next stepped, holds⟩

end System

end NetRpc.Transition
