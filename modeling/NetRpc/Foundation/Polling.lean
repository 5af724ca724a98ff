import Mathlib.Data.List.Range
import Mathlib.Data.Nat.Find

/-! # Loops over a stream of results

A loop asks for one result after the other and goes on after some of them. It
is a function of the results that there are, without a value as long as it asks
for more. A stream gives it what it would obtain if it went on for ever.
-/

namespace NetRpc.Polling

variable {Result : Type u} {Outcome : Type v}

/-- What the first `calls` calls obtain. -/
def firsts (results : Nat → Result) (calls : Nat) : List Result :=
  (List.range calls).map results

/-- The loop leaves with `outcome` after it has made `calls` calls. -/
def LeavesAfter (loop : List Result → Option Outcome) (results : Nat → Result) (calls : Nat)
    (outcome : Outcome) : Prop :=
  loop (firsts results calls) = some outcome ∧ ∀ fewer < calls, loop (firsts results fewer) = none

/-- The loop leaves, and where one of its calls has failed it leaves with an
outcome that is `accepted`. -/
structure EndsOnFailure (loop : List Result → Option Outcome) (failure : Result → Prop)
    (accepted : Outcome → Prop) (results : Nat → Result) : Prop where
  leaves : ∃ calls outcome, LeavesAfter loop results calls outcome
  closes : ∀ calls outcome, LeavesAfter loop results calls outcome →
    (∃ call < calls, failure (results call)) → accepted outcome

variable {goesOn progress failure : Result → Prop} {results : Nat → Result}
  {loop : List Result → Option Outcome} {accepted : Outcome → Prop}

theorem mem_firsts {result : Result} {calls : Nat} :
    result ∈ firsts results calls ↔ ∃ call < calls, results call = result := by
  rw [firsts, List.mem_map]
  constructor
  · rintro ⟨call, member, same⟩
    exact ⟨call, List.mem_range.mp member, same⟩
  · rintro ⟨call, inside, same⟩
    exact ⟨call, List.mem_range.mpr inside, same⟩

/-- Where failures persist and progress ends, something else is obtained at
some point exactly if the first result that is no progress is no failure. -/
theorem exists_other_iff
    (persists : ∀ call, failure (results call) → ∀ later ≥ call, failure (results later))
    (ends : ∃ bound, ∀ call ≥ bound, ¬progress (results call)) :
    (∃ call, ¬(progress (results call) ∨ failure (results call))) ↔
      ∀ call, (∀ earlier < call, progress (results earlier)) → ¬failure (results call) := by
  constructor
  · rintro ⟨other, neither⟩ call allProgress fails
    rcases Nat.lt_or_ge other call with inside | reached
    · exact neither (.inl (allProgress other inside))
    · exact neither (.inr (persists call fails other reached))
  · intro condition
    classical
    have some : ∃ call, ¬progress (results call) := by
      rcases ends with ⟨bound, noProgress⟩
      exact ⟨bound, noProgress bound (Nat.le_refl bound)⟩
    have before : ∀ earlier < Nat.find some, progress (results earlier) := by
      intro earlier inside
      exact not_not.mp (Nat.find_min some inside)
    exact ⟨Nat.find some, not_or.mpr ⟨Nat.find_spec some, condition _ before⟩⟩

/-- A loop that goes on exactly after progress and after failures. -/
def Scans (loop : List Result → Option Outcome) (progress failure : Result → Prop)
    (results : Nat → Result) : Prop :=
  ∀ calls, (loop (firsts results calls)).isSome ↔
    ∃ result ∈ firsts results calls, ¬(progress result ∨ failure result)

theorem Scans.leaves_iff (scans : Scans loop progress failure results) :
    (∃ calls outcome, LeavesAfter loop results calls outcome) ↔
      ∃ call, ¬(progress (results call) ∨ failure (results call)) := by
  constructor
  · rintro ⟨calls, outcome, left, _⟩
    rcases (scans calls).mp (Option.isSome_of_eq_some left) with ⟨result, member, neither⟩
    rcases mem_firsts.mp member with ⟨call, _, rfl⟩
    exact ⟨call, neither⟩
  · rintro ⟨call, neither⟩
    have some : ∃ calls, (loop (firsts results calls)).isSome = true := by
      refine ⟨call + 1, (scans _).mpr ⟨results call, mem_firsts.mpr ?_, neither⟩⟩
      exact ⟨call, Nat.lt_succ_self call, rfl⟩
    rcases Option.isSome_iff_exists.mp (Nat.find_spec some) with ⟨outcome, left⟩
    refine ⟨Nat.find some, outcome, left, ?_⟩
    intro fewer inside
    exact Option.not_isSome_iff_eq_none.mp (Nat.find_min some inside)

/-- Such a loop ends on failures exactly if it does not meet one. -/
theorem Scans.endsOnFailure_iff (scans : Scans loop progress failure results)
    (persists : ∀ call, failure (results call) → ∀ later ≥ call, failure (results later))
    (ends : ∃ bound, ∀ call ≥ bound, ¬progress (results call)) :
    EndsOnFailure loop failure accepted results ↔
      ∀ call, (∀ earlier < call, progress (results earlier)) → ¬failure (results call) := by
  rw [← exists_other_iff persists ends, ← scans.leaves_iff]
  constructor
  · intro endsOnFailure
    exact endsOnFailure.leaves
  · intro leaves
    refine ⟨leaves, ?_⟩
    rintro calls outcome ⟨left, notEarlier⟩ ⟨call, inside, fails⟩
    rcases (scans calls).mp (Option.isSome_of_eq_some left) with ⟨result, member, neither⟩
    rcases mem_firsts.mp member with ⟨other, before, rfl⟩
    exfalso
    rcases Nat.lt_or_ge other call with earlier | later
    · have leftEarlier := (scans call).mpr ⟨results other, mem_firsts.mpr ⟨other, earlier, rfl⟩,
        neither⟩
      rw [notEarlier call inside] at leftEarlier
      cases leftEarlier
    · exact neither (.inr (persists call fails other later))

end NetRpc.Polling
