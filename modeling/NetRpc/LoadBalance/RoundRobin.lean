import NetRpc.Foundation.Rounds
import NetRpc.Foundation.Transition
import NetRpc.LoadBalance.Strategy
import Mathlib.Data.Option.Basic

/-! # Whom the round-robin strategy serves

All channels share one round-robin object, and it has one cursor for all the
lists it chooses from. How the cursor moves is decided by the order of the calls
and by how long the lists are. Each list is served evenly as long as that never
brings it back to a place that the list's own round has already had, as two lists
in turn do.
-/

namespace NetRpc

namespace LoadBalance

variable {Address : Type u}

/-- What the shared objects remember after a call through one of them. -/
def keep (strategies : LoadBalance Address) : LoadBalanceStrategy Address → LoadBalance Address
  | .random => strategies
  | .round index => { strategies with index }
  | .consistentHash selectors => { strategies with selectors }

end LoadBalance

namespace RoundLoadBalanceStrategy

variable {Address : Type u}

/-- `select` with the numbers as the `int`s that they are. -/
def selectInt (index : Int32) (addrs : List Address) : Option Address × Int32 :=
  let index := if index ≥ Int32.ofNat addrs.length then 0 else index
  (if index < 0 then none else addrs[index.toInt.toNat]?, index + 1)

/-- `select` answers with the address at the place that the cursor comes to, and
leaves the cursor behind it. -/
theorem select_eq_place (index : Nat) (addrs : List Address) :
    select index addrs =
      (addrs[Rounds.place addrs.length index]?, Rounds.place addrs.length index + 1) := by
  rw [select, Rounds.place]
  by_cases inside : index < addrs.length
  · rw [if_pos inside, if_neg (by omega)]
  · rw [if_neg inside, if_pos (by omega)]

/-- An index that has come from lists that an `int` can count is the `int` it should be. -/
theorem selectInt_ofNat {addrs : List Address} {index : Nat} (short : addrs.length < 2 ^ 31)
    (fits : index < 2 ^ 31) :
    selectInt (.ofNat index) addrs =
      ((select index addrs).1, .ofNat (select index addrs).2) := by
  have behind : Int32.ofNat index ≥ Int32.ofNat addrs.length ↔ index ≥ addrs.length := by
    rw [ge_iff_le, Int32.le_iff_toInt_le, Int32.toInt_ofNat_of_lt fits,
      Int32.toInt_ofNat_of_lt short]
    omega
  have zero : (0 : Int32).toInt = 0 := rfl
  have notNegative : ¬Int32.ofNat index < 0 := by
    rw [Int32.lt_iff_toInt_lt, Int32.toInt_ofNat_of_lt fits, zero]
    omega
  have next : Int32.ofNat index + 1 = .ofNat (index + 1) := (Int32.ofNat_add index 1).symm
  by_cases back : index ≥ addrs.length
  · simp only [selectInt, select, behind, back, if_true]
    rfl
  · simp only [selectInt, select, behind, back, if_false, notNegative,
      Int32.toInt_ofNat_of_lt fits, Int.toNat_natCast, next]

end RoundLoadBalanceStrategy

/-- The fixed address lists of a family of services. -/
structure AddressLists (Service : Type v) (Address : Type u) where
  addrs : Service → List Address
  nonempty : ∀ service, addrs service ≠ []
  distinct : ∀ service, (addrs service).Nodup

namespace AddressLists

variable {Service : Type v} {Address : Type u} (lists : AddressLists Service Address)

/-- How long the lists are. -/
def sizes (service : Service) : Nat :=
  (lists.addrs service).length

theorem sizes_pos (service : Service) : 0 < lists.sizes service :=
  List.length_pos_iff.mpr (lists.nonempty service)

/-- The addresses of a list are those at its places. -/
theorem map_places (service : Service) :
    (List.range (lists.sizes service)).map (fun place => (lists.addrs service)[place]?) =
      (lists.addrs service).map some := by
  apply List.ext_getElem?
  intro place
  rw [List.getElem?_map, List.getElem?_map, sizes]
  by_cases inside : place < (lists.addrs service).length
  · rw [List.getElem?_range inside, List.getElem?_eq_getElem inside]
    exact congrArg some (List.getElem?_eq_getElem inside)
  · have behind : (lists.addrs service).length ≤ place := Nat.le_of_not_lt inside
    rw [List.getElem?_eq_none (by simpa using behind), List.getElem?_eq_none behind]
    rfl

/-- No two places of a list have the same address. -/
theorem injOn_places (service : Service) :
    Set.InjOn (fun place => (lists.addrs service)[place]?)
      {place | place ∈ List.range (lists.sizes service)} := by
  intro place inside other _ same
  exact (List.getElem?_inj (List.mem_range.mp inside) (lists.distinct service)).mp same

end AddressLists

namespace RoundRobin

variable {Service : Type v} {Address : Type u}

/-- One call of `select`, with the list of `service`. -/
structure Call (Service : Type v) where
  service : Service
  rand : Nat
  invocation : TinyPBProtocol

/-- The shared strategy objects, with the answers that each list has had. -/
structure State (Service : Type v) (Address : Type u) where
  strategies : LoadBalance Address := {}
  answers : Service → List (Option Address) := fun _ => []

variable [DecidableEq Service] (hashing : Hashing Address)
  (lists : AddressLists Service Address)

def State.select (state : State Service Address) (call : Call Service) :
    State Service Address :=
  let answer := (state.strategies.queryStrategy .round).select hashing call.rand
    (lists.addrs call.service) call.invocation
  { strategies := state.strategies.keep answer.2
    answers := Function.update state.answers call.service
      (state.answers call.service ++ [answer.1]) }

/-- Any order of calls. -/
def system : Transition.System (State Service Address) (Call Service) where
  Initial state := state = {}
  Step current call next := current.select hashing lists call = next

/-- Every index used was in range. -/
def State.InRange (state : State Service Address) : Prop :=
  ∀ service, none ∉ state.answers service

variable [DecidableEq Address]

/-- For each list, the numbers of times its addresses were chosen differ by at most one. -/
def State.Fair (state : State Service Address) : Prop :=
  ∀ service, Rounds.Even ((lists.addrs service).map some) (state.answers service)

section Following

omit [DecidableEq Address]

/-- The cursor and the answers are those of a rotation through the lists. -/
structure State.Follows (state : State Service Address) (rotation : Rounds.Rotation Service) :
    Prop where
  index : state.strategies.index = rotation.cursor
  answers : ∀ service, state.answers service =
    (rotation.places service).map fun place => (lists.addrs service)[place]?

variable {lists} {state : State Service Address} {rotation : Rounds.Rotation Service}

theorem State.Follows.select (follows : state.Follows lists rotation) (call : Call Service) :
    (state.select hashing lists call).Follows lists (rotation.turn lists.sizes call.service) := by
  have answer := RoundLoadBalanceStrategy.select_eq_place state.strategies.index
    (lists.addrs call.service)
  rw [follows.index] at answer
  have index : (state.select hashing lists call).strategies.index =
      (RoundLoadBalanceStrategy.select state.strategies.index
        (lists.addrs call.service)).2 := rfl
  have answers : (state.select hashing lists call).answers =
      Function.update state.answers call.service (state.answers call.service ++
        [(RoundLoadBalanceStrategy.select state.strategies.index
          (lists.addrs call.service)).1]) := rfl
  rw [follows.index, answer] at index answers
  apply State.Follows.mk
  · exact index
  · intro service
    rw [answers, Rounds.turn_places]
    by_cases same : service = call.service
    · subst same
      rw [Function.update_self, Function.update_self, follows.answers, List.map_append]
      rfl
    · rw [Function.update_of_ne same, Function.update_of_ne same]
      exact follows.answers service

theorem follows_of_run {calls : List (Call Service)}
    (run : (system hashing lists).Run {} calls state) :
    state.Follows lists (Rounds.rotate lists.sizes (calls.map Call.service)) := by
  refine run.history (fun earlier (current : State Service Address) =>
    current.Follows lists (Rounds.rotate lists.sizes (earlier.map Call.service))) ?_ ?_
  · intro earlier current call next follows step
    cases step
    rw [List.map_append, List.map_singleton, Rounds.rotate_append]
    exact follows.select hashing call
  · exact ⟨rfl, fun _ => rfl⟩

theorem exists_run (calls : List (Call Service)) :
    ∃ state, (system hashing lists).Run {} calls state := by
  induction calls using List.reverseRecOn with
  | nil => exact ⟨_, .nil _⟩
  | append_singleton calls call induction =>
      rcases induction with ⟨state, run⟩
      exact ⟨_, run.snoc rfl⟩

end Following

variable {lists} {state : State Service Address} {rotation : Rounds.Rotation Service}

/-- The rotation has only come to places that the lists have. -/
def Within (lists : AddressLists Service Address) (rotation : Rounds.Rotation Service) : Prop :=
  ∀ service, rotation.places service ⊆ List.range (lists.sizes service)

omit [DecidableEq Service] [DecidableEq Address] in
theorem State.Follows.inRange (follows : state.Follows lists rotation)
    (within : Within lists rotation) : state.InRange := by
  intro service
  rw [follows.answers, List.mem_map, not_exists]
  intro place both
  have inside : place < (lists.addrs service).length :=
    List.mem_range.mp (within service both.1)
  exact absurd both.2 (by simpa using inside)

omit [DecidableEq Service] in
theorem State.Follows.fair_iff (follows : state.Follows lists rotation)
    (within : Within lists rotation) :
    state.Fair lists ↔ ∀ service,
      Rounds.Even (List.range (lists.sizes service)) (rotation.places service) := by
  apply forall_congr'
  intro service
  rw [follows.answers, ← lists.map_places]
  exact Rounds.even_map_iff (lists.injOn_places service) (within service)

/-- Every index is in range and every list is served evenly exactly as long as the
order of the calls and the lengths of the lists do not bring the cursor to a place
that the list's round has had. -/
theorem always_served_iff (lists : AddressLists Service Address) (calls : List (Call Service)) :
    (system hashing lists).Always (fun state => state.InRange ∧ state.Fair lists) {} calls ↔
      ∀ service, Rounds.OncePerRound (lists.sizes service)
        ((Rounds.rotate lists.sizes (calls.map Call.service)).places service) := by
  have within : ∀ turns, Within lists (Rounds.rotate lists.sizes turns) :=
    fun turns service => Rounds.places_within lists.sizes (lists.sizes_pos service) turns
  rw [← Rounds.even_places_iff lists.sizes lists.sizes_pos]
  constructor
  · intro always turns isPrefix
    rcases List.prefix_map_iff.mp isPrefix with ⟨earlier, before, rfl⟩
    rcases exists_run hashing earlier with ⟨state, run⟩
    exact ((follows_of_run hashing run).fair_iff (within _)).mp (always earlier state before run).2
  · intro even earlier state before run
    have follows := follows_of_run hashing run
    exact ⟨follows.inRange (within _),
      (follows.fair_iff (within _)).mpr (even _ (before.map Call.service))⟩

/-- Two services with two addresses each. -/
def twoServices : AddressLists Bool Bytes where
  addrs service := if service then [ascii "a", ascii "b"] else [ascii "c", ascii "d"]
  nonempty := by decide
  distinct := by decide

def callsInTurn : List (Call Bool) := [⟨true, 0, {}⟩, ⟨false, 0, {}⟩, ⟨true, 0, {}⟩]

/-- With the services called in turn, the first one is sent to the same address twice. -/
theorem not_served_in_turn :
    ¬(system lastByteHashing twoServices).Always
      (fun state => state.InRange ∧ state.Fair twoServices) {} callsInTurn := by
  intro always
  have run : (system lastByteHashing twoServices).Run {} callsInTurn
      (callsInTurn.foldl (State.select lastByteHashing twoServices) {}) :=
    .cons rfl (.cons rfl (.cons rfl (.nil _)))
  have fair := (always callsInTurn _ (List.prefix_refl _) run).2 true
  have level := fair (some (ascii "a")) (by decide) (some (ascii "b")) (by decide)
  exact absurd level (by decide)

end RoundRobin

end NetRpc
