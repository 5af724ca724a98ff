import NetRpc.LoadBalance.Strategy
import Mathlib.Data.List.Forall2

/-! # What the selector cache returns

A consistent-hash strategy keeps one selector for each method name and means to
build a new one whenever the addresses have changed. What it inserts never
replaces a selector that exists, so every call is answered from the list that
its method name was first used with.
-/

namespace NetRpc.ConsistentHashLoadBalanceStrategy

variable {Address : Type u} (hashing : Hashing Address)

/-- One call of `select`. -/
structure SelectCall (Address : Type u) where
  addrs : List Address
  invocation : TinyPBProtocol

/-- The answers to a sequence of calls. -/
def selectAll (selectors : Selectors Address) :
    List (SelectCall Address) → List (Option Address)
  | [] => []
  | call :: rest =>
      let answer := select hashing selectors call.addrs call.invocation
      answer.1 :: selectAll answer.2 rest

/-- The selector that is built for a list of addresses. -/
def selectorFor (addrs : List Address) : ConsistentHashSelector Address :=
  .create hashing addrs 160 (hashCode hashing addrs)

/-- What a selector freshly built from the list of a call returns. -/
def freshSelect (call : SelectCall Address) : Option Address :=
  (selectorFor hashing call.addrs).select hashing call.invocation.pbData

/-- Every call is answered as if by a fresh selector, and from its own list. -/
def Transparent (calls : List (SelectCall Address)) : Prop :=
  selectAll hashing (fun _ => none) calls = calls.map (freshSelect hashing) ∧
    List.Forall₂ (fun call answer => ∃ address ∈ call.addrs, answer = some address) calls
      (selectAll hashing (fun _ => none) calls)

/-! ## The ring -/

omit hashing in
theorem foldl_ne_nil {State : Type v} {Item : Type w} (step : List State → Item → List State)
    (always : ∀ states item, step states item ≠ []) {items : List Item}
    (some : items ≠ []) (states : List State) : items.foldl step states ≠ [] := by
  induction items generalizing states with
  | nil => exact absurd rfl some
  | cons item rest induction =>
      rw [List.foldl_cons]
      cases rest with
      | nil => exact always states item
      | cons => exact induction (List.cons_ne_nil _ _) _

theorem virtualInvokers_ne_nil {addrs : List Address} (nonempty : addrs ≠ []) :
    (selectorFor hashing addrs).virtualInvokers ≠ [] := by
  apply foldl_ne_nil _ _ nonempty
  intro ring invoker
  apply foldl_ne_nil _ _ (by decide)
  intro ring i
  apply foldl_ne_nil _ _ (by decide)
  intro ring h
  exact SortedMap.assign_ne_nil _ _ _

/-- Every virtual node stands for one of the addresses. -/
def Within (addrs : List Address) (ring : List (Nat × Address)) : Prop :=
  ∀ node ∈ ring, node.2 ∈ addrs

theorem virtualInvokers_within (addrs : List Address) :
    Within addrs (selectorFor hashing addrs).virtualInvokers := by
  apply List.foldlRecOn (motive := Within addrs)
  · intro node none
    cases none
  · intro ring inside invoker invokerMember
    apply List.foldlRecOn (motive := Within addrs)
    · exact inside
    · intro ring inside i _
      apply List.foldlRecOn (motive := Within addrs)
      · exact inside
      · intro ring inside h _ node member
        rcases SortedMap.eq_or_mem_of_mem_assign member with rfl | before
        · exact invokerMember
        · exact inside node before

theorem freshSelect_mem {call : SelectCall Address} (nonempty : call.addrs ≠ []) :
    ∃ address ∈ call.addrs, freshSelect hashing call = some address := by
  have ringNonempty := virtualInvokers_ne_nil hashing nonempty
  rw [freshSelect, ConsistentHashSelector.select, ConsistentHashSelector.selectForKey]
  split
  case h_1 node rest found =>
    refine ⟨node.2, virtualInvokers_within hashing call.addrs node ?_, rfl⟩
    have member : node ∈ node :: rest := List.mem_cons_self
    rw [← found] at member
    exact (List.dropWhile_sublist _).subset member
  case h_2 =>
    cases ring : (selectorFor hashing call.addrs).virtualInvokers with
    | nil => exact absurd ring ringNonempty
    | cons node rest =>
        refine ⟨node.2, virtualInvokers_within hashing call.addrs node ?_, rfl⟩
        rw [ring]
        exact List.mem_cons_self

/-! ## The cache -/

/-- The list that a method name was first used with. -/
abbrev FirstLists (Address : Type u) := Bytes → Option (List Address)

def selectorsOf (first : FirstLists Address) : Selectors Address :=
  fun methodName => (first methodName).map (selectorFor hashing)

/-- The list that a call is answered from, and that is kept for its method name. -/
def listUsed (first : FirstLists Address) (call : SelectCall Address) : List Address :=
  (first call.invocation.methodName).getD call.addrs

def remember (first : FirstLists Address) (call : SelectCall Address) :
    FirstLists Address :=
  Function.update first call.invocation.methodName (some (listUsed first call))

theorem remember_eq_self {first : FirstLists Address} {call : SelectCall Address}
    {addrs : List Address} (known : first call.invocation.methodName = some addrs) :
    remember first call = first := by
  rw [remember, listUsed, known, Option.getD_some, ← known, Function.update_eq_self]

theorem insert_selectorsOf (first : FirstLists Address) (call : SelectCall Address) :
    insert (selectorsOf hashing first) call.invocation.methodName
        (selectorFor hashing call.addrs) =
      selectorsOf hashing (remember first call) := by
  cases known : first call.invocation.methodName with
  | none =>
      have absent : selectorsOf hashing first call.invocation.methodName = none := by
        rw [selectorsOf, known, Option.map_none]
      rw [insert, absent]
      funext methodName
      by_cases same : methodName = call.invocation.methodName
      · simp [selectorsOf, remember, listUsed, same, known]
      · simp [selectorsOf, remember, same]
  | some addrs =>
      have present : selectorsOf hashing first call.invocation.methodName =
          some (selectorFor hashing addrs) := by
        rw [selectorsOf, known, Option.map_some]
      rw [insert, present, remember_eq_self known]

/-- Whether or not the addresses have changed, the first list is used. -/
theorem select_selectorsOf (first : FirstLists Address) (call : SelectCall Address) :
    select hashing (selectorsOf hashing first) call.addrs call.invocation =
      (freshSelect hashing { call with addrs := listUsed first call },
        selectorsOf hashing (remember first call)) := by
  have used : selectorsOf hashing (remember first call) call.invocation.methodName =
      some (selectorFor hashing (listUsed first call)) := by
    rw [selectorsOf, remember, Function.update_self, Option.map_some]
  have inserted := insert_selectorsOf hashing first call
  rw [select]
  cases known : first call.invocation.methodName with
  | none =>
      have absent : selectorsOf hashing first call.invocation.methodName = none := by
        rw [selectorsOf, known, Option.map_none]
      simp only [absent, if_true]
      rw [selectorFor] at inserted
      rw [inserted, used]
      rfl
  | some addrs =>
      rw [remember_eq_self known] at inserted used ⊢
      rw [selectorFor] at inserted
      rw [inserted, ite_self, used]
      rfl

/-- The list that the calls so far or else the given ones use first. -/
def firstUsed (first : FirstLists Address) (calls : List (SelectCall Address))
    (call : SelectCall Address) : Option (List Address) :=
  (first call.invocation.methodName).or
    ((calls.find? fun other =>
      other.invocation.methodName = call.invocation.methodName).map SelectCall.addrs)

theorem firstUsed_remember (first : FirstLists Address) (head call : SelectCall Address)
    (rest : List (SelectCall Address)) :
    firstUsed (remember first head) rest call = firstUsed first (head :: rest) call := by
  by_cases same : head.invocation.methodName = call.invocation.methodName
  · rw [firstUsed, remember, ← same, Function.update_self, Option.some_or, firstUsed, ← same,
      List.find?_cons_of_pos (by simp), Option.map_some, listUsed]
    cases first head.invocation.methodName <;> rfl
  · rw [firstUsed, remember, Function.update_of_ne (Ne.symm same), firstUsed,
      List.find?_cons_of_neg (by simpa using same)]

/-- Every call is answered from the list that its method name is first used with. -/
theorem selectAll_selectorsOf (first : FirstLists Address)
    (calls : List (SelectCall Address)) :
    selectAll hashing (selectorsOf hashing first) calls =
      calls.map fun call => freshSelect hashing
        { call with addrs := (firstUsed first calls call).getD call.addrs } := by
  induction calls generalizing first with
  | nil => rfl
  | cons head rest induction =>
      rw [selectAll, select_selectorsOf, List.map_cons]
      have headUsed : (firstUsed first (head :: rest) head).getD head.addrs =
          listUsed first head := by
        rw [firstUsed, List.find?_cons_of_pos (by simp), Option.map_some, listUsed]
        cases first head.invocation.methodName <;> rfl
      have restUsed : ∀ call : SelectCall Address,
          firstUsed (remember first head) rest call = firstUsed first (head :: rest) call :=
        fun call => firstUsed_remember first head call rest
      simp only [headUsed, induction, restUsed]

/-- The first call with the method name of `call`. -/
def firstCall (calls : List (SelectCall Address)) (call : SelectCall Address) :
    Option (SelectCall Address) :=
  calls.find? fun other => other.invocation.methodName = call.invocation.methodName

theorem selectAll_eq (calls : List (SelectCall Address)) :
    selectAll hashing (fun _ => none) calls = calls.map fun call => freshSelect hashing
      { call with addrs := ((firstCall calls call).map SelectCall.addrs).getD call.addrs } :=
  selectAll_selectorsOf hashing (fun _ => none) calls

/-- The answers are those of fresh selectors exactly where, for each call, the
list that its method name is first used with and its own list lead its request
to the same address. -/
theorem cache_transparent_iff {calls : List (SelectCall Address)}
    (nonempty : ∀ call ∈ calls, call.addrs ≠ []) :
    Transparent hashing calls ↔
      ∀ call ∈ calls, ∀ first, firstCall calls call = some first →
        freshSelect hashing { call with addrs := first.addrs } = freshSelect hashing call := by
  have found : ∀ call ∈ calls, ∃ first, firstCall calls call = some first := by
    intro call member
    rw [← Option.isSome_iff_exists, firstCall, List.find?_isSome]
    exact ⟨call, member, by simp⟩
  rw [Transparent, selectAll_eq, List.map_inj_left]
  constructor
  · rintro ⟨same, _⟩ call member first isFirst
    have equal := same call member
    rw [isFirst, Option.map_some, Option.getD_some] at equal
    exact equal
  · intro agree
    have same : ∀ call ∈ calls, freshSelect hashing
        { call with addrs := ((firstCall calls call).map SelectCall.addrs).getD call.addrs } =
          freshSelect hashing call := by
      intro call member
      rcases found call member with ⟨first, isFirst⟩
      rw [isFirst, Option.map_some, Option.getD_some]
      exact agree call member first isFirst
    refine ⟨same, ?_⟩
    rw [List.map_congr_left same, List.forall₂_map_right_iff, List.forall₂_same]
    intro call member
    exact freshSelect_mem hashing (nonempty call member)

/-- One method name, used first with one address and then with another. -/
def movedService (before after : Bytes) : List (SelectCall Bytes) :=
  [{ addrs := [before], invocation := { methodName := ascii "Order.makeOrder" } },
    { addrs := [after], invocation := { methodName := ascii "Order.makeOrder" } }]

theorem freshSelect_singleton (address : Address) (invocation : TinyPBProtocol) :
    freshSelect hashing { addrs := [address], invocation := invocation } = some address := by
  rcases @freshSelect_mem _ hashing { addrs := [address], invocation := invocation }
      (List.cons_ne_nil _ _) with ⟨chosen, member, answer⟩
  rw [answer, List.mem_singleton.mp member]

/-- Whatever MD5 and `std::hash` are, the second call is sent to the server that
is gone, also where the hash codes of the lists differ. -/
theorem cache_not_transparent :
    (∃ hashing : Hashing Bytes,
      hashCode hashing [ascii "127.0.0.1:8001"] ≠ hashCode hashing [ascii "127.0.0.1:8002"]) ∧
      ¬∃ hashing : Hashing Bytes, Transparent hashing
        (movedService (ascii "127.0.0.1:8001") (ascii "127.0.0.1:8002")) := by
  refine ⟨⟨lastByteHashing, by decide +kernel⟩, ?_⟩
  rintro ⟨hashing, transparent, _⟩
  rw [selectAll_eq] at transparent
  have second := (List.map_inj_left.mp transparent) _ (List.mem_cons_of_mem _ List.mem_cons_self)
  rw [freshSelect_singleton] at second
  have answered : freshSelect hashing
      { addrs := [ascii "127.0.0.1:8001"]
        invocation := { methodName := ascii "Order.makeOrder" } } =
      some (ascii "127.0.0.1:8002") := second
  rw [freshSelect_singleton] at answered
  revert answered
  decide +kernel

theorem cache_transparent_iff_movedService :
    movedService [0] [1] ≠ [] ∧ ∀ hashing : Hashing Bytes,
      Transparent hashing (movedService [0] [1]) ↔
        ∀ call ∈ movedService [0] [1], ∀ first,
          firstCall (movedService [0] [1]) call = some first →
            freshSelect hashing { call with addrs := first.addrs } =
              freshSelect hashing call :=
  ⟨List.cons_ne_nil _ _, fun hashing => cache_transparent_iff hashing (by decide)⟩

end NetRpc.ConsistentHashLoadBalanceStrategy
