import Mathlib.Data.List.Nodup
import NetRpc.Foundation.Transition
import NetRpc.Tcp.ReadDones

/-! # Which call a response belongs to

The client branch of `excute` message by message. The entry of a callback is
erased after the callback has returned, and the callback may register others
while it runs.
-/

namespace NetRpc.TcpConnection

/-- A callback that has been called, with the key of its entry. -/
structure Invocation (Callback : Type u) where
  msgId : Bytes
  done : Callback
  message : TinyPBProtocol
deriving DecidableEq

structure Dispatching (Callback : Type u) where
  readDones : Bytes → Option Callback
  /-- The decoded messages that the loop has not come to. -/
  result : List TinyPBProtocol
  /-- The key of the entry whose callback is running. -/
  running : Option Bytes
  invoked : List (Invocation Callback)

inductive DispatchEvent (Callback : Type u)
  | pushReadMessage (msgId : Bytes) (done : Callback)
  /-- `excute` is entered, and `decode` returns these messages. -/
  | excute (messages : List TinyPBProtocol)
  /-- The loop comes to the message and looks its id up. -/
  | message (message : TinyPBProtocol)
  /-- The callback returns and its entry is erased. -/
  | erase
deriving DecidableEq

namespace Dispatching

variable {Callback : Type u}

def initial : Dispatching Callback where
  readDones := fun _ => none
  result := []
  running := none
  invoked := []

/-- `map::insert` keeps an entry that is there already. -/
def pushReadMessage (state : Dispatching Callback) (msgId : Bytes) (done : Callback) :
    Dispatching Callback :=
  match state.readDones msgId with
  | some _ => state
  | none => { state with readDones := Function.update state.readDones msgId (some done) }

/-- `find`, and the call of the callback that it finds. -/
def lookUp (state : Dispatching Callback) (message : TinyPBProtocol)
    (rest : List TinyPBProtocol) : Dispatching Callback :=
  match state.readDones message.msgId with
  | some done =>
      { state with
        result := rest
        running := some message.msgId
        invoked := state.invoked ++ [⟨message.msgId, done, message⟩] }
  | none => { state with result := rest }

def step (state : Dispatching Callback) :
    DispatchEvent Callback → Option (Dispatching Callback)
  | .pushReadMessage msgId done => some (state.pushReadMessage msgId done)
  | .excute messages =>
      if state.result = [] ∧ state.running = none then
        some { state with result := messages }
      else
        none
  | .message message =>
      match state.running, state.result with
      | none, next :: rest => if next = message then some (state.lookUp message rest) else none
      | _, _ => none
  | .erase =>
      match state.running with
      | some msgId =>
          some { state with
            readDones := Function.update state.readDones msgId none
            running := none }
      | none => none

/-- The calls made for the entry under `msgId`. -/
def invocations (state : Dispatching Callback) (msgId : Bytes) : List (Invocation Callback) :=
  state.invoked.filter fun invocation => invocation.msgId = msgId

/-- The callback is registered and has not been called. -/
def Pending (state : Dispatching Callback) (msgId : Bytes) (done : Callback) : Prop :=
  state.readDones msgId = some done ∧ state.running ≠ some msgId

end Dispatching

def clientReads (Callback : Type u) :
    Transition.System (Dispatching Callback) (DispatchEvent Callback) where
  Initial state := state = .initial
  Step state event next := state.step event = some next

section Matching

variable {Callback : Type u}

/-- The ids that are registered, in order. -/
def registrations (events : List (DispatchEvent Callback)) : List Bytes :=
  events.filterMap fun event =>
    match event with
    | .pushReadMessage msgId _ => some msgId
    | _ => none

/-- What one event adds to the messages that bear a registered id. -/
def arrive (msgId : Bytes) (arrived : Option (List TinyPBProtocol)) :
    DispatchEvent Callback → Option (List TinyPBProtocol)
  | .pushReadMessage other _ => if other = msgId then some (arrived.getD []) else arrived
  | .message message =>
      if message.msgId = msgId then arrived.map (· ++ [message]) else arrived
  | _ => arrived

/-- The messages bearing the id that the loop has come to since the id was
registered, or `none` as long as it is not. -/
def arrivals (msgId : Bytes) (events : List (DispatchEvent Callback)) :
    Option (List TinyPBProtocol) :=
  events.foldl (arrive msgId) none

theorem arrivals_concat (msgId : Bytes) (events : List (DispatchEvent Callback))
    (event : DispatchEvent Callback) :
    arrivals msgId (events ++ [event]) = arrive msgId (arrivals msgId events) event := by
  rw [arrivals, List.foldl_append]
  rfl

theorem registrations_append (left right : List (DispatchEvent Callback)) :
    registrations (left ++ right) = registrations left ++ registrations right :=
  List.filterMap_append

theorem mem_registrations {events : List (DispatchEvent Callback)} {msgId : Bytes}
    {done : Callback} (registered : .pushReadMessage msgId done ∈ events) :
    msgId ∈ registrations events :=
  List.mem_filterMap.mpr ⟨.pushReadMessage msgId done, registered, rfl⟩

theorem arrivals_eq_none_iff (msgId : Bytes) (events : List (DispatchEvent Callback)) :
    arrivals msgId events = none ↔ msgId ∉ registrations events := by
  induction events using List.reverseRecOn with
  | nil => exact iff_of_true rfl (List.not_mem_nil)
  | append_singleton events event induction =>
      rw [arrivals_concat, registrations_append, List.mem_append, not_or, ← induction]
      cases event with
      | pushReadMessage other done =>
          by_cases same : other = msgId
          · simp [arrive, registrations, same]
          · simp [arrive, registrations, same, Ne.symm same]
      | message message =>
          by_cases same : message.msgId = msgId <;> simp [arrive, registrations, same]
      | excute messages => simp [arrive, registrations]
      | erase => simp [arrive, registrations]

/-- How far the call under an id has come. -/
inductive Matched (history : List (DispatchEvent Callback)) (state : Dispatching Callback)
    (msgId : Bytes) : Prop
  | unregistered (arrived : arrivals msgId history = none)
      (absent : state.readDones msgId = none) (idle : state.running ≠ some msgId)
      (silent : state.invocations msgId = [])
  | pending (done : Callback) (registered : .pushReadMessage msgId done ∈ history)
      (arrived : arrivals msgId history = some []) (pending : state.Pending msgId done)
      (silent : state.invocations msgId = [])
  | called (done : Callback) (registered : .pushReadMessage msgId done ∈ history)
      (message : TinyPBProtocol) (later : List TinyPBProtocol)
      (arrived : arrivals msgId history = some (message :: later))
      (taken : state.running = some msgId ∨ state.readDones msgId = none)
      (invoked : state.invocations msgId = [⟨msgId, done, message⟩])

variable {history : List (DispatchEvent Callback)} {state next : Dispatching Callback}
  {event : DispatchEvent Callback} {msgId : Bytes}

/-- An event that does not concern the id leaves its call as it is. -/
theorem Matched.frame (matched : Matched history state msgId)
    (arrived : arrivals msgId (history ++ [event]) = arrivals msgId history)
    (readDones : next.readDones msgId = state.readDones msgId)
    (running : next.running = some msgId ↔ state.running = some msgId)
    (invocations : next.invocations msgId = state.invocations msgId) :
    Matched (history ++ [event]) next msgId := by
  cases matched with
  | unregistered none absent idle silent =>
      exact .unregistered (arrived.trans none) (readDones.trans absent)
        (fun isRunning => idle (running.mp isRunning)) (invocations.trans silent)
  | pending done registered none pending silent =>
      exact .pending done (List.mem_append_left _ registered) (arrived.trans none)
        ⟨readDones.trans pending.1, fun isRunning => pending.2 (running.mp isRunning)⟩
        (invocations.trans silent)
  | called done registered message later some taken invoked =>
      exact .called done (List.mem_append_left _ registered) message later (arrived.trans some)
        (taken.imp running.mpr readDones.trans) (invocations.trans invoked)

theorem pushReadMessage_matched (matched : Matched history state msgId) {other : Bytes}
    {done : Callback} (fresh : other ∉ registrations history) :
    Matched (history ++ [.pushReadMessage other done]) (state.pushReadMessage other done)
      msgId := by
  by_cases same : other = msgId
  · rw [same] at fresh ⊢
    have none := (arrivals_eq_none_iff msgId history).mpr fresh
    cases matched with
    | unregistered _ absent idle silent =>
        have inserted : state.pushReadMessage msgId done =
            { state with readDones := Function.update state.readDones msgId (some done) } := by
          rw [Dispatching.pushReadMessage, absent]
        rw [inserted]
        refine .pending done (List.mem_append_right _ (List.mem_singleton_self _)) ?_
          ⟨Function.update_self _ _ _, idle⟩ silent
        rw [arrivals_concat, none]
        simp [arrive]
    | pending _ _ arrived => cases none.symm.trans arrived
    | called _ _ _ _ arrived => cases none.symm.trans arrived
  · have different := Ne.symm same
    refine matched.frame ?_ ?_ ?_ ?_
    · rw [arrivals_concat]
      simp [arrive, same]
    · rw [Dispatching.pushReadMessage]
      split
      · rfl
      · exact Function.update_of_ne different _ _
    · rw [Dispatching.pushReadMessage]
      split <;> rfl
    · rw [Dispatching.pushReadMessage]
      split <;> rfl

theorem lookUp_matched (matched : Matched history state msgId) (idle : state.running = none)
    (message : TinyPBProtocol) (rest : List TinyPBProtocol) :
    Matched (history ++ [.message message]) (state.lookUp message rest) msgId := by
  by_cases same : message.msgId = msgId
  · have arrived : arrivals msgId (history ++ [.message message]) =
        (arrivals msgId history).map (· ++ [message]) := by
      rw [arrivals_concat]
      simp [arrive, same]
    cases matched with
    | unregistered none absent notRunning silent =>
        have ignored : state.lookUp message rest = { state with result := rest } := by
          rw [Dispatching.lookUp, same, absent]
        rw [ignored]
        refine .unregistered ?_ absent notRunning silent
        rw [arrived, none]
        rfl
    | pending done registered none pending silent =>
        have found : state.lookUp message rest =
            { state with
              result := rest
              running := some msgId
              invoked := state.invoked ++ [⟨msgId, done, message⟩] } := by
          rw [Dispatching.lookUp, same, pending.1]
        rw [found]
        refine .called done (List.mem_append_left _ registered) message [] ?_ (.inl rfl) ?_
        · rw [arrived, none]
          rfl
        · rw [Dispatching.invocations, List.filter_append]
          change state.invocations msgId ++ _ = _
          rw [silent]
          simp
    | called done registered first later some taken invoked =>
        have absent : state.readDones msgId = none := by
          rcases taken with running | absent
          · cases idle.symm.trans running
          · exact absent
        have ignored : state.lookUp message rest = { state with result := rest } := by
          rw [Dispatching.lookUp, same, absent]
        rw [ignored]
        refine .called done (List.mem_append_left _ registered) first (later ++ [message]) ?_
          (.inr absent) invoked
        rw [arrived, some]
        rfl
  · refine matched.frame ?_ ?_ ?_ ?_
    · rw [arrivals_concat]
      simp [arrive, same]
    · rw [Dispatching.lookUp]
      split <;> rfl
    · rw [Dispatching.lookUp, idle]
      split <;> simp [same]
    · rw [Dispatching.lookUp]
      split
      · simp [Dispatching.invocations, same]
      · rfl

theorem erase_matched (matched : Matched history state msgId) {finished : Bytes}
    (running : state.running = some finished) :
    Matched (history ++ [.erase])
      { state with
        readDones := Function.update state.readDones finished none
        running := none } msgId := by
  have arrived : arrivals msgId (history ++ [.erase]) = arrivals msgId history :=
    arrivals_concat _ _ _
  by_cases same : finished = msgId
  · rw [same] at running ⊢
    cases matched with
    | unregistered _ _ idle => exact absurd running idle
    | pending _ _ _ pending => exact absurd running pending.2
    | called done registered message later some taken invoked =>
        exact .called done (List.mem_append_left _ registered) message later
          (arrived.trans some) (.inr (Function.update_self _ _ _)) invoked
  · refine matched.frame arrived ?_ ?_ rfl
    · exact Function.update_of_ne (Ne.symm same) _ _
    · rw [running]
      exact iff_of_false (fun same => nomatch same) fun equal => same (Option.some.inj equal)

theorem matched_step (matched : ∀ msgId, Matched history state msgId)
    (distinct : (registrations (history ++ [event])).Nodup)
    (step : state.step event = some next) (msgId : Bytes) :
    Matched (history ++ [event]) next msgId := by
  cases event with
  | pushReadMessage other done =>
      cases step
      rw [registrations_append] at distinct
      have fresh : other ∉ registrations history := fun member =>
        List.disjoint_of_nodup_append distinct member (List.mem_singleton_self _)
      exact pushReadMessage_matched (matched msgId) fresh
  | excute messages =>
      simp only [Dispatching.step, Option.ite_none_right_eq_some, Option.some.injEq] at step
      rcases step with ⟨_, rfl⟩
      exact (matched msgId).frame (arrivals_concat _ _ _) rfl Iff.rfl rfl
  | message message =>
      rw [Dispatching.step] at step
      split at step
      · rename_i idle loop
        simp only [Option.ite_none_right_eq_some, Option.some.injEq] at step
        rcases step with ⟨_, rfl⟩
        exact lookUp_matched (matched msgId) idle message _
      · cases step
  | erase =>
      rw [Dispatching.step] at step
      split at step
      · rename_i finished running
        cases step
        exact erase_matched (matched msgId) running
      · cases step

theorem matched_run {events : List (DispatchEvent Callback)} {final : Dispatching Callback}
    (run : (clientReads Callback).Run .initial events final)
    (distinct : (registrations events).Nodup) (msgId : Bytes) :
    Matched events final msgId := by
  have preserved : ∀ history current event next,
      ((registrations history).Nodup → ∀ msgId, Matched history current msgId) →
      (clientReads Callback).Step current event next →
      (registrations (history ++ [event])).Nodup →
        ∀ msgId, Matched (history ++ [event]) next msgId := by
    intro history current event next matched step distinct
    refine matched_step (matched ?_) distinct step
    rw [registrations_append] at distinct
    exact distinct.of_append_left
  exact run.history _ preserved
    (fun _ _ => .unregistered rfl rfl (fun running => nomatch running) rfl) distinct msgId

theorem registered_unique {events : List (DispatchEvent Callback)}
    (distinct : (registrations events).Nodup) {done other : Callback}
    (registered : .pushReadMessage msgId done ∈ events)
    (registeredToo : .pushReadMessage msgId other ∈ events) : done = other := by
  induction events with
  | nil => cases registered
  | cons event rest induction =>
      have apart := distinct
      rw [← List.singleton_append, registrations_append] at apart
      have disjoint := List.disjoint_of_nodup_append apart
      rcases List.mem_cons.mp registered with rfl | inRest
      · rcases List.mem_cons.mp registeredToo with same | inRestToo
        · cases same
          rfl
        · exact absurd (mem_registrations inRestToo) (disjoint (List.mem_singleton_self _))
      · rcases List.mem_cons.mp registeredToo with rfl | inRestToo
        · exact absurd (mem_registrations inRest) (disjoint (List.mem_singleton_self _))
        · exact induction apart.of_append_right inRest inRestToo

theorem arrivals_bear {events : List (DispatchEvent Callback)} {messages : List TinyPBProtocol}
    (arrived : arrivals msgId events = some messages) :
    ∀ message ∈ messages, message.msgId = msgId := by
  induction events using List.reverseRecOn generalizing messages with
  | nil => cases arrived
  | append_singleton events event induction =>
      rw [arrivals_concat] at arrived
      cases event with
      | pushReadMessage other done =>
          rw [arrive] at arrived
          split at arrived
          · cases before : arrivals msgId events with
            | none =>
                rw [before] at arrived
                cases arrived
                intro message member
                cases member
            | some earlier =>
                rw [before] at arrived
                cases arrived
                exact induction before
          · exact induction arrived
      | message message =>
          rw [arrive] at arrived
          split at arrived
          · rename_i bears
            rcases Option.map_eq_some_iff.mp arrived with ⟨earlier, before, rfl⟩
            intro other member
            rcases List.mem_append.mp member with inEarlier | last
            · exact induction before other inEarlier
            · rw [List.mem_singleton.mp last]
              exact bears
          · exact induction arrived
      | excute messages => exact induction arrived
      | erase => exact induction arrived

/-- The callback registered under an id is called for the first message that
bears the id and comes after its registration, and never again. Until then it
is pending. -/
theorem responses_matched {events : List (DispatchEvent Callback)}
    {final : Dispatching Callback} (run : (clientReads Callback).Run .initial events final)
    (distinct : (registrations events).Nodup) {msgId : Bytes} {done : Callback}
    (registered : .pushReadMessage msgId done ∈ events) :
    ∃ messages, arrivals msgId events = some messages ∧
      (∀ message ∈ messages, message.msgId = msgId) ∧
      final.invocations msgId = (messages.take 1).map (Invocation.mk msgId done) ∧
      (final.Pending msgId done ↔ messages = []) := by
  cases matched_run run distinct msgId with
  | unregistered none =>
      have unknown := (arrivals_eq_none_iff msgId events).mp none
      exact absurd (mem_registrations registered) unknown
  | pending other registeredToo arrived pending silent =>
      cases registered_unique distinct registered registeredToo
      exact ⟨[], arrived, arrivals_bear arrived, silent, iff_of_true pending rfl⟩
  | called other registeredToo message later arrived taken invoked =>
      cases registered_unique distinct registered registeredToo
      refine ⟨message :: later, arrived, arrivals_bear arrived, invoked, ?_⟩
      refine iff_of_false (fun pending => ?_) (List.cons_ne_nil _ _)
      rcases taken with running | absent
      · exact pending.2 running
      · cases pending.1.symm.trans absent

end Matching

/-! ## A whole batch -/

/-- The callback has returned and its entry is erased. -/
def Dispatching.erased {Callback : Type u} (state : Dispatching Callback) (msgId : Bytes) :
    Dispatching Callback :=
  { state with
    readDones := Function.update state.readDones msgId none
    running := none }

/-- The loop comes to a message. -/
theorem message_step {Callback : Type u} {state : Dispatching Callback}
    {message : TinyPBProtocol} {messages : List TinyPBProtocol} (idle : state.running = none)
    (result : state.result = message :: messages) :
    (clientReads Callback).Step state (.message message) (state.lookUp message messages) := by
  change state.step _ = _
  simp [Dispatching.step, idle, result]

/-- Where the callbacks register nothing, the loop does to the entries, and to
what the callbacks work on, what `excute` does in one step. -/
theorem batch_delivers {World : Type u} (messages : List TinyPBProtocol)
    {reader : Reader World} {world : World}
    {state : Dispatching (TinyPBProtocol → World → World)}
    (same : state.readDones = reader.readDones) (idle : state.running = none)
    (result : state.result = messages) :
    ∃ events final called, (clientReads _).Run state events final ∧ final.result = [] ∧
      final.running = none ∧ final.invoked = state.invoked ++ called ∧
      final.readDones = (messages.foldl Reader.deliver (reader, world)).1.readDones ∧
      called.foldl (fun world invocation => invocation.done invocation.message world) world =
        (messages.foldl Reader.deliver (reader, world)).2 := by
  induction messages generalizing reader world state with
  | nil => exact ⟨[], state, [], .nil state, result, idle, (List.append_nil _).symm, same, rfl⟩
  | cons message messages induction =>
      have step := message_step idle result
      cases entry : reader.readDones message.msgId with
      | none =>
          have ignored : state.lookUp message messages = { state with result := messages } := by
            rw [Dispatching.lookUp, same, entry]
          have unchanged : Reader.deliver (reader, world) message = (reader, world) := by
            simp [Reader.deliver, entry]
          rw [ignored] at step
          rcases @induction reader world { state with result := messages } same idle rfl with
            ⟨events, final, called, run, rest⟩
          rw [List.foldl_cons, unchanged]
          exact ⟨_, final, called, .cons step run, rest⟩
      | some done =>
          have found : state.lookUp message messages = { state with
              result := messages
              running := some message.msgId
              invoked := state.invoked ++ [⟨message.msgId, done, message⟩] } := by
            rw [Dispatching.lookUp, same, entry]
          have erase : (clientReads _).Step (state.lookUp message messages) .erase
              ((state.lookUp message messages).erased message.msgId) := by
            rw [found]
            rfl
          have delivered : Reader.deliver (reader, world) message = ({ reader with
              readDones := Function.update reader.readDones message.msgId none },
                done message world) := by
            simp [Reader.deliver, entry]
          have sameLeft : ((state.lookUp message messages).erased message.msgId).readDones =
              Function.update reader.readDones message.msgId none := by
            rw [found, ← same]
            rfl
          have resultLeft : ((state.lookUp message messages).erased message.msgId).result =
              messages := by
            rw [found]
            rfl
          rcases @induction { reader with
              readDones := Function.update reader.readDones message.msgId none }
              (done message world) _ sameLeft rfl resultLeft with
            ⟨events, final, called, run, drained, idleToo, invoked, entries, worlds⟩
          rw [List.foldl_cons, delivered]
          refine ⟨_, final, ⟨message.msgId, done, message⟩ :: called,
            .cons step (.cons erase run), drained, idleToo, ?_, entries, ?_⟩
          · rw [invoked, Dispatching.erased, found, List.append_assoc]
            rfl
          · rw [List.foldl_cons]
            exact worlds

/-! ## Two calls -/

/-- The answers to two calls arrive in the other order, one of them twice,
between answers that nobody waits for. -/
def crossedAnswers : List (DispatchEvent Nat) :=
  let answer (msgId : Bytes) : TinyPBProtocol := { msgId }
  [.pushReadMessage [1] 10, .pushReadMessage [2] 20, .excute [answer [2], answer [3], answer [2]],
    .message (answer [2]), .pushReadMessage [3] 30, .erase, .message (answer [3]), .erase,
    .message (answer [2]), .excute [answer [4]], .message (answer [4])]

theorem responses_matched_crossed :
    ∃ final messages, (clientReads Nat).Run .initial crossedAnswers final ∧
      arrivals [2] crossedAnswers = some messages ∧
      (∀ message ∈ messages, message.msgId = [2]) ∧
      final.invocations [2] = (messages.take 1).map (Invocation.mk [2] 20) ∧
      (final.Pending [2] 20 ↔ messages = []) := by
  have agrees : ∀ current event next, Dispatching.step current event = some next →
      (clientReads Nat).Step current event next := fun _ _ _ step => step
  have computed : ((crossedAnswers.foldlM Dispatching.step .initial).map fun final =>
      final.invoked.length) = some 2 := by decide +kernel
  rcases Transition.System.Run.of_observed agrees computed with ⟨final, run, _⟩
  rcases responses_matched run (by decide +kernel)
      (show .pushReadMessage [2] 20 ∈ crossedAnswers by decide +kernel) with ⟨messages, matched⟩
  exact ⟨final, messages, run, matched⟩

end NetRpc.TcpConnection
