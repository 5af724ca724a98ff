import NetRpc.EventLoop.FdEvent
import NetRpc.Foundation.Transition

/-! # The descriptor table

`m_fd_group` holds pointers to FdEvents, which other threads keep. It only ever
grows at its end, and entry `i` is made for descriptor `i`. So a descriptor
leads to one and the same FdEvent as long as the process runs.
-/

namespace NetRpc

/-- The FdEvents that were ever made, each at its address, and `m_fd_group`. -/
structure FdTable where
  objects : List FdEvent := []
  group : List Nat := []
deriving DecidableEq

namespace FdTable

/-- `m_fd_group.push_back(new FdEvent(i))` -/
def push (table : FdTable) (i : Nat) : FdTable where
  objects := table.objects ++ [{ fd := i }]
  group := table.group ++ [table.objects.length]

def new (size : Nat) : FdTable :=
  (List.range size).foldl push {}

/-- The loop that pushes the entries from the old size up to the new one. -/
def grow (table : FdTable) (size : Int) : FdTable :=
  (List.range' table.group.length (size.toNat - table.group.length)).foldl push table

/-- The pointer with the table behind the call. The result is `none` where
`m_fd_group` is read outside of its bounds. -/
def getFdEvent (table : FdTable) (fd : Int) : Option (Nat × FdTable) :=
  if 0 ≤ fd ∧ fd < table.group.length then
    table.group[fd.toNat]?.map fun pointer => (pointer, table)
  else do
    let size ← FdEventGroup.newSize fd
    if 0 ≤ fd then
      (table.grow size).group[fd.toNat]?.map fun pointer => (pointer, table.grow size)
    else none

/-- An FdEvent that is made elsewhere. -/
def make (table : FdTable) (fd : Int) : FdTable :=
  { table with objects := table.objects ++ [{ fd }] }

/-- Entry `i` points to an FdEvent of descriptor `i`. -/
def Numbered (table : FdTable) : Prop :=
  ∀ i pointer : Nat, table.group[i]? = some pointer →
    table.objects[pointer]?.map FdEvent.fd = some (i : Int)

/-- No entry has changed, and every FdEvent still has its descriptor. -/
structure Extends (next table : FdTable) : Prop where
  entries : ∀ i pointer : Nat, table.group[i]? = some pointer → next.group[i]? = some pointer
  objects : ∀ (pointer : Nat) (fd : Int), table.objects[pointer]?.map FdEvent.fd = some fd →
    next.objects[pointer]?.map FdEvent.fd = some fd

variable {table next : FdTable}

theorem Extends.refl (table : FdTable) : table.Extends table where
  entries _ _ := id
  objects _ _ := id

theorem Extends.trans {last : FdTable} (later : last.Extends next) (first : next.Extends table) :
    last.Extends table where
  entries i pointer there := later.entries i pointer (first.entries i pointer there)
  objects pointer fd there := later.objects pointer fd (first.objects pointer fd there)

theorem Extends.length_le (further : next.Extends table) :
    table.group.length ≤ next.group.length := by
  by_contra shorter
  have inside : next.group.length < table.group.length := Nat.lt_of_not_le shorter
  have kept := further.entries next.group.length _ (List.getElem?_eq_getElem inside)
  rw [List.getElem?_eq_none (Nat.le_refl _)] at kept
  cases kept

/-- Making another FdEvent does not touch the ones there are. -/
theorem getElem?_append_of_some {items others : List α} {i : Nat} {item : α}
    (there : items[i]? = some item) : (items ++ others)[i]? = some item := by
  rw [List.getElem?_append_left (List.getElem?_eq_some_iff.mp there).1, there]

theorem fd_append {objects : List FdEvent} (event : FdEvent) {pointer : Nat} {fd : Int}
    (there : objects[pointer]?.map FdEvent.fd = some fd) :
    (objects ++ [event])[pointer]?.map FdEvent.fd = some fd := by
  rcases Option.map_eq_some_iff.mp there with ⟨found, object, same⟩
  rw [getElem?_append_of_some object, Option.map_some, same]

/-- With the same entries, the FdEvents are numbered as before. -/
theorem Extends.numbered (further : next.Extends table) (numbered : table.Numbered)
    (same : next.group = table.group) : next.Numbered := by
  intro i pointer entry
  rw [same] at entry
  exact further.objects pointer i (numbered i pointer entry)

theorem make_extends (table : FdTable) (fd : Int) : (table.make fd).Extends table where
  entries _ _ := id
  objects _ _ there := fd_append _ there

theorem modify_extends (table : FdTable) (place : Nat) {change : FdEvent → FdEvent}
    (keeps : ∀ event, (change event).fd = event.fd) :
    ({ table with objects := table.objects.modify place change }).Extends table where
  entries _ _ := id
  objects := by
    intro pointer fd there
    rcases Option.map_eq_some_iff.mp there with ⟨event, object, same⟩
    rw [List.getElem?_modify, object]
    by_cases changed : place = pointer
    · simp [changed, keeps, same]
    · simp [changed, same]

/-! ## Growing -/

theorem push_extends (table : FdTable) (i : Nat) : (table.push i).Extends table where
  entries _ _ there := getElem?_append_of_some there
  objects _ _ there := fd_append _ there

theorem push_length (table : FdTable) (i : Nat) :
    (table.push i).group.length = table.group.length + 1 := by
  rw [push, List.length_append, List.length_singleton]

theorem Numbered.push (numbered : table.Numbered) : (table.push table.group.length).Numbered := by
  intro i pointer entry
  rw [FdTable.push, List.getElem?_append] at entry
  split at entry
  case isTrue => exact fd_append _ (numbered i pointer entry)
  case isFalse behind =>
    rw [List.getElem?_singleton, Option.ite_none_right_eq_some] at entry
    rcases entry with ⟨last, made⟩
    have isLast : i = table.group.length := by omega
    cases made
    rw [FdTable.push, isLast, List.getElem?_concat_length]
    rfl

theorem grow_by (count : Nat) (numbered : table.Numbered) :
    let grown := (List.range' table.group.length count).foldl push table
    grown.Numbered ∧ grown.Extends table ∧ grown.group.length = table.group.length + count := by
  induction count generalizing table with
  | zero => exact ⟨numbered, .refl table, rfl⟩
  | succ count induction =>
      rcases induction numbered.push with ⟨grownNumbered, further, total⟩
      rw [push_length] at grownNumbered further total
      rw [List.range'_succ, List.foldl_cons]
      exact ⟨grownNumbered, further.trans (push_extends table _), by omega⟩

theorem new_numbered (size : Nat) : (new size).Numbered ∧ (new size).group.length = size := by
  have empty : Numbered {} := by
    intro i pointer entry
    cases entry
  have grown := grow_by size empty
  rw [new, List.range_eq_range']
  exact ⟨grown.1, grown.2.2.trans (Nat.zero_add size)⟩

/-! ## Looking up -/

/-- An index that is neither negative nor so large that half of it again leaves the
range of an `int` is inside the table, whatever the size was before. -/
theorem getFdEvent_spec (numbered : table.Numbered) (sized : 2 ≤ table.group.length) {fd : Int}
    (nonneg : 0 ≤ fd) (bounded : fd < 2 ^ 30) :
    ∃ pointer next, table.getFdEvent fd = some (pointer, next) ∧ next.Numbered ∧
      next.Extends table ∧ next.group[fd.toNat]? = some pointer := by
  rw [getFdEvent]
  split
  case isTrue inside =>
    have bound : fd.toNat < table.group.length := by omega
    rw [List.getElem?_eq_getElem bound]
    exact ⟨_, table, rfl, numbered, .refl table, List.getElem?_eq_getElem bound⟩
  case isFalse outside =>
    have beyond : (table.group.length : Int) ≤ fd :=
      Int.not_lt.mp fun inside => outside ⟨nonneg, inside⟩
    have size : FdEventGroup.newSize fd = some (fd * 3 / 2) := by
      rw [FdEventGroup.newSize_of_nonneg nonneg, if_pos (by omega)]
    rcases grow_by ((fd * 3 / 2).toNat - table.group.length) numbered with
      ⟨grownNumbered, further, length⟩
    have bound : fd.toNat < (table.grow (fd * 3 / 2)).group.length := by
      rw [grow, length]
      omega
    rw [size, Option.bind_eq_bind, Option.bind_some, List.getElem?_eq_getElem bound]
    exact ⟨_, _, rfl, grownNumbered, further, List.getElem?_eq_getElem bound⟩

/-! ## The table as a group of events -/

/-- What the FdEvents listen to that the entries point to. -/
def view (table : FdTable) : FdEventGroup where
  events := table.group.map fun pointer =>
    (table.objects[pointer]?.map FdEvent.listenEvents).getD {}

theorem view_push (numbered : table.Numbered) (i : Nat) :
    (table.push i).view.events = table.view.events ++ [({} : EpollEvents)] := by
  have same : ∀ pointer ∈ table.group,
      ((table.objects ++ [{ fd := (i : Int) }])[pointer]?.map FdEvent.listenEvents).getD {} =
        (table.objects[pointer]?.map FdEvent.listenEvents).getD {} := by
    intro pointer member
    rcases List.mem_iff_getElem?.mp member with ⟨place, entry⟩
    rcases Option.map_eq_some_iff.mp (numbered place pointer entry) with ⟨event, object, _⟩
    rw [object, getElem?_append_of_some object]
  rw [view, push, List.map_append, List.map_congr_left same, List.map_singleton,
    List.getElem?_concat_length]
  rfl

theorem view_foldl_push (count : Nat) (numbered : table.Numbered) :
    ((List.range' table.group.length count).foldl push table).view.events =
      table.view.events ++ List.replicate count ({} : EpollEvents) := by
  induction count generalizing table with
  | zero => exact (List.append_nil _).symm
  | succ count induction =>
      have rest := induction numbered.push
      rw [push_length, view_push numbered, List.append_assoc] at rest
      rw [List.range'_succ, List.foldl_cons, rest, List.replicate_succ]
      rfl

theorem view_length (table : FdTable) : table.view.events.length = table.group.length := by
  rw [view, List.length_map]

theorem view_grow (size : Int) (numbered : table.Numbered) :
    (table.grow size).view = table.view.grow size := by
  apply congrArg FdEventGroup.mk
  rw [view_length]
  exact view_foldl_push _ numbered

/-- Reading an entry. -/
theorem map_view_getElem? (table : FdTable) {fd : Int} (nonneg : 0 ≤ fd) :
    (table.group[fd.toNat]?.map fun pointer => (pointer, table)).map
        (fun answer => answer.2.view) =
      if fd < table.view.events.length then some table.view else none := by
  rw [view_length]
  split
  case isTrue inside =>
    have bound : fd.toNat < table.group.length := by omega
    rw [List.getElem?_eq_getElem bound]
    rfl
  case isFalse outside =>
    have bound : table.group.length ≤ fd.toNat := by omega
    rw [List.getElem?_eq_none bound]
    rfl

/-- Seen as a group of events, the table is looked up as the group is. -/
theorem view_getFdEvent (fd : Int) (numbered : table.Numbered) :
    (table.getFdEvent fd).map (fun answer => answer.2.view) = table.view.getFdEvent fd := by
  have grown := fun size => view_grow size numbered
  rw [getFdEvent, FdEventGroup.getFdEvent, ← view_length]
  by_cases nonneg : 0 ≤ fd
  · by_cases inside : fd < (table.view.events.length : Int)
    · rw [if_pos ⟨nonneg, inside⟩, if_pos ⟨nonneg, inside⟩, map_view_getElem? table nonneg,
        if_pos inside]
    · rw [if_neg (fun both => inside both.2), if_neg (fun both => inside both.2)]
      cases FdEventGroup.newSize fd with
      | none => rfl
      | some size =>
          simp only [Option.bind_eq_bind, Option.bind_some, nonneg, true_and, if_true,
            map_view_getElem? (table.grow size) nonneg, grown]
  · rw [if_neg (fun both => nonneg both.1), if_neg (fun both => nonneg both.1)]
    cases FdEventGroup.newSize fd with
    | none => rfl
    | some size =>
        simp only [Option.bind_eq_bind, Option.bind_some, nonneg, false_and, if_false,
          Option.map_none]

end FdTable

/-- The table with the descriptors that were asked for and the pointers returned,
and whether it was read outside of its bounds. -/
structure FdLookups where
  table : FdTable := .new 128
  answers : List (Int × Nat) := []
  readsOutside : Bool := false

namespace FdLookups

/-- What happens to the FdEvents of the process. -/
inductive Event
  | getFdEvent (fd : { fd : Int // 0 ≤ fd ∧ fd < 2 ^ 30 })
  | listen (pointer : Nat) (trigger : TriggerEvent)
  | cancle (pointer : Nat) (trigger : TriggerEvent)
  | make (fd : Int)

def handle (lookups : FdLookups) : Event → FdLookups
  | .getFdEvent fd =>
      match lookups.table.getFdEvent fd.val with
      | some (pointer, table) =>
          { lookups with table, answers := lookups.answers ++ [(fd.val, pointer)] }
      | none => { lookups with readsOutside := true }
  | .listen pointer trigger =>
      { lookups with
        table.objects := lookups.table.objects.modify pointer fun event => event.listen trigger }
  | .cancle pointer trigger =>
      { lookups with
        table.objects := lookups.table.objects.modify pointer fun event => event.cancle trigger }
  | .make fd => { lookups with table := lookups.table.make fd }

def system : Transition.System FdLookups Event where
  Initial lookups := lookups = {}
  Step current event next := current.handle event = next

/-- The table was never read outside of its bounds. Every pointer that was returned
leads to an FdEvent of its descriptor, and there is one pointer for each descriptor. -/
structure Stable (lookups : FdLookups) : Prop where
  inside : lookups.readsOutside = false
  fd : ∀ answer ∈ lookups.answers,
    lookups.table.objects[answer.2]?.map FdEvent.fd = some answer.1
  same : ∀ answer ∈ lookups.answers, ∀ other ∈ lookups.answers,
    answer.1 = other.1 → answer.2 = other.2

/-- Each call has put its descriptor behind the answers, with the pointer of an entry
that leads to an FdEvent of this descriptor. Nothing else is an answer. -/
def Answers (current : FdLookups) (event : Event) (next : FdLookups) : Prop :=
  match event with
  | .getFdEvent fd => ∃ pointer, next.answers = current.answers ++ [(fd.val, pointer)] ∧
      next.table.group[fd.val.toNat]? = some pointer ∧
      next.table.objects[pointer]?.map FdEvent.fd = some fd.val
  | _ => next.answers = current.answers

/-- Every pointer that was returned is still in its entry. -/
structure Kept (lookups : FdLookups) : Prop where
  inside : lookups.readsOutside = false
  numbered : lookups.table.Numbered
  sized : 2 ≤ lookups.table.group.length
  answers : ∀ answer ∈ lookups.answers, 0 ≤ answer.1 ∧
    lookups.table.group[answer.1.toNat]? = some answer.2

variable {lookups : FdLookups}

theorem Kept.stable (kept : lookups.Kept) : lookups.Stable where
  inside := kept.inside
  fd := by
    intro answer member
    rcases kept.answers answer member with ⟨nonneg, entry⟩
    rw [kept.numbered _ _ entry, Int.toNat_of_nonneg nonneg]
  same := by
    intro answer member other otherMember sameFd
    have entry := (kept.answers answer member).2
    rw [sameFd, (kept.answers other otherMember).2] at entry
    exact (Option.some.inj entry).symm

/-- What leaves the entries alone and the descriptors as they are. -/
theorem Kept.of_extends {table : FdTable} (kept : lookups.Kept) (numbered : table.Numbered)
    (further : table.Extends lookups.table) : ({ lookups with table }).Kept where
  inside := kept.inside
  numbered := numbered
  sized := Nat.le_trans kept.sized further.length_le
  answers answer member :=
    ⟨(kept.answers answer member).1, further.entries _ _ (kept.answers answer member).2⟩

theorem Kept.getFdEvent (kept : lookups.Kept) (fd : { fd : Int // 0 ≤ fd ∧ fd < 2 ^ 30 }) :
    ∃ pointer table, lookups.handle (.getFdEvent fd) =
        { lookups with table, answers := lookups.answers ++ [(fd.val, pointer)] } ∧
      table.Numbered ∧ table.Extends lookups.table ∧
      table.group[fd.val.toNat]? = some pointer := by
  rcases FdTable.getFdEvent_spec kept.numbered kept.sized fd.property.1 fd.property.2 with
    ⟨pointer, table, found, numbered, further, entry⟩
  refine ⟨pointer, table, ?_, numbered, further, entry⟩
  rw [FdLookups.handle, found]

theorem Kept.answers_handle (kept : lookups.Kept) (event : Event) :
    lookups.Answers event (lookups.handle event) := by
  cases event with
  | getFdEvent fd =>
      rcases kept.getFdEvent fd with ⟨pointer, table, handled, numbered, _, entry⟩
      have descriptor := numbered _ _ entry
      rw [Int.toNat_of_nonneg fd.property.1] at descriptor
      rw [handled]
      exact ⟨pointer, rfl, entry, descriptor⟩
  | listen pointer trigger => exact rfl
  | cancle pointer trigger => exact rfl
  | make fd => exact rfl

theorem Kept.handle (kept : lookups.Kept) (event : Event) : (lookups.handle event).Kept := by
  cases event with
  | getFdEvent fd =>
      rcases kept.getFdEvent fd with ⟨pointer, table, handled, numbered, further, entry⟩
      have grown := kept.of_extends numbered further
      rw [handled]
      refine { grown with answers := ?_ }
      intro answer member
      rcases List.mem_append.mp member with before | now
      · exact grown.answers answer before
      · rw [List.mem_singleton.mp now]
        exact ⟨fd.property.1, entry⟩
  | listen pointer trigger =>
      have further := FdTable.modify_extends lookups.table pointer
        fun event => event.listen_fd trigger
      exact kept.of_extends (further.numbered kept.numbered rfl) further
  | cancle pointer trigger =>
      have further := FdTable.modify_extends lookups.table pointer
        fun event => event.cancle_fd trigger
      exact kept.of_extends (further.numbered kept.numbered rfl) further
  | make fd =>
      have further := FdTable.make_extends lookups.table fd
      exact kept.of_extends (further.numbered kept.numbered rfl) further

theorem kept_initial : ({} : FdLookups).Kept where
  inside := rfl
  numbered := (FdTable.new_numbered 128).1
  sized := by
    rw [(FdTable.new_numbered 128).2]
    omega
  answers := by
    intro answer member
    cases member

/-- Each lookup answers with an FdEvent of its descriptor, and with the same one as
every other lookup of this descriptor, whatever happens before, between and after. -/
theorem always_stable (events : List Event) :
    system.Always Stable {} events ∧ system.EachStep Answers {} events := by
  have preserved : ∀ current event next, Kept current → system.Step current event next →
      Kept next := by
    intro current event next kept step
    cases step
    exact kept.handle event
  constructor
  · intro earlier lookups _ run
    exact (run.preserves Kept preserved kept_initial).stable
  · intro earlier current event next _ run step
    cases step
    exact (run.preserves Kept preserved kept_initial).answers_handle event

end FdLookups

end NetRpc
