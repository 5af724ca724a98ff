import Mathlib.Data.List.Basic

/-! # Items inside a storage

Positions, windows and overwriting in a flat storage. A storage is a list; a
window is the part of it between two indices.
-/

namespace NetRpc

/-- `items` stand in `storage` from position `index` on. -/
def OccursAt (storage : List α) (index : Nat) (items : List α) : Prop :=
  items <+: storage.drop index

/-- The part of `storage` from `lower` up to, but excluding, `upper`. -/
def window (storage : List α) (lower upper : Nat) : List α :=
  (storage.drop lower).take (upper - lower)

/-- Replace the items of `storage` from position `index` on by `items`. -/
def overwrite (storage : List α) (index : Nat) (items : List α) : List α :=
  storage.take index ++ items ++ storage.drop (index + items.length)

namespace OccursAt

variable {storage items : List α} {index : Nat}

theorem take_eq (occurs : OccursAt storage index items) :
    (storage.drop index).take items.length = items :=
  (List.prefix_iff_eq_take.mp occurs).symm

theorem append_iff {left right : List α} :
    OccursAt storage index (left ++ right) ↔
      OccursAt storage index left ∧
        OccursAt storage (index + left.length) right := by
  rw [OccursAt]
  constructor
  · rintro ⟨rest, equal⟩
    have dropped : storage.drop (index + left.length) = right ++ rest := by
      rw [← List.drop_drop, ← equal, List.append_assoc, List.drop_left]
    exact ⟨⟨right ++ rest, by rw [← equal, List.append_assoc]⟩,
      ⟨rest, dropped.symm⟩⟩
  · rintro ⟨⟨afterLeft, leftEqual⟩, ⟨rest, rightEqual⟩⟩
    refine ⟨rest, ?_⟩
    rw [← List.drop_drop, ← leftEqual, List.drop_left] at rightEqual
    rw [List.append_assoc, rightEqual, leftEqual]

theorem cons_iff {head : α} {tail : List α} :
    OccursAt storage index (head :: tail) ↔
      storage[index]? = some head ∧ OccursAt storage (index + 1) tail := by
  rw [← List.singleton_append, append_iff]
  apply and_congr_left
  intro _
  rw [OccursAt, ← List.head?_drop]
  cases storage.drop index with
  | nil => simp
  | cons first rest => simp [List.cons_prefix_cons, eq_comm]

theorem getD_eq {head fallback : α} {tail : List α}
    (occurs : OccursAt storage index (head :: tail)) :
    storage.getD index fallback = head := by
  rw [List.getD_eq_getElem?_getD, (cons_iff.mp occurs).1]
  rfl

/-- Looking into the storage at one of the items finds the item. -/
theorem getD_add (occurs : OccursAt storage index items) {offset : Nat}
    (inside : offset < items.length) (fallback : α) :
    storage.getD (index + offset) fallback = items.getD offset fallback := by
  rcases occurs with ⟨rest, equal⟩
  have found : (storage.drop index)[offset]? = items[offset]? := by
    rw [← equal, List.getElem?_append_left inside]
  rw [List.getElem?_drop] at found
  rw [List.getD_eq_getElem?_getD, List.getD_eq_getElem?_getD, found]

theorem drop (occurs : OccursAt storage index items) (count : Nat)
    (inside : count ≤ items.length) : OccursAt storage (index + count) (items.drop count) := by
  have whole := items.take_append_drop count
  rw [← whole] at occurs
  have rest := (append_iff.mp occurs).2
  rwa [List.length_take, Nat.min_eq_left inside] at rest

theorem of_window {upper : Nat} {rest : List α}
    (equal : window storage index upper = items ++ rest) :
    OccursAt storage index items := by
  have inWindow : items <+: window storage index upper :=
    equal ▸ List.prefix_append items rest
  exact inWindow.trans (List.take_prefix _ _)

end OccursAt

theorem window_length {storage : List α} {lower upper : Nat}
    (inside : upper ≤ storage.length) :
    (window storage lower upper).length = upper - lower := by
  simp [window]
  omega

@[simp] theorem window_self (storage : List α) (index : Nat) :
    window storage index index = [] := by
  simp [window]

theorem window_drop (storage : List α) (lower upper count : Nat) :
    window storage (lower + count) upper = (window storage lower upper).drop count := by
  rw [window, window, List.drop_take, List.drop_drop, Nat.sub_sub]

theorem window_append {storage : List α} {lower middle upper : Nat}
    (lowerLe : lower ≤ middle) (upperGe : middle ≤ upper) :
    window storage lower upper =
      window storage lower middle ++ window storage middle upper := by
  have split : upper - lower = (middle - lower) + (upper - middle) := by omega
  have start : lower + (middle - lower) = middle := by omega
  rw [window, window, window, split, List.take_add, List.drop_drop, start]

theorem overwrite_length {storage items : List α} {index : Nat}
    (inside : index + items.length ≤ storage.length) :
    (overwrite storage index items).length = storage.length := by
  simp [overwrite]
  omega

/-- Writing behind a window does not disturb it. -/
theorem window_overwrite_before {storage items : List α} {lower upper index : Nat}
    (before : upper ≤ index) (inside : index ≤ storage.length) :
    window (overwrite storage index items) lower upper =
      window storage lower upper := by
  rcases Nat.lt_or_ge upper lower with reversed | ordered
  · simp [window, Nat.sub_eq_zero_of_le (Nat.le_of_lt reversed)]
  · have dropped : (overwrite storage index items).drop lower =
        (storage.take index).drop lower ++
          (items ++ storage.drop (index + items.length)) := by
      rw [overwrite, List.append_assoc, List.drop_append_of_le_length]
      simp
      omega
    rw [window, dropped, List.take_append_of_le_length (by simp; omega),
      List.drop_take, List.take_take]
    congr 1
    omega

theorem window_overwrite_at {storage items : List α} {index : Nat}
    (inside : index ≤ storage.length) :
    window (overwrite storage index items) index (index + items.length) = items := by
  rw [window, overwrite, List.append_assoc, List.drop_append_of_le_length (by simp [inside]),
    List.drop_eq_nil_of_le (List.length_take_le _ _), List.nil_append, Nat.add_sub_cancel_left,
    List.take_left]

/-- Writing right behind a window extends it by what is written. -/
theorem window_overwrite_append {storage items : List α} {lower upper : Nat}
    (ordered : lower ≤ upper) (inside : upper ≤ storage.length) :
    window (overwrite storage upper items) lower (upper + items.length) =
      window storage lower upper ++ items := by
  rw [window_append ordered (Nat.le_add_right _ _), window_overwrite_at inside,
    window_overwrite_before (Nat.le_refl upper) inside]

/-- The first separator stands behind what has none. -/
theorem findIdx?_separator [BEq α] [LawfulBEq α] {separator : α} {first : List α}
    (absent : separator ∉ first) (rest : List α) :
    (first ++ separator :: rest).findIdx? (· == separator) = some first.length := by
  have none : first.findIdx? (· == separator) = none := by
    rw [List.findIdx?_eq_none_iff]
    intro item member
    rw [beq_eq_false_iff_ne]
    rintro rfl
    exact absent member
  rw [List.findIdx?_append, none, List.findIdx?_cons, beq_self_eq_true]
  simp

theorem drop_separator (separator : α) (first rest : List α) :
    (first ++ separator :: rest).drop (first.length + 1) = rest := by
  rw [List.append_cons]
  exact List.drop_left' (by simp)

end NetRpc
