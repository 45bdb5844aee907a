/-!
# Signed positions

A slot names a position of a sequence from either end: `0` is the first item and `-1` the last.
Reading with a slot outside the sequence fails; as the bound of a cut it is moved to the nearest
end. `splice` replaces a stretch between two bounds, and where the bounds cross it inserts at the
first of them.
-/

namespace Retouch.Slot

/-- The slot counted from the front, which may still lie outside the sequence. -/
def fromFront (length : Nat) (slot : Int) : Int :=
  if slot < 0 then slot + length else slot

/-- The position a slot designates, if the sequence has it. -/
def position? (length : Nat) (slot : Int) : Option Nat :=
  let i := fromFront length slot
  if 0 ≤ i ∧ i < length then some i.toNat else none

/-- The position of a cut, moved into the sequence. -/
def bound (length : Nat) (slot : Int) : Nat :=
  min (fromFront length slot).toNat length

/-- The item a slot designates. -/
def get? {α : Type} (items : List α) (slot : Int) : Option α :=
  (position? items.length slot).bind fun i => items[i]?

/-- The sequence with the stretch from `start` up to `stop` replaced. -/
def splice {α : Type} (items : List α) (start stop : Int) (new : List α) : List α :=
  let i := bound items.length start
  let j := bound items.length stop
  items.take i ++ new ++ items.drop (max i j)

theorem get?_eq_some_iff {α : Type} {items : List α} {slot : Int} {a : α} :
    get? items slot = some a ↔ ∃ i : Nat, fromFront items.length slot = i ∧ items[i]? = some a := by
  simp only [get?, position?, Option.bind_eq_some_iff]
  constructor
  · rintro ⟨i, hi, ha⟩
    split at hi
    · cases hi
      exact ⟨_, (Int.toNat_of_nonneg (by omega)).symm, ha⟩
    · cases hi
  · rintro ⟨i, hi, ha⟩
    have hlt := (List.getElem?_eq_some_iff.1 ha).1
    exact ⟨i, by rw [hi, if_pos (by omega), Int.toNat_natCast], ha⟩

/-- A slot within the length, from either end, designates an item. -/
theorem get?_isSome_iff {α : Type} {items : List α} {slot : Int} :
    (get? items slot).isSome ↔ -(items.length : Int) ≤ slot ∧ slot < items.length := by
  rw [Option.isSome_iff_exists]
  simp only [get?_eq_some_iff]
  constructor
  · rintro ⟨a, i, hi, ha⟩
    have hlt := (List.getElem?_eq_some_iff.1 ha).1
    unfold fromFront at hi
    split at hi <;> omega
  · rintro ⟨hlow, hhigh⟩
    have hi : 0 ≤ fromFront items.length slot ∧ fromFront items.length slot < items.length := by
      unfold fromFront
      split <;> omega
    exact ⟨_, (fromFront items.length slot).toNat, by omega, List.getElem?_eq_getElem (by omega)⟩

/-- Replacing one slot takes out one item at most. -/
theorem length_splice_succ {α : Type} (items : List α) (slot : Int) (new : List α) :
    items.length + new.length ≤ (splice items slot (slot + 1) new).length + 1 := by
  have hle : bound items.length slot ≤ items.length := Nat.min_le_right _ _
  have hnext : bound items.length (slot + 1) ≤ bound items.length slot + 1 := by
    unfold bound fromFront
    split <;> split <;> omega
  simp only [splice, List.length_append, List.length_take, List.length_drop]
  omega

@[simp]
theorem fromFront_natCast (length i : Nat) : fromFront length (i : Int) = i :=
  if_neg (by omega)

@[simp]
theorem get?_natCast {α : Type} (items : List α) (i : Nat) : get? items (i : Int) = items[i]? := by
  ext a
  rw [get?_eq_some_iff, fromFront_natCast]
  constructor
  · rintro ⟨j, hj, ha⟩
    rwa [Int.ofNat_inj.1 hj]
  · exact fun h => ⟨i, rfl, h⟩

/-- Replacing one slot leaves what stands before and behind it, from whichever end the slot is
counted, the last slot as `-1` apart. -/
theorem splice_of_ne_last {α : Type} {items : List α} {slot : Int} {i : Nat}
    (hi : fromFront items.length slot = i) (h : i < items.length) (hlast : slot ≠ -1)
    (new : List α) :
    splice items slot (slot + 1) new = items.take i ++ new ++ items.drop (i + 1) := by
  have hstart : bound items.length slot = i := by
    rw [bound, hi]
    omega
  have hstop : bound items.length (slot + 1) = i + 1 := by
    unfold bound
    unfold fromFront at hi ⊢
    split <;> split at hi <;> omega
  rw [splice, hstart, hstop, Nat.max_eq_right (Nat.le_succ i)]

/-- The slot behind `-1` is the first one, so that the cut between them is empty. -/
theorem splice_last {α : Type} (items new : List α) :
    splice items (-1) (-1 + 1) new =
      items.take (items.length - 1) ++ new ++ items.drop (items.length - 1) := by
  have hstart : bound items.length (-1) = items.length - 1 := by
    unfold bound fromFront
    split <;> omega
  have hstop : bound items.length (-1 + 1) = 0 := by
    unfold bound fromFront
    split <;> omega
  rw [splice, hstart, hstop, Nat.max_eq_left (Nat.zero_le _)]

theorem splice_natCast {α : Type} {items : List α} {i : Nat} (h : i < items.length)
    (new : List α) :
    splice items i ((i : Int) + 1) new = items.take i ++ new ++ items.drop (i + 1) :=
  splice_of_ne_last (fromFront_natCast _ i) h (by omega) new

theorem take_append_cons_drop {α : Type} {items : List α} {i : Nat} {x : α}
    (h : items[i]? = some x) : items.take i ++ x :: items.drop (i + 1) = items := by
  obtain ⟨hi, rfl⟩ := List.getElem?_eq_some_iff.1 h
  rw [← List.drop_eq_getElem_cons hi, List.take_append_drop]

/-- Where no item stands twice, the item of a slot stands in no other. -/
theorem not_mem_take_drop {α : Type} {items : List α} {i : Nat} {x : α} (h : items[i]? = some x)
    (hn : items.Nodup) : x ∉ items.take i ∧ x ∉ items.drop (i + 1) := by
  rw [← take_append_cons_drop h, List.nodup_append, List.nodup_cons] at hn
  obtain ⟨-, ⟨hdrop, -⟩, hcross⟩ := hn
  exact ⟨fun hm => hcross x hm x List.mem_cons_self rfl, hdrop⟩

theorem splice_self {α : Type} {items : List α} {i : Nat} {x : α} (h : items[i]? = some x) :
    splice items i ((i : Int) + 1) [x] = items := by
  rw [splice_natCast (List.getElem?_eq_some_iff.1 h).1, List.append_assoc, List.singleton_append,
    take_append_cons_drop h]

/-- The sequence with an item put in front of a position. -/
def insert {α : Type} (items : List α) (slot : Int) (item : α) : List α :=
  splice items slot slot [item]

/-- The sequence with one slot overwritten. -/
def set? {α : Type} (items : List α) (slot : Int) (item : α) : Option (List α) :=
  (position? items.length slot).map fun i => items.set i item

/-- The sequence without one slot. -/
def erase? {α : Type} (items : List α) (slot : Int) : Option (List α) :=
  (position? items.length slot).map fun i => items.eraseIdx i

/-- The first position of a walk by `step`, from a bound that may be left out. -/
private def startOf (length : Nat) (step : Int) (start : Option Int) : Int :=
  let low : Int := if step < 0 then -1 else 0
  let high : Int := if step < 0 then (length : Int) - 1 else length
  match start with
  | none => if step < 0 then high else low
  | some slot => max low (min high (fromFront length slot))

/-- The position where a walk by `step` stops, from a bound that may be left out. -/
private def stopOf (length : Nat) (step : Int) (stop : Option Int) : Int :=
  let low : Int := if step < 0 then -1 else 0
  let high : Int := if step < 0 then (length : Int) - 1 else length
  match stop with
  | none => if step < 0 then low else high
  | some slot => max low (min high (fromFront length slot))

/-- The positions from `start` up to `stop` in steps of `step`, which is not zero. -/
def stride (length : Nat) (start stop : Option Int) (step : Int) : List Nat :=
  let first := startOf length step start
  let last := stopOf length step stop
  let distance := if step < 0 then first - last else last - first
  let count := (distance.toNat + step.natAbs - 1) / step.natAbs
  (List.range count).map fun (i : Nat) => (first + (i : Int) * step).toNat

/-- The items at the positions of a stride. -/
def select {α : Type} (items : List α) (start stop : Option Int) (step : Int) : List α :=
  (stride items.length start stop step).filterMap fun i => items[i]?

end Retouch.Slot
