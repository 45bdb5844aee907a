import Mathlib.Data.Nat.Basic
import Retouch.Printer

/-!
# Slices at character boundaries

A source of a text is sliced by byte offsets. Between two offsets at which characters begin or the
text ends, the slice is there and holds exactly the bytes in between (`slice_ofText`), so
neighbouring slices put together give the slice over both.
-/

namespace Retouch

/-- An offset at which a character of the text begins, or its end. -/
def Boundary (text : String) (i : Nat) : Prop :=
  (String.Pos.Raw.mk i).IsValid text

theorem Boundary.le_size {text : String} {i : Nat} (h : Boundary text i) :
    i ≤ text.toUTF8.size := by
  simpa [String.Pos.Raw.le_iff] using h.le_rawEndPos

theorem boundary_zero (text : String) : Boundary text 0 :=
  String.Pos.Raw.isValid_zero

theorem boundary_size (text : String) : Boundary text text.toUTF8.size := by
  have h : String.Pos.Raw.mk text.toUTF8.size = text.rawEndPos := by
    simp [String.Pos.Raw.ext_iff]
  rw [Boundary, h]
  exact String.Pos.Raw.isValid_rawEndPos

namespace Source

theorem bound_of_le {n i : Nat} (h : i ≤ n) : Slot.bound n (i : Int) = i := by
  unfold Slot.bound Slot.fromFront
  rw [if_neg (by omega)]
  omega

/-- Bytes that are a text are sliced as that text. -/
theorem slice_eq_ok_iff {s : Source} {a b : Int} {u : String} :
    s.slice a b = .ok u ↔ s.bytes a b = u.toUTF8 := by
  unfold slice slice? String.fromUTF8?
  by_cases h : (s.bytes a b).IsValidUTF8
  · rw [dif_pos h]
    simp only [Except.ok.injEq, String.toUTF8_eq_toByteArray, ← String.toByteArray_inj]
    rfl
  · rw [dif_neg h]
    simp only [reduceCtorEq, false_iff, String.toUTF8_eq_toByteArray]
    intro he
    exact h (he ▸ u.isValidUTF8)

/-- Between two boundaries the slice is there and holds the bytes in between. -/
theorem slice_ofText {text : String} {a b : Nat} (stamp : Nat) (ha : Boundary text a)
    (hb : Boundary text b) (hab : a ≤ b) :
    ∃ u, (ofText stamp text).slice a b = .ok u ∧ u.toUTF8 = text.toUTF8.extract a b := by
  have hv : (text.toUTF8.extract a b).IsValidUTF8 :=
    (String.Pos.Raw.isValidUTF8_extract_iff ⟨a⟩ ⟨b⟩ hab hb.le_rawEndPos).2 (Or.inr ⟨ha, hb⟩)
  refine ⟨String.fromUTF8 _ hv, slice_eq_ok_iff.2 ?_, rfl⟩
  have hb' := hb.le_size
  simp only [bytes, size, ofText]
  rw [bound_of_le (Nat.le_trans hab hb'), bound_of_le hb']
  rfl

/-- The slice over all bytes is the text. -/
theorem slice_all (stamp : Nat) (text : String) :
    (ofText stamp text).slice 0 ((ofText stamp text).size : Int) = .ok text := by
  rw [slice_eq_ok_iff]
  simp only [bytes]
  rw [bound_of_le le_rfl, show (0 : Int) = ((0 : Nat) : Int) from rfl, bound_of_le (Nat.zero_le _)]
  exact ByteArray.extract_zero_size

end Source

end Retouch
