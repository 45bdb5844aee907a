import Retouch.Text.Lowercase

/-!
# Lower case is final

A text in lower case is its own lower case (`lower_lower`). The forms that a row of the table leads
to are a stretch as well, and no stretch of forms meets a stretch of capitals.
-/

namespace Retouch.Text

/-- A row of capitals, as the table has them. -/
abbrev Row := Nat × Nat × Nat × Int

/-- Whether a code point is among the capitals of a row. -/
def Row.has (row : Row) (code : Nat) : Bool :=
  row.1 ≤ code && code ≤ row.2.1 && (code - row.1) % row.2.2.1 == 0

/-- All capitals: those of the ASCII range, the capital I with a dot above, and the table. -/
def capitals : List Row :=
  (0x41, 0x5a, 1, 32) :: (0x130, 0x130, 1, 0) :: upperRows

/-- Whether a stretch of code points keeps clear of the capitals of a row, seen from its ends and
the steps alone. -/
def clears (low high step : Nat) (row : Row) : Bool :=
  Nat.blt high row.1 || Nat.blt row.2.1 low ||
    ((Nat.beq low high || Nat.beq (step % row.2.2.1) 0) &&
      !Nat.beq (low % row.2.2.1) (row.1 % row.2.2.1))

theorem has_eq_false_of_clears {low high step i : Nat} {row : Row}
    (h : clears low high step row = true) (hi : low + i * step ≤ high) :
    row.has (low + i * step) = false := by
  obtain ⟨first, last, apart, distance⟩ := row
  refine Bool.eq_false_iff.2 fun hhas => ?_
  have hle : low ≤ low + i * step := Nat.le_add_right _ _
  simp only [Row.has, Bool.and_eq_true, decide_eq_true_eq, beq_iff_eq] at hhas
  obtain ⟨⟨hfirst, hlast⟩, hmod⟩ := hhas
  -- a member of the row leaves the remainder that the row's first capital leaves
  have hsame : (low + i * step) % apart = first % apart := by
    obtain ⟨n, hn⟩ := Nat.dvd_of_mod_eq_zero hmod
    have hcode : low + i * step = first + apart * n := by omega
    rw [hcode, Nat.add_mul_mod_self_left]
  simp only [clears, Bool.or_eq_true, Nat.blt_eq, Bool.and_eq_true, Nat.beq_eq,
    Bool.not_eq_true'] at h
  rcases h with (h | h) | ⟨hstep, hne⟩
  · omega
  · omega
  · refine Nat.ne_of_beq_eq_false hne ?_
    rw [← hsame]
    rcases hstep with hone | hstep
    · have hcode : low + i * step = low := by omega
      rw [hcode]
    · obtain ⟨n, rfl⟩ := Nat.dvd_of_mod_eq_zero hstep
      rw [Nat.mul_left_comm, Nat.add_mul_mod_self_left]

/-- Whether the lower-case forms of a row are characters and keep clear of all capitals. -/
def landsClear (row : Row) : Bool :=
  let low := (row.1 + row.2.2.2).toNat
  let high := (row.2.1 + row.2.2.2).toNat
  decide (0 ≤ row.1 + row.2.2.2) &&
    (Nat.blt high 0xd800 || Nat.blt 0xdfff low && Nat.blt high 0x110000) &&
    capitals.all (clears low high row.2.2.1)

theorem upperRows_landsClear : upperRows.all landsClear = true := by
  decide +kernel

/-! ## Characters -/

/-- A character that is its own lower case, wherever it stands. -/
def Settled (c : Char) : Prop :=
  lowerChar c = [c] ∧ c.toNat ≠ 0x3a3

theorem lowerChar_eq (c : Char) : lowerChar c =
    if c.toNat < 0x80 then [c.toLower]
    else if c.toNat = 0x130 then ['i', Char.ofNat 0x307]
    else match upperRows.find? fun row : Row => row.has c.toNat with
      | some (_, _, _, distance) => [Char.ofNat ((c.toNat : Int) + distance).toNat]
      | none => [c] := rfl

theorem settled_of_not_capital {c : Char} (h : ∀ row ∈ capitals, row.has c.toNat = false) :
    Settled c := by
  have hascii : ¬ (0x41 ≤ c.toNat ∧ c.toNat ≤ 0x5a) := by
    have hrow := h (0x41, 0x5a, 1, 32) (by decide)
    simpa [Row.has, Nat.mod_one] using hrow
  have hdotted : c.toNat ≠ 0x130 := by
    intro hc
    have hrow := h (0x130, 0x130, 1, 0) (by decide)
    rw [hc] at hrow
    cases hrow
  have hnone : upperRows.find? (fun row : Row => row.has c.toNat) = none := by
    refine List.find?_eq_none.2 fun row hm => ?_
    simp [h row (List.mem_cons_of_mem _ (List.mem_cons_of_mem _ hm))]
  refine ⟨?_, fun hc => ?_⟩
  · rw [lowerChar_eq, if_neg hdotted, hnone]
    split
    · unfold Char.toLower
      rw [dif_neg]
      exact fun h => hascii ⟨UInt32.le_iff_toNat_le.1 h.1, UInt32.le_iff_toNat_le.1 h.2⟩
    · rfl
  · have hrow := h (0x3a3, 0x3ab, 1, 32) (by decide +kernel)
    rw [hc] at hrow
    cases hrow

/-- The lower-case form that a row of the table leads to is no capital. -/
theorem settled_of_row {row : Row} (hm : row ∈ upperRows) {code : Nat} (h : row.has code = true) :
    Settled (Char.ofNat ((code : Int) + row.2.2.2).toNat) := by
  have hclear := List.all_eq_true.1 upperRows_landsClear row hm
  obtain ⟨first, last, step, distance⟩ := row
  simp only [Row.has, Bool.and_eq_true, decide_eq_true_eq, beq_iff_eq] at h
  simp only [landsClear, Bool.and_eq_true, decide_eq_true_eq, Bool.or_eq_true, Nat.blt_eq,
    List.all_eq_true] at hclear ⊢
  obtain ⟨⟨hpos, hvalid⟩, hclear⟩ := hclear
  obtain ⟨⟨hfirst, hlast⟩, hmod⟩ := h
  obtain ⟨n, hn⟩ := Nat.dvd_of_mod_eq_zero hmod
  have hcode : ((code : Int) + distance).toNat = ((first : Int) + distance).toNat + n * step := by
    rw [Nat.mul_comm]
    omega
  have hhigh : ((first : Int) + distance).toNat + n * step ≤ ((last : Int) + distance).toNat := by
    rw [← hcode]
    omega
  have hchar : (((code : Int) + distance).toNat).isValidChar := by
    rw [hcode]
    unfold Nat.isValidChar
    omega
  refine settled_of_not_capital fun row hrow => ?_
  rw [Char.ofNat, dif_pos hchar]
  change row.has ((code : Int) + distance).toNat = false
  rw [hcode]
  exact has_eq_false_of_clears (hclear row hrow) hhigh

theorem settled_of_ascii {c : Char} (h : c.toNat < 0x80)
    (hsmall : ¬ (0x41 ≤ c.toNat ∧ c.toNat ≤ 0x5a)) : Settled c := by
  have hrows : ∀ row ∈ upperRows, 0x80 ≤ row.1 := by decide +kernel
  refine settled_of_not_capital fun row hm => Bool.eq_false_iff.2 fun hhas => ?_
  simp only [Row.has, Bool.and_eq_true, decide_eq_true_eq] at hhas
  rcases List.mem_cons.1 hm with rfl | hm
  · exact hsmall hhas.1
  rcases List.mem_cons.1 hm with rfl | hm
  · omega
  · have hrow := hrows row hm
    omega

theorem settled_of_mem_lowerChar {c x : Char} (h : x ∈ lowerChar c) : Settled x := by
  rw [lowerChar_eq] at h
  split at h
  · rename_i hascii
    obtain rfl := List.mem_singleton.1 h
    have hlower : ∀ n < 0x80, (Char.ofNat n).toLower.toNat < 0x80 ∧
        ¬ (0x41 ≤ (Char.ofNat n).toLower.toNat ∧ (Char.ofNat n).toLower.toNat ≤ 0x5a) := by
      decide +kernel
    have hc := hlower c.toNat hascii
    rw [Char.ofNat_toNat] at hc
    exact settled_of_ascii hc.1 hc.2
  split at h
  · rcases List.mem_cons.1 h with rfl | h
    · exact settled_of_ascii (by decide) (by decide)
    · obtain rfl := List.mem_singleton.1 h
      exact settled_of_not_capital (by decide +kernel)
  · rename_i hascii hdotted
    split at h
    · rename_i hrow
      obtain rfl := List.mem_singleton.1 h
      have hhas := List.find?_some hrow
      exact settled_of_row (List.mem_of_find?_eq_some hrow) hhas
    · rename_i hnone
      obtain rfl := List.mem_singleton.1 h
      refine settled_of_not_capital fun row hm => Bool.eq_false_iff.2 fun hhas => ?_
      rcases List.mem_cons.1 hm with rfl | hm
      · simp only [Row.has, Bool.and_eq_true, decide_eq_true_eq] at hhas
        omega
      rcases List.mem_cons.1 hm with rfl | hm
      · simp only [Row.has, Bool.and_eq_true, decide_eq_true_eq] at hhas
        omega
      · exact List.find?_eq_none.1 hnone row hm hhas

/-! ## Texts -/

theorem lowerFrom_of_settled : ∀ (before : List Char) {cs : List Char}, (∀ c ∈ cs, Settled c) →
    lowerFrom before cs = cs
  | _, [], _ => rfl
  | before, c :: after, h => by
    have hc := h c List.mem_cons_self
    rw [lowerFrom, lowerFrom_of_settled _ fun x hx => h x (List.mem_cons_of_mem _ hx), hc.1]
    simp [hc.2]

theorem settled_of_mem_lowerFrom : ∀ (before : List Char) {cs : List Char} {c : Char},
    c ∈ lowerFrom before cs → Settled c
  | before, x :: after, c, h => by
    rw [lowerFrom, List.mem_append] at h
    rcases h with h | h
    · split at h
      · obtain rfl := List.mem_singleton.1 h
        exact settled_of_not_capital (by decide +kernel)
      · exact settled_of_mem_lowerChar h
    · exact settled_of_mem_lowerFrom _ h

/-- The lower case of a text has no other lower case. -/
theorem lower_lower (s : String) : lower (lower s) = lower s := by
  unfold lower
  rw [String.toList_ofList]
  exact congrArg _ (lowerFrom_of_settled [] fun c hc => settled_of_mem_lowerFrom [] hc)

end Retouch.Text
