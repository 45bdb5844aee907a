import Retouch.Proofs.Slicing

/-!
# Slices as code points

Offsets count bytes and texts are made of code points, of one to four bytes each. The boundaries of
a text are the sums of the widths of its first code points (`boundary_iff_mem_edges`). A text cut at
two of them falls into three, and the slice between them is the one in the middle (`slice_middle`).
So a slice is there between boundaries only, unless it is empty, and consists of the code points
that lie within it; neighbouring slices put together give the slice over both (`slice_exact`).
-/

namespace Retouch

namespace Source

/-! ## Code points and their offsets -/

/-- The offsets at which code points begin, the first at `i`, and the one at which they end. -/
def edges : Nat → List Char → List Nat
  | i, [] => [i]
  | i, c :: rest => i :: edges (i + c.utf8Size) rest

/-- The code points whose bytes all lie from `a` up to `b`, where the first begins at `i`. -/
def encodedIn (a b : Nat) : Nat → List Char → List Char
  | _, [] => []
  | i, c :: rest =>
    if a ≤ i ∧ i + c.utf8Size ≤ b then c :: encodedIn a b (i + c.utf8Size) rest
    else encodedIn a b (i + c.utf8Size) rest

/-- The number of bytes of code points. -/
def width (cs : List Char) : Nat :=
  (String.ofList cs).utf8ByteSize

@[simp]
theorem width_nil : width [] = 0 := rfl

theorem width_append (cs ds : List Char) : width (cs ++ ds) = width cs + width ds := by
  simp [width, String.ofList_append, String.utf8ByteSize_append]

@[simp]
theorem width_cons (c : Char) (cs : List Char) : width (c :: cs) = c.utf8Size + width cs := by
  rw [← List.singleton_append, width_append]
  simp [width]

theorem mem_edges {i : Nat} : ∀ {j : Nat} {cs : List Char}, i ∈ edges j cs ↔
    ∃ before behind, cs = before ++ behind ∧ i = j + width before
  | j, [] => by
    rw [edges, List.mem_singleton]
    constructor
    · rintro rfl
      exact ⟨[], [], rfl, rfl⟩
    · rintro ⟨before, behind, hcs, rfl⟩
      rw [(List.append_eq_nil_iff.1 hcs.symm).1]
      rfl
  | j, c :: rest => by
    rw [edges, List.mem_cons, mem_edges]
    constructor
    · rintro (rfl | ⟨before, behind, rfl, rfl⟩)
      · exact ⟨[], c :: rest, rfl, rfl⟩
      · exact ⟨c :: before, behind, rfl, by rw [width_cons]; omega⟩
    · rintro ⟨_ | ⟨d, before⟩, behind, hcs, rfl⟩
      · exact .inl rfl
      · obtain ⟨rfl, rfl⟩ := List.cons.inj hcs
        exact .inr ⟨before, behind, rfl, by rw [width_cons]; omega⟩

/-- The boundaries of a text are where its code points begin, and its end. -/
theorem boundary_iff_mem_edges {text : String} {i : Nat} :
    Boundary text i ↔ i ∈ edges 0 text.toList := by
  rw [Boundary, String.Pos.Raw.isValid_iff_exists_append, mem_edges]
  constructor
  · rintro ⟨before, behind, rfl, hi⟩
    refine ⟨before.toList, behind.toList, by simp, ?_⟩
    rw [width, String.ofList_toList, Nat.zero_add]
    exact congrArg String.Pos.Raw.byteIdx hi
  · rintro ⟨before, behind, htext, rfl⟩
    refine ⟨String.ofList before, String.ofList behind, ?_, ?_⟩
    · rw [← String.ofList_append, ← htext, String.ofList_toList]
    · rw [Nat.zero_add]
      rfl

section Within

variable {a b : Nat}

theorem encodedIn_append : ∀ (i : Nat) (cs ds : List Char),
    encodedIn a b i (cs ++ ds) = encodedIn a b i cs ++ encodedIn a b (i + width cs) ds
  | _, [], _ => rfl
  | i, c :: cs, ds => by
    have ih := encodedIn_append (i + c.utf8Size) cs ds
    rw [List.cons_append, encodedIn, encodedIn, ih, width_cons, Nat.add_assoc]
    split_ifs <;> rfl

theorem encodedIn_front : ∀ {i : Nat} {cs : List Char}, i + width cs ≤ a → encodedIn a b i cs = []
  | _, [], _ => rfl
  | i, c :: cs, h => by
    have hc := c.utf8Size_pos
    rw [width_cons] at h
    rw [encodedIn, if_neg (by omega)]
    exact encodedIn_front (by omega)

theorem encodedIn_behind : ∀ {i : Nat} {cs : List Char}, b ≤ i → encodedIn a b i cs = []
  | _, [], _ => rfl
  | i, c :: cs, h => by
    have hc := c.utf8Size_pos
    rw [encodedIn, if_neg (by omega)]
    exact encodedIn_behind (by omega)

theorem encodedIn_all : ∀ {i : Nat} {cs : List Char}, a ≤ i → i + width cs ≤ b →
    encodedIn a b i cs = cs
  | _, [], _, _ => rfl
  | i, c :: cs, ha, hb => by
    rw [width_cons] at hb
    rw [encodedIn, if_pos (by omega), encodedIn_all (by omega) (by omega)]

/-- No code point is so narrow that it lies between an offset and itself. -/
theorem encodedIn_self : ∀ (i : Nat) (cs : List Char), encodedIn a a i cs = []
  | _, [] => rfl
  | i, c :: cs => by
    have hc := c.utf8Size_pos
    rw [encodedIn, if_neg (by omega)]
    exact encodedIn_self (i + c.utf8Size) cs

end Within

/-! ## Slices -/

variable {stamp : Nat} {text : String} {a b c : Nat}

/-- A text cut at two boundaries. -/
theorem exists_middle (ha : Boundary text a) (hb : Boundary text b) (hab : a ≤ b) :
    ∃ front middle back, text.toList = front ++ middle ++ back ∧ width front = a ∧
      width (front ++ middle) = b := by
  obtain ⟨front, tail, hfront, rfl⟩ := mem_edges.1 (boundary_iff_mem_edges.1 ha)
  obtain ⟨whole, back, hwhole, rfl⟩ := mem_edges.1 (boundary_iff_mem_edges.1 hb)
  rw [Nat.zero_add, Nat.zero_add] at hab
  -- the longer of the two beginnings extends the other
  rcases List.append_eq_append_iff.1 (hfront.symm.trans hwhole) with
    ⟨middle, rfl, -⟩ | ⟨middle, rfl, -⟩
  · exact ⟨front, middle, back, hwhole, by simp, by simp⟩
  · rw [width_append] at hab
    have hnil : middle = [] := by
      cases middle with
      | nil => rfl
      | cons c cs =>
        have hc := c.utf8Size_pos
        rw [width_cons] at hab
        omega
    subst hnil
    exact ⟨whole, [], back, by simpa using hwhole, by simp, by simp⟩

/-- The slice between two cuts of a text is what lies in the middle. -/
theorem slice_middle (stamp : Nat) {front middle back : List Char}
    (htext : text.toList = front ++ middle ++ back) :
    (ofText stamp text).slice (width front) (width (front ++ middle)) =
      .ok (String.ofList middle) := by
  have hsize : ∀ cs, width cs = (String.ofList cs).toByteArray.size :=
    fun cs => String.size_toByteArray.symm
  have hwhole : text = String.ofList (front ++ middle) ++ String.ofList back := by
    rw [← String.ofList_append, ← htext, String.ofList_toList]
  have hle : width (front ++ middle) ≤ (ofText stamp text).size := by
    rw [ofText, size, String.toUTF8_eq_toByteArray, hwhole, String.toByteArray_append,
      ByteArray.size_append, hsize]
    omega
  have hfront : width front ≤ width (front ++ middle) := by
    rw [width_append]
    omega
  rw [slice_eq_ok_iff, bytes, bound_of_le (Nat.le_trans hfront hle), bound_of_le hle, ofText]
  simp only [String.toUTF8_eq_toByteArray]
  rw [hwhole, String.toByteArray_append, hsize (front ++ middle),
    ByteArray.extract_append_size_left, String.ofList_append, String.toByteArray_append]
  exact ByteArray.extract_append_eq_right (hsize front) ByteArray.size_append

/-- A slice is there exactly between boundaries, or where it is empty. -/
theorem slice_succeeds_iff (hab : a ≤ b) (hb : b ≤ (ofText stamp text).size) :
    (∃ u, (ofText stamp text).slice a b = .ok u) ↔ a = b ∨ Boundary text a ∧ Boundary text b := by
  have hend : (String.Pos.Raw.mk b) ≤ text.rawEndPos := by
    simpa [String.Pos.Raw.le_iff, ofText, size] using hb
  have hvalid := String.Pos.Raw.isValidUTF8_extract_iff (s := text) ⟨a⟩ ⟨b⟩ hab hend
  rw [String.Pos.Raw.mk.injEq] at hvalid
  have hbytes : (ofText stamp text).bytes a b = text.toByteArray.extract a b := by
    rw [bytes, bound_of_le (Nat.le_trans hab hb), bound_of_le hb]
    rfl
  simp only [slice_eq_ok_iff, hbytes, String.toUTF8_eq_toByteArray]
  refine Iff.trans ⟨?_, fun h => ?_⟩ hvalid
  · rintro ⟨u, hu⟩
    rw [hu]
    exact u.isValidUTF8
  · exact ⟨⟨_, h⟩, rfl⟩

/-- A slice consists of the code points that lie within it. -/
theorem slice_eq_encodedIn (hab : a ≤ b) (hb : b ≤ (ofText stamp text).size) {u : String}
    (hu : (ofText stamp text).slice a b = .ok u) :
    u = String.ofList (encodedIn a b 0 text.toList) := by
  rcases (slice_succeeds_iff hab hb).1 ⟨u, hu⟩ with rfl | ⟨ha, hb'⟩
  · have hempty : (ofText stamp text).bytes a a = ByteArray.empty := ByteArray.extract_same
    rw [slice_eq_ok_iff, hempty] at hu
    rw [encodedIn_self]
    exact String.toByteArray_inj.1 hu.symm
  · obtain ⟨front, middle, back, htext, rfl, rfl⟩ := exists_middle ha hb' hab
    rw [slice_middle stamp htext] at hu
    cases hu
    rw [htext, encodedIn_append, encodedIn_append, encodedIn_front (by omega),
      encodedIn_all (by omega) (by rw [width_append]; omega), encodedIn_behind (by omega),
      List.nil_append, List.append_nil]

/-- Slices that meet make the slice over both. -/
theorem slice_append (hab : a ≤ b) (hbc : b ≤ c) (hc : c ≤ (ofText stamp text).size) {u v : String}
    (hu : (ofText stamp text).slice a b = .ok u) (hv : (ofText stamp text).slice b c = .ok v) :
    (ofText stamp text).slice a c = .ok (u ++ v) := by
  rw [slice_eq_ok_iff, bytes, bound_of_le (by omega), bound_of_le (by omega)] at hu hv
  have hall : (ofText stamp text).data.extract a c = (u ++ v).toUTF8 := by
    rw [ByteArray.extract_eq_extract_append_extract b hab hbc, hu, hv]
    rfl
  rw [slice_eq_ok_iff, bytes, bound_of_le (by omega), bound_of_le (by omega), hall]

end Source

/-- Between offsets of a text in order a slice is there exactly if both are where code points begin
or the text ends, or if they are equal. It consists of the code points that lie between them. Slices
that meet make the slice over both, and the slice over all bytes is the text. -/
theorem slice_exact (stamp : Nat) (text : String) {a b c : Nat} (hab : a ≤ b) (hbc : b ≤ c)
    (hc : c ≤ (Source.ofText stamp text).size) :
    ((∃ u, (Source.ofText stamp text).slice a b = .ok u) ↔
      a = b ∨ a ∈ Source.edges 0 text.toList ∧ b ∈ Source.edges 0 text.toList) ∧
    (∀ u, (Source.ofText stamp text).slice a b = .ok u →
      u = String.ofList (Source.encodedIn a b 0 text.toList)) ∧
    (∀ u v, (Source.ofText stamp text).slice a b = .ok u →
      (Source.ofText stamp text).slice b c = .ok v →
      (Source.ofText stamp text).slice a c = .ok (u ++ v)) ∧
    (Source.ofText stamp text).slice 0 ((Source.ofText stamp text).size : Int) = .ok text := by
  refine ⟨?_, fun u => Source.slice_eq_encodedIn hab (Nat.le_trans hbc hc),
    fun u v => Source.slice_append hab hbc hc, Source.slice_all stamp text⟩
  rw [← Source.boundary_iff_mem_edges, ← Source.boundary_iff_mem_edges]
  exact Source.slice_succeeds_iff hab (Nat.le_trans hbc hc)

/-- The last offset lies within the four bytes of a code point. -/
theorem slice_exact_mixed :
    (Source.ofText 0 "aé€𝄞").slice (1 : Nat) (6 : Nat) = .ok "é€" ∧
    ¬ ∃ u, (Source.ofText 0 "aé€𝄞").slice (6 : Nat) (8 : Nat) = .ok u := by
  have hsize : (Source.ofText 0 "aé€𝄞").size = 10 := by decide
  obtain ⟨hthere, htext, -⟩ :=
    slice_exact 0 "aé€𝄞" (a := 1) (b := 6) (c := 8) (by decide) (by decide) (by rw [hsize]; decide)
  obtain ⟨hcut, -⟩ :=
    slice_exact 0 "aé€𝄞" (a := 6) (b := 8) (c := 8) (by decide) (by decide) (by rw [hsize]; decide)
  refine ⟨?_, hcut.not.2 (by decide)⟩
  obtain ⟨u, hu⟩ := hthere.2 (by decide)
  rw [hu, htext u hu]
  exact congrArg Except.ok (by decide)

end Retouch
