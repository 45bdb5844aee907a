import Mathlib.Data.List.Induction
import Retouch.Datum.Json
import Retouch.Logging.Line

/-!
# Reading JSON back

What is written as JSON is read back: texts as they are, whole numbers digit by digit, lists and
mappings part by part (`parse?_json`). Days and times come back as texts, and so do the keys of
mappings (`Datum.asRead`). Numbers with a point are left out.
-/

namespace Retouch

/-! ## Digits -/

namespace Numeral

theorem digit?_digitChar : ∀ d < 16, digit? d.digitChar = some d := by
  decide

theorem valueOf_append (base : Nat) (front back : List Char) :
    valueOf base (front ++ back) =
      back.foldl (fun n c => base * n + (digit? c).getD 0) (valueOf base front) :=
  List.foldl_append

/-- Digits stand for the number that they were taken from. -/
theorem valueOf_toDigits {base : Nat} (hlow : 1 < base) (hhigh : base ≤ 16) (n : Nat) :
    valueOf base (Nat.toDigits base n) = n := by
  induction n using Nat.strongRecOn with
  | ind n ih =>
    rw [Nat.toDigits_eq_if hlow]
    split_ifs with hn
    · simp [valueOf, digit?_digitChar n (by omega)]
    · have hmod : n % base < 16 := Nat.lt_of_lt_of_le (Nat.mod_lt n (by omega)) hhigh
      rw [valueOf_append, ih _ (Nat.div_lt_self (by omega) hlow)]
      simp only [List.foldl_cons, List.foldl_nil, digit?_digitChar _ hmod, Option.getD_some]
      exact Nat.div_add_mod n base

theorem valueOf_replicate (base count : Nat) : valueOf base (List.replicate count '0') = 0 := by
  induction count with
  | zero => rfl
  | succ count ih =>
    rw [List.replicate_succ', valueOf_append, ih]
    rfl

theorem isSome_digit? {base n : Nat} (hlow : 1 < base) (hhigh : base ≤ 16) {c : Char}
    (h : c ∈ Nat.toDigits base n) : (digit? c).isSome = true := by
  induction n using Nat.strongRecOn with
  | ind n ih =>
    rw [Nat.toDigits_eq_if hlow] at h
    split_ifs at h with hn
    · rw [List.mem_singleton.1 h, digit?_digitChar n (by omega)]
      rfl
    · rcases List.mem_append.1 h with h | h
      · exact ih _ (Nat.div_lt_self (by omega) hlow) h
      · have hmod : n % base < 16 := Nat.lt_of_lt_of_le (Nat.mod_lt n (by omega)) hhigh
        rw [List.mem_singleton.1 h, digit?_digitChar _ hmod]
        rfl

/-- Only zero is written with a zero in front. -/
theorem head_toDigits {n : Nat} (hn : n ≠ 0) (rest : List Char) :
    Nat.toDigits 10 n ≠ '0' :: rest := by
  induction n using Nat.strongRecOn generalizing rest with
  | ind n ih =>
    rw [Nat.toDigits_eq_if (by decide)]
    split_ifs with hlt
    · intro h
      have hzero : ∀ d < 10, d ≠ 0 → d.digitChar ≠ '0' := by decide
      exact hzero n hlt hn (List.cons.inj h).1
    · have hdiv : n / 10 ≠ 0 := by omega
      rcases hdigits : Nat.toDigits 10 (n / 10) with _ | ⟨c, more⟩
      · exact absurd hdigits Nat.toDigits_ne_nil
      · intro h
        have hc : c = '0' := (List.cons.inj h).1
        exact ih (n / 10) (by omega) hdiv more (hc ▸ hdigits)

end Numeral

/-! ## Texts -/

namespace Json

theorem hexNumber?_eq {digits : List Char}
    (h : ∀ c ∈ digits, (Numeral.digit? c).isSome = true) :
    hexNumber? digits = some (Numeral.valueOf 16 digits) := by
  have hfold : ∀ n, digits.foldlM (fun n c => (Numeral.digit? c).map (16 * n + ·)) n =
      some (digits.foldl (fun n c => 16 * n + (Numeral.digit? c).getD 0) n) := by
    induction digits with
    | nil => exact fun n => rfl
    | cons c rest ih =>
      intro n
      obtain ⟨d, hd⟩ := Option.isSome_iff_exists.1 (h c List.mem_cons_self)
      rw [List.foldlM_cons, hd]
      exact (ih (fun c hc => h c (List.mem_cons_of_mem _ hc)) _).trans (by simp [hd])
  exact hfold 0

/-- Four digits are enough for a code of sixteen bits, and it is read from them. -/
theorem hex_four {code : Nat} (h : code < 0x10000) :
    ∃ a b c d, (Text.hex 4 code).toList = [a, b, c, d] ∧ hexNumber? [a, b, c, d] = some code := by
  have hlen : (Nat.toDigits 16 code).length ≤ 4 :=
    (Nat.length_toDigits_le_iff (by decide) (by decide)).2 h
  have hlist : (Text.hex 4 code).toList =
      List.replicate (4 - (Nat.toDigits 16 code).length) '0' ++ Nat.toDigits 16 code := by
    simp [Text.hex]
  have hfour : (Text.hex 4 code).toList.length = 4 := by
    rw [hlist, List.length_append, List.length_replicate]
    omega
  have hnumber : hexNumber? (Text.hex 4 code).toList = some code := by
    rw [hexNumber?_eq, hlist, Numeral.valueOf_append, Numeral.valueOf_replicate]
    · exact congrArg some (Numeral.valueOf_toDigits (by decide) (by decide) code)
    · intro c hc
      rw [hlist, List.mem_append] at hc
      rcases hc with hc | hc
      · rw [(List.mem_replicate.1 hc).2]
        rfl
      · exact Numeral.isSome_digit? (by decide) (by decide) hc
  obtain ⟨a, b, c, d, habcd⟩ : ∃ a b c d, (Text.hex 4 code).toList = [a, b, c, d] := by
    match (Text.hex 4 code).toList, hfour with
    | [a, b, c, d], _ => exact ⟨a, b, c, d, rfl⟩
  exact ⟨a, b, c, d, habcd, habcd ▸ hnumber⟩

theorem char?_toNat (c : Char) : char? c.toNat = some c := by
  have hvalid : c.toNat.isValidChar := c.valid
  rw [char?, if_pos hvalid, Char.ofNat_toNat]

/-- A code of sixteen bits is read as what it comes to. -/
theorem string_code {code : Nat} (hcode : code < 0x10000) {high high' : Option Nat}
    {found : List Char} (hunit : unit? high code = some (found, high')) (written rest : List Char) :
    string written high (("\\u" ++ Text.hex 4 code).toList ++ rest) =
      string (found ++ written) high' rest := by
  obtain ⟨a, b, x, d, hlist, hnumber⟩ := hex_four hcode
  rw [String.toList_append, hlist]
  change string written high ('\\' :: 'u' :: a :: b :: x :: d :: rest) = _
  rw [string, if_pos rfl]
  simp only [hnumber, Option.bind_some, hunit]

theorem string_plain {c : Char} (hquote : c ≠ '"') (hback : c ≠ '\\') (hlow : 0x20 ≤ c.toNat)
    (written rest : List Char) :
    string written none (c :: rest) = string (c :: written) none rest := by
  have hblank : ¬ c < ' ' := fun h => absurd (show c.toNat < 0x20 from h) (by omega)
  rw [string.eq_def]
  simp only [if_neg hback, if_neg hquote, hblank, Option.isSome_none, Bool.false_eq_true, or_self,
    if_false]

/-- A character of sixteen bits is read back from its code. -/
theorem string_short {c : Char} (h : c.toNat < 0x10000) (written rest : List Char) :
    string written none (("\\u" ++ Text.hex 4 c.toNat).toList ++ rest) =
      string (c :: written) none rest := by
  have hvalid : c.toNat < 0xd800 ∨ 0xdfff < c.toNat ∧ c.toNat < 0x110000 := c.valid
  have hhalf : ¬ (0xd800 ≤ c.toNat ∧ c.toNat < 0xdc00) := by omega
  have hunit : unit? none c.toNat = some ([c], none) := by
    rw [unit?, if_neg hhalf, char?_toNat]
    rfl
  exact string_code h hunit written rest

/-- A character of more bits is read back from the two halves of its code. -/
theorem string_pair {c : Char} (h : 0x10000 ≤ c.toNat) (written rest : List Char) :
    string written none (("\\u" ++ Text.hex 4 (0xd800 + (c.toNat - 0x10000) / 0x400) ++
      "\\u" ++ Text.hex 4 (0xdc00 + (c.toNat - 0x10000) % 0x400)).toList ++ rest) =
        string (c :: written) none rest := by
  have hvalid : c.toNat < 0xd800 ∨ 0xdfff < c.toNat ∧ c.toNat < 0x110000 := c.valid
  have hhigh : 0xd800 ≤ 0xd800 + (c.toNat - 0x10000) / 0x400 ∧
      0xd800 + (c.toNat - 0x10000) / 0x400 < 0xdc00 := by omega
  have hlow : 0xdc00 ≤ 0xdc00 + (c.toNat - 0x10000) % 0x400 ∧
      0xdc00 + (c.toNat - 0x10000) % 0x400 < 0xe000 := by omega
  have hsum : 0x10000 + (0xd800 + (c.toNat - 0x10000) / 0x400 - 0xd800) * 0x400 +
      (0xdc00 + (c.toNat - 0x10000) % 0x400 - 0xdc00) = c.toNat := by omega
  have hfirst : unit? none (0xd800 + (c.toNat - 0x10000) / 0x400) =
      some ([], some (0xd800 + (c.toNat - 0x10000) / 0x400)) := if_pos hhigh
  have hsecond : unit? (some (0xd800 + (c.toNat - 0x10000) / 0x400))
      (0xdc00 + (c.toNat - 0x10000) % 0x400) = some ([c], none) := by
    rw [unit?, if_pos hlow, hsum, char?_toNat]
    rfl
  rw [String.append_assoc, String.toList_append, List.append_assoc,
    string_code (by omega) hfirst, string_code (by omega) hsecond]
  rfl

/-- Every character of a text is read back. -/
theorem string_jsonChar (written : List Char) (c : Char) (rest : List Char) :
    string written none ((Text.jsonChar c).toList ++ rest) = string (c :: written) none rest := by
  by_cases hquote : c = '"'
  · subst hquote
    rfl
  by_cases hback : c = '\\'
  · subst hback
    rfl
  by_cases hfeed : c = '\n'
  · subst hfeed
    rfl
  by_cases hreturn : c = '\r'
  · subst hreturn
    rfl
  by_cases htab : c = '\t'
  · subst htab
    rfl
  by_cases hbell : c.toNat = 0x08
  · obtain rfl : c = '\x08' := Char.toNat_inj.1 hbell
    rfl
  by_cases hform : c.toNat = 0x0c
  · obtain rfl : c = '\x0c' := Char.toNat_inj.1 hform
    rfl
  rw [Text.jsonChar, if_neg hquote, if_neg hback, if_neg hfeed, if_neg hreturn, if_neg htab,
    if_neg hbell, if_neg hform]
  by_cases hplain : 0x20 ≤ c.toNat ∧ c.toNat ≤ 0x7e
  · rw [if_pos hplain, String.toList_ofList]
    exact string_plain hquote hback hplain.1 written rest
  by_cases hshort : c.toNat < 0x10000
  · rw [if_neg hplain, if_pos hshort]
    exact string_short hshort written rest
  · rw [if_neg hplain, if_neg hshort]
    exact string_pair (Nat.not_lt.1 hshort) written rest

theorem string_jsonQuoted (written : List Char) (cs rest : List Char) :
    string written none (cs.flatMap (fun c => (Text.jsonChar c).toList) ++ '"' :: rest) =
      some (String.ofList (written.reverse ++ cs), rest) := by
  induction cs generalizing written with
  | nil =>
    have hblank : ¬ '"' < ' ' := by decide
    rw [List.flatMap_nil, List.nil_append, List.append_nil, string.eq_def]
    simp [hblank]
  | cons c cs ih =>
    rw [List.flatMap_cons, List.append_assoc, string_jsonChar, ih]
    simp

theorem toList_jsonQuoted (s : String) : (Text.jsonQuoted s).toList =
    '"' :: (s.toList.flatMap fun c => (Text.jsonChar c).toList) ++ ['"'] := by
  have hjoin : ∀ cs : List Char, (String.join (cs.map Text.jsonChar)).toList =
      cs.flatMap fun c => (Text.jsonChar c).toList := by
    intro cs
    induction cs with
    | nil => rfl
    | cons c cs ih => rw [List.map_cons, String.join_cons, String.toList_append, ih,
        List.flatMap_cons]
  rw [Text.jsonQuoted, String.toList_append, String.toList_append, hjoin]
  rfl

/-! ## Whole numbers -/

/-- What follows a value ends it: nothing, a comma, or a bracket or brace that closes. -/
def Ends (rest : List Char) : Prop :=
  ∀ c, rest.head? = some c → c = ',' ∨ c = ']' ∨ c = '\x7d'

theorem ends_nil : Ends [] := nofun

theorem ends_cons {c : Char} (h : c = ',' ∨ c = ']' ∨ c = '\x7d') (rest : List Char) :
    Ends (c :: rest) := by
  rintro _ ⟨⟩
  exact h

theorem Ends.not_digit {rest : List Char} (h : Ends rest) :
    rest.takeWhile Char.isDigit = [] := by
  cases rest with
  | nil => rfl
  | cons c rest =>
    rcases h c rfl with rfl | rfl | rfl <;> rfl

theorem Ends.pointPart {rest : List Char} (h : Ends rest) : pointPart rest = [] := by
  cases rest with
  | nil => rfl
  | cons c rest =>
    rcases h c rfl with rfl | rfl | rfl <;> rfl

theorem Ends.powerPart {rest : List Char} (h : Ends rest) : powerPart rest = [] := by
  cases rest with
  | nil => rfl
  | cons c rest =>
    rcases h c rfl with rfl | rfl | rfl <;> simp [Json.powerPart]

/-- The digits of a number are all that is taken. -/
theorem wholePart_toDigits (n : Nat) {rest : List Char} (h : Ends rest) :
    wholePart (Nat.toDigits 10 n ++ rest) = Nat.toDigits 10 n := by
  by_cases hn : n = 0
  · subst hn
    rw [Nat.toDigits_zero]
    rfl
  · rcases hdigits : Nat.toDigits 10 n with _ | ⟨c, more⟩
    · exact absurd hdigits Nat.toDigits_ne_nil
    · have hzero : c ≠ '0' := by
        rintro rfl
        exact Numeral.head_toDigits hn more hdigits
      have hall : ∀ x ∈ c :: more, x.isDigit = true := fun x hx =>
        Nat.isDigit_of_mem_toDigits (by decide) (by decide) (hdigits ▸ hx)
      rw [List.cons_append, wholePart, ← List.cons_append, List.takeWhile_append_of_pos hall,
        h.not_digit, List.append_nil]
      exact fun _ hc => hzero (List.cons.inj hc).1

theorem exists_toDigits (n : Nat) : ∃ c more, Nat.toDigits 10 n = c :: more ∧ c.isDigit = true := by
  rcases hdigits : Nat.toDigits 10 n with _ | ⟨c, more⟩
  · exact absurd hdigits Nat.toDigits_ne_nil
  · exact ⟨c, more, rfl, Nat.isDigit_of_mem_toDigits (b := 10) (n := n) (by decide) (by decide)
      (hdigits ▸ List.mem_cons_self)⟩

/-- A whole number is read back, if it is not too long. -/
theorem unsigned_toDigits (negative : Bool) {n : Nat} (hn : Numeral.isTooLong n = false)
    {rest : List Char} (h : Ends rest) : unsigned negative (Nat.toDigits 10 n ++ rest) =
      some (.int (if negative then -(n : Int) else n), rest) := by
  have hlen : ¬ Numeral.limit < (Nat.toDigits 10 n).length := by
    have hle : ∀ k, 0 < k → ¬ Nat.pow 10 k ≤ n → (Nat.toDigits 10 n).length ≤ k :=
      fun k hk hlt => (Nat.length_toDigits_le_iff (by decide) hk).2 (Nat.not_le.1 hlt)
    exact Nat.not_lt.2 (hle _ (by decide) (of_decide_eq_false hn))
  have hword : word "Infinity" (Nat.toDigits 10 n ++ rest) = none := by
    obtain ⟨c, more, hdigits, hc⟩ := exists_toDigits n
    have hne : c ≠ 'I' := by
      rintro rfl
      cases hc
    rw [hdigits, word, if_neg]
    simpa using fun hI => absurd hI.symm hne
  have hempty : (Nat.toDigits 10 n).isEmpty = false := by
    rw [List.isEmpty_eq_false_iff]
    exact Nat.toDigits_ne_nil
  unfold unsigned
  simp only [hword, wholePart_toDigits n h, List.drop_left, h.pointPart, List.length_nil,
    List.drop_zero, h.powerPart, hempty, List.isEmpty_nil, Bool.and_self, if_true,
    Bool.false_eq_true, if_false, if_neg hlen, Nat.add_zero,
    Numeral.valueOf_toDigits (show 1 < 10 by decide) (show 10 ≤ 16 by decide)]

theorem toList_toString (n : Int) : (toString n).toList =
    (if n < 0 then ['-'] else []) ++ Nat.toDigits 10 n.natAbs := by
  cases n with
  | ofNat n =>
    rw [if_neg (show ¬ Int.ofNat n < 0 from Int.not_lt.2 (Int.natCast_nonneg n)), List.nil_append]
    exact Nat.toList_repr
  | negSucc n =>
    rw [if_pos (Int.negSucc_lt_zero n)]
    change ("-" ++ Nat.repr (n + 1)).toList = _
    rw [String.toList_append, Nat.toList_repr]
    rfl

/-- A number starts with its sign or a digit. -/
theorem exists_toString (n : Int) : ∃ c more, (toString n).toList = c :: more ∧
    (c = '-' ∨ c.isDigit = true) := by
  obtain ⟨c, more, hdigits, hc⟩ := exists_toDigits n.natAbs
  rw [toList_toString, hdigits]
  split_ifs
  · exact ⟨'-', c :: more, rfl, .inl rfl⟩
  · exact ⟨c, more, rfl, .inr hc⟩

theorem number_toString {n : Int} (hn : Numeral.isTooLong n.natAbs = false) {rest : List Char}
    (h : Ends rest) : number ((toString n).toList ++ rest) = some (.int n, rest) := by
  rw [toList_toString]
  split_ifs with hneg
  · have hread := unsigned_toDigits true hn h
    rw [if_pos rfl, show -(n.natAbs : Int) = n by omega] at hread
    exact hread
  · have hread := unsigned_toDigits false hn h
    rw [if_neg Bool.false_ne_true, show (n.natAbs : Int) = n by omega] at hread
    obtain ⟨c, more, hdigits, hc⟩ := exists_toDigits n.natAbs
    rw [hdigits] at hread
    rw [List.nil_append, hdigits, List.cons_append, number, ← List.cons_append, hread]
    rintro _ ⟨⟩
    cases hc

end Json

/-! ## Values -/

/-- The text that a key comes back as. -/
def Scalar.keyText : Scalar → String
  | .text s => s
  | .moment m => m.literal
  | s => s.json

theorem Scalar.jsonKeyBy_eq (k : Scalar) :
    k.jsonKeyBy Text.jsonQuoted = Text.jsonQuoted k.keyText := by
  cases k <;> rfl

namespace Datum

mutual

/-- What a value comes back as. -/
def asRead : Datum → Datum
  | .scalar (.moment m) => .text m.literal
  | .scalar s => .scalar s
  | .list items => .list (itemsAsRead items)
  | .mapping entries => .mapping (Assoc.ofList (entriesAsRead entries))

/-- What items come back as. -/
def itemsAsRead : List Datum → List Datum
  | [] => []
  | d :: rest => asRead d :: itemsAsRead rest

/-- What entries come back as. -/
def entriesAsRead : List (Scalar × Datum) → List (Scalar × Datum)
  | [] => []
  | (k, d) :: rest => (.text k.keyText, asRead d) :: entriesAsRead rest

end

mutual

/-- Whether no number in a value has a point. -/
def isPointless : Datum → Bool
  | .scalar (.real _) => false
  | .scalar _ => true
  | .list items => arePointless items
  | .mapping entries => arePointlessEntries entries

/-- Whether no number in items has a point. -/
def arePointless : List Datum → Bool
  | [] => true
  | d :: rest => isPointless d && arePointless rest

/-- Whether no number in the values of entries has a point. -/
def arePointlessEntries : List (Scalar × Datum) → Bool
  | [] => true
  | (_, d) :: rest => isPointless d && arePointlessEntries rest

end

end Datum

namespace Json

theorem skip_cons {c : Char} (h : isBlank c = false) (rest : List Char) :
    skip (c :: rest) = c :: rest := by
  rw [skip, List.dropWhile_cons_of_neg (by simp [h])]

theorem value_text (fuel : Nat) (s : String) (rest : List Char) :
    value (fuel + 1) ((Text.jsonQuoted s).toList ++ rest) = some (.text s, rest) := by
  rw [toList_jsonQuoted, List.cons_append, List.cons_append, List.append_assoc]
  change ((string [] none _).map fun x => (Datum.text x.1, x.2)) = _
  rw [List.singleton_append, string_jsonQuoted]
  simp

theorem not_blank {c : Char} (hc : c = '-' ∨ c.isDigit = true) : isBlank c = false := by
  rw [Bool.eq_false_iff]
  intro hblank
  simp only [isBlank, Bool.or_eq_true, beq_iff_eq] at hblank
  rcases hblank with ((rfl | rfl) | rfl) | rfl <;> revert hc <;> decide

/-- What starts with a sign or a digit is read as a number. -/
theorem value_number (fuel : Nat) {c : Char} (hc : c = '-' ∨ c.isDigit = true) (rest : List Char) :
    value (fuel + 1) (c :: rest) = (number (c :: rest)).map fun x => (.scalar x.1, x.2) := by
  rw [value.eq_def]
  simp only [skip_cons (not_blank hc)]
  split <;> simp_all

/-- A scalar is read back. -/
theorem value_scalar {s : Scalar} (hw : s.jsonFault? = none)
    (hp : Datum.isPointless (.scalar s) = true) (fuel : Nat) {rest : List Char} (h : Ends rest) :
    value (fuel + 1) (s.json.toList ++ rest) = some (Datum.asRead (.scalar s), rest) := by
  cases s with
  | null => rfl
  | bool b => cases b <;> rfl
  | int n =>
    have hlen : Numeral.isTooLong n.natAbs = false := by
      cases hlong : Numeral.isTooLong n.natAbs with
      | false => rfl
      | true =>
        rw [Scalar.jsonFault?, Scalar.isWritable, hlong] at hw
        cases hw
    obtain ⟨c, more, hlist, hc⟩ := exists_toString n
    have hread := number_toString hlen h
    change value (fuel + 1) ((toString n).toList ++ rest) = _
    rw [hlist] at hread ⊢
    rw [List.cons_append, value_number fuel hc, ← List.cons_append, hread]
    rfl
  | real x => cases hp
  | moment m => exact value_text fuel m.literal rest
  | text t => exact value_text fuel t rest

/-! ## Lists and mappings -/

theorem value_blank (fuel : Nat) (rest : List Char) :
    value fuel (' ' :: rest) = value fuel rest := by
  cases fuel with
  | zero => rfl
  | succ fuel => rfl

theorem items_blank (fuel : Nat) (read : List Datum) (rest : List Char) :
    items fuel read (' ' :: rest) = items fuel read rest := by
  cases fuel with
  | zero => rfl
  | succ fuel => simp only [items, value_blank]

theorem entries_blank (fuel : Nat) (read : List (Scalar × Datum)) (rest : List Char) :
    entries fuel read (' ' :: rest) = entries fuel read rest := by
  cases fuel with
  | zero => rfl
  | succ fuel => rfl

theorem value_list (fuel : Nat) {c : Char} (hblank : isBlank c = false) (hclose : c ≠ ']')
    (rest : List Char) : value (fuel + 1) ('[' :: c :: rest) = items fuel [] (c :: rest) := by
  rw [value.eq_def]
  simp only [skip_cons (show isBlank '[' = false from rfl), skip_cons hblank]
  split
  · rename_i heq
    exact absurd (List.cons.inj heq).1 hclose
  · rfl

theorem items_last {fuel : Nat} {cs rest : List Char} {d : Datum}
    (h : value fuel cs = some (d, ']' :: rest)) (read : List Datum) :
    items (fuel + 1) read cs = some (.list (d :: read).reverse, rest) := by
  rw [items.eq_def]
  simp only [h, skip_cons (show isBlank ']' = false from rfl)]

theorem items_more {fuel : Nat} {cs rest : List Char} {d : Datum}
    (h : value fuel cs = some (d, ',' :: ' ' :: rest)) (read : List Datum) :
    items (fuel + 1) read cs = items fuel (d :: read) rest := by
  rw [items.eq_def]
  simp only [h, skip_cons (show isBlank ',' = false from rfl), items_blank]

/-- An entry starts with its key, a colon and a blank. -/
def keyStart (key : String) : List Char :=
  (Text.jsonQuoted key).toList ++ [':', ' ']

theorem entries_last {fuel : Nat} {cs rest : List Char} {d : Datum}
    (h : value fuel cs = some (d, '\x7d' :: rest)) (read : List (Scalar × Datum)) (key : String) :
    entries (fuel + 1) read (keyStart key ++ cs) =
      some (.mapping (Assoc.insert read (.text key) d), rest) := by
  rw [entries.eq_def, keyStart, toList_jsonQuoted]
  simp only [List.cons_append, List.append_assoc, skip_cons (show isBlank '"' = false from rfl),
    List.nil_append, string_jsonQuoted, skip_cons (show isBlank ':' = false from rfl), value_blank,
    h, skip_cons (show isBlank '\x7d' = false from rfl), List.reverse_nil, String.ofList_toList]

theorem entries_more {fuel : Nat} {cs rest : List Char} {d : Datum}
    (h : value fuel cs = some (d, ',' :: ' ' :: rest)) (read : List (Scalar × Datum))
    (key : String) : entries (fuel + 1) read (keyStart key ++ cs) =
      entries fuel (Assoc.insert read (.text key) d) rest := by
  rw [entries.eq_def, keyStart, toList_jsonQuoted]
  simp only [List.cons_append, List.append_assoc, skip_cons (show isBlank '"' = false from rfl),
    List.nil_append, string_jsonQuoted, skip_cons (show isBlank ':' = false from rfl), value_blank,
    h, skip_cons (show isBlank ',' = false from rfl), List.reverse_nil, String.ofList_toList,
    entries_blank]

/-- The text of items between the brackets. -/
def itemsText (ds : List Datum) : List Char :=
  (String.intercalate ", " (Datum.jsonsBy Text.jsonQuoted ds)).toList

theorem itemsText_singleton (d : Datum) : itemsText [d] = d.json.toList :=
  congrArg String.toList (String.intercalate_singleton ..)

theorem itemsText_cons (d next : Datum) (ds : List Datum) :
    itemsText (d :: next :: ds) = d.json.toList ++ ',' :: ' ' :: itemsText (next :: ds) := by
  simp only [itemsText, Datum.jsonsBy, String.intercalate_cons_cons, String.toList_append,
    List.append_assoc]
  rfl

theorem toList_json_list (ds : List Datum) :
    (Datum.json (.list ds)).toList = '[' :: (itemsText ds ++ [']']) := by
  change ("[" ++ String.intercalate ", " _ ++ "]").toList = _
  rw [String.toList_append, String.toList_append]
  rfl

/-- The text of entries between the braces. -/
def entriesText (es : List (Scalar × Datum)) : List Char :=
  (String.intercalate ", " (Datum.entryJsonsBy Text.jsonQuoted es)).toList

theorem toList_entry (k : Scalar) (d : Datum) :
    (k.jsonKeyBy Text.jsonQuoted ++ ": " ++ d.json).toList =
      keyStart k.keyText ++ d.json.toList := by
  rw [String.toList_append, String.toList_append, k.jsonKeyBy_eq]
  rfl

theorem entriesText_singleton (k : Scalar) (d : Datum) :
    entriesText [(k, d)] = keyStart k.keyText ++ d.json.toList :=
  (congrArg String.toList (String.intercalate_singleton ..)).trans (toList_entry k d)

theorem entriesText_cons (k : Scalar) (d : Datum) (next : Scalar × Datum)
    (es : List (Scalar × Datum)) : entriesText ((k, d) :: next :: es) =
      keyStart k.keyText ++ (d.json.toList ++ ',' :: ' ' :: entriesText (next :: es)) := by
  rw [entriesText, Datum.entryJsonsBy, Datum.entryJsonsBy, String.intercalate_cons_cons,
    String.toList_append, String.toList_append, ← Datum.entryJsonsBy]
  change (k.jsonKeyBy Text.jsonQuoted ++ ": " ++ d.json).toList ++ _ ++ _ = _
  rw [toList_entry, List.append_assoc, List.append_assoc]
  rfl

theorem toList_json_mapping (es : List (Scalar × Datum)) :
    (Datum.json (.mapping es)).toList = '\x7b' :: (entriesText es ++ ['\x7d']) := by
  change ("\x7b" ++ String.intercalate ", " _ ++ "\x7d").toList = _
  rw [String.toList_append, String.toList_append]
  rfl

/-- No value starts with a blank or with a bracket that closes. -/
theorem head_json {d : Datum} (hp : d.isPointless = true) :
    ∃ c more, d.json.toList = c :: more ∧ isBlank c = false ∧ c ≠ ']' := by
  cases d with
  | scalar s =>
    cases s with
    | null => exact ⟨'n', _, rfl, rfl, by decide⟩
    | bool b => cases b <;> exact ⟨_, _, rfl, rfl, by decide⟩
    | int n =>
      obtain ⟨c, more, hlist, hc⟩ := exists_toString n
      refine ⟨c, more, hlist, not_blank hc, ?_⟩
      rintro rfl
      revert hc
      decide
    | real x => cases hp
    | moment m => exact ⟨'"', _, toList_jsonQuoted m.literal, rfl, by decide⟩
    | text t => exact ⟨'"', _, toList_jsonQuoted t, rfl, by decide⟩
  | list ds => exact ⟨'[', _, toList_json_list ds, rfl, by decide⟩
  | mapping es => exact ⟨'\x7b', _, toList_json_mapping es, rfl, by decide⟩

theorem head_itemsText {d : Datum} (hp : d.isPointless = true) (ds : List Datum) :
    ∃ c more, itemsText (d :: ds) = c :: more ∧ isBlank c = false ∧ c ≠ ']' := by
  obtain ⟨c, more, hhead, hc⟩ := head_json hp
  cases ds with
  | nil => exact ⟨c, more, (itemsText_singleton d).trans hhead, hc⟩
  | cons next ds =>
    rw [itemsText_cons, hhead]
    exact ⟨c, _, rfl, hc⟩

theorem head_entriesText (entry : Scalar × Datum) (es : List (Scalar × Datum)) :
    ∃ more, entriesText (entry :: es) = '"' :: more := by
  obtain ⟨k, d⟩ := entry
  have hkey : ∀ behind, ∃ more, keyStart k.keyText ++ behind = '"' :: more := by
    intro behind
    rw [keyStart, toList_jsonQuoted]
    exact ⟨_, rfl⟩
  cases es with
  | nil =>
    rw [entriesText_singleton]
    exact hkey _
  | cons next es =>
    rw [entriesText_cons]
    exact hkey _

mutual

/-- A value is read back from its JSON. -/
theorem value_json : ∀ {d : Datum}, d.jsonFault? = none → d.isPointless = true →
    ∀ {fuel : Nat}, 2 * d.json.toList.length < fuel → ∀ {rest : List Char}, Ends rest →
      value fuel (d.json.toList ++ rest) = some (d.asRead, rest)
  | .scalar s, hw, hp, fuel + 1, _, rest, hends => value_scalar hw hp fuel hends
  | .list [], _, _, fuel + 1, _, rest, _ => rfl
  | .list (d :: ds), hw, hp, fuel + 1, hfuel, rest, _ => by
    obtain ⟨c, more, hhead, hblank, hclose⟩ := head_itemsText (Bool.and_eq_true_iff.1 hp).1 ds
    rw [toList_json_list, List.length_cons, List.length_append, List.length_singleton] at hfuel
    have hread := items_json (List.cons_ne_nil d ds) hw hp
      (show 2 * (itemsText (d :: ds)).length + 1 < fuel by omega) [] rest
    rw [toList_json_list]
    rw [hhead] at hread ⊢
    rw [List.cons_append, List.cons_append, List.cons_append, value_list fuel hblank hclose,
      List.append_assoc]
    exact hread
  | .mapping [], _, _, fuel + 1, _, rest, _ => rfl
  | .mapping (entry :: es), hw, hp, fuel + 1, hfuel, rest, _ => by
    obtain ⟨more, hhead⟩ := head_entriesText entry es
    rw [toList_json_mapping, List.length_cons, List.length_append, List.length_singleton] at hfuel
    have hread := entries_json (List.cons_ne_nil entry es) hw hp
      (show 2 * (entriesText (entry :: es)).length + 1 < fuel by omega) [] rest
    rw [toList_json_mapping, List.cons_append, List.append_assoc]
    rw [hhead] at hread ⊢
    exact hread

/-- Items are read back up to the bracket that closes. -/
theorem items_json : ∀ {ds : List Datum}, ds ≠ [] → Datum.itemsFault? ds = none →
    Datum.arePointless ds = true → ∀ {fuel : Nat}, 2 * (itemsText ds).length + 1 < fuel →
    ∀ (read : List Datum) (rest : List Char), items fuel read (itemsText ds ++ ']' :: rest) =
      some (.list (read.reverse ++ Datum.itemsAsRead ds), rest)
  | [], hne, _, _, _, _, _, _ => absurd rfl hne
  | [d], _, hw, hp, fuel + 1, hfuel, read, rest => by
    rw [itemsText_singleton] at hfuel ⊢
    have hends : Ends (']' :: rest) := ends_cons (.inr (.inl rfl)) rest
    have hvalue := value_json (Option.or_eq_none_iff.1 hw).1 (Bool.and_eq_true_iff.1 hp).1
      (show 2 * d.json.toList.length < fuel by omega) hends
    rw [items_last hvalue, List.reverse_cons]
    rfl
  | d :: next :: ds, _, hw, hp, fuel + 1, hfuel, read, rest => by
    rw [itemsText_cons, List.length_append, List.length_cons, List.length_cons] at hfuel
    rw [itemsText_cons, List.append_assoc, List.cons_append, List.cons_append]
    have hends : Ends (',' :: ' ' :: (itemsText (next :: ds) ++ ']' :: rest)) :=
      ends_cons (.inl rfl) _
    have hvalue := value_json (Option.or_eq_none_iff.1 hw).1 (Bool.and_eq_true_iff.1 hp).1
      (show 2 * d.json.toList.length < fuel by omega) hends
    have hmore := items_json (List.cons_ne_nil next ds) (Option.or_eq_none_iff.1 hw).2
      (Bool.and_eq_true_iff.1 hp).2 (show 2 * (itemsText (next :: ds)).length + 1 < fuel by omega)
      (d.asRead :: read) rest
    rw [items_more hvalue, hmore, List.reverse_cons, List.append_assoc]
    rfl

/-- Entries are read back up to the brace that closes. -/
theorem entries_json : ∀ {es : List (Scalar × Datum)}, es ≠ [] → Datum.entriesFault? es = none →
    Datum.arePointlessEntries es = true → ∀ {fuel : Nat},
    2 * (entriesText es).length + 1 < fuel → ∀ (read : List (Scalar × Datum)) (rest : List Char),
      entries fuel read (entriesText es ++ '\x7d' :: rest) =
        some (.mapping ((Datum.entriesAsRead es).foldl
          (fun entries pair => Assoc.insert entries pair.1 pair.2) read), rest)
  | [], hne, _, _, _, _, _, _ => absurd rfl hne
  | [(k, d)], _, hw, hp, fuel + 1, hfuel, read, rest => by
    rw [entriesText_singleton, List.length_append] at hfuel
    have hends : Ends ('\x7d' :: rest) := ends_cons (.inr (.inr rfl)) rest
    have hfault := (Option.or_eq_none_iff.1 (Option.or_eq_none_iff.1 hw).1).2
    have hvalue := value_json hfault (Bool.and_eq_true_iff.1 hp).1
      (show 2 * d.json.toList.length < fuel by omega) hends
    rw [entriesText_singleton, List.append_assoc]
    exact entries_last hvalue read k.keyText
  | (k, d) :: next :: es, _, hw, hp, fuel + 1, hfuel, read, rest => by
    rw [entriesText_cons, List.length_append, List.length_append, List.length_cons,
      List.length_cons] at hfuel
    have hends : Ends (',' :: ' ' :: (entriesText (next :: es) ++ '\x7d' :: rest)) :=
      ends_cons (.inl rfl) _
    have hfault := (Option.or_eq_none_iff.1 (Option.or_eq_none_iff.1 hw).1).2
    have hvalue := value_json hfault (Bool.and_eq_true_iff.1 hp).1
      (show 2 * d.json.toList.length < fuel by omega) hends
    rw [entriesText_cons, List.append_assoc, List.append_assoc, List.cons_append, List.cons_append,
      entries_more hvalue]
    exact entries_json (List.cons_ne_nil next es) (Option.or_eq_none_iff.1 hw).2
      (Bool.and_eq_true_iff.1 hp).2
      (show 2 * (entriesText (next :: es)).length + 1 < fuel by omega) _ rest

end

/-- A value is read back from its JSON: what it is, up to days, times and keys, which are texts. -/
theorem parse?_json {d : Datum} (hw : d.jsonFault? = none) (hp : d.isPointless = true) :
    parse? d.json = some d.asRead := by
  have hfuel : 2 * d.json.toList.length < 2 * d.json.length + 2 := by
    rw [String.length_toList]
    omega
  have hread := value_json hw hp hfuel ends_nil
  rw [List.append_nil] at hread
  rw [parse?, hread]
  rfl

end Json

end Retouch
