import Mathlib.Data.List.Nodup
import Retouch.Logging.Routing
import Retouch.Proofs.JsonReading
import Retouch.Proofs.Merging

/-!
# What log lines tell

A line tells the event that it was written for (`LogFormat.Tells`). A line of JSON is read as a
record with the event's message, level, logger and time, and with its fields. A line of console text
has the same four in a row, and every field without a column of its own next to its name. Events
whose fields can be written have such a line in every format (`exists_line`).
-/

namespace Retouch

namespace Assoc

variable {κ α : Type} [BEq κ]

/-- The last pair of a key is the one that counts. -/
theorem get?_ofList [PartialEquivBEq κ] (pairs : List (κ × α)) (x : κ) :
    get? (ofList pairs) x = get? pairs.reverse x := by
  induction pairs using List.reverseRecOn with
  | nil => rfl
  | append_singleton pairs pair ih =>
    rw [ofList, List.foldl_append, List.foldl_cons, List.foldl_nil, ← ofList, get?_insert, ih,
      List.reverse_append]
    rfl

theorem get?_map {β ι : Type} [BEq ι] {key : ι → κ} (hkey : ∀ a b, (key a == key b) = (a == b))
    (f : α → β) (entries : List (ι × α)) (x : ι) :
    get? (entries.map fun entry => (key entry.1, f entry.2)) (key x) = (get? entries x).map f := by
  induction entries with
  | nil => rfl
  | cons entry rest ih =>
    rw [List.map_cons, get?, get?, hkey]
    split_ifs
    · rfl
    · exact ih

theorem get?_filter [LawfulBEq κ] (p : κ → Bool) (entries : List (κ × α)) (x : κ) :
    get? (entries.filter fun entry => p entry.1) x = if p x then get? entries x else none := by
  induction entries with
  | nil => exact (ite_self none).symm
  | cons entry rest ih =>
    obtain ⟨k, a⟩ := entry
    by_cases hk : k = x
    · subst hk
      cases hp : p k <;> simp_all [get?]
    · cases hp : p k <;> simp_all [get?]

/-- Where no key stands twice, the order of the entries does not count. -/
theorem get?_reverse [LawfulBEq κ] {entries : List (κ × α)} (h : (keys entries).Nodup) (x : κ) :
    get? entries.reverse x = get? entries x := by
  have hreverse : (keys entries.reverse).Nodup := by
    rw [keys, List.map_reverse, List.nodup_reverse]
    exact h
  apply Option.ext
  intro a
  rw [get?_eq_some_iff hreverse, get?_eq_some_iff h, List.mem_reverse]

end Assoc

theorem Scalar.text_beq_text (a b : String) : (Scalar.text a == Scalar.text b) = (a == b) := by
  simp [BEq.beq, Scalar.asKey]

/-! ## Records -/

namespace Datum

theorem entriesAsRead_map (entries : List (String × Datum)) :
    entriesAsRead (entries.map fun entry => (.text entry.1, entry.2)) =
      entries.map fun entry => (.text entry.1, entry.2.asRead) := by
  induction entries with
  | nil => rfl
  | cons entry rest ih => exact congrArg (_ :: ·) ih

theorem entriesFault?_map {entries : List (String × Datum)}
    (h : ∀ entry ∈ entries, entry.2.jsonFault? = none) :
    entriesFault? (entries.map fun entry => (.text entry.1, entry.2)) = none := by
  induction entries with
  | nil => rfl
  | cons entry rest ih =>
    rw [List.forall_mem_cons] at h
    rw [List.map_cons, entriesFault?, h.1, ih h.2]
    rfl

theorem arePointlessEntries_map {entries : List (String × Datum)}
    (h : ∀ entry ∈ entries, entry.2.isPointless = true) :
    arePointlessEntries (entries.map fun entry => (.text entry.1, entry.2)) = true := by
  induction entries with
  | nil => rfl
  | cons entry rest ih =>
    rw [List.forall_mem_cons] at h
    rw [List.map_cons, arePointlessEntries, h.1, ih h.2]
    rfl

end Datum

namespace Event

variable {e : Event} {stamp : String}

/-- What a record of the event has under a name. -/
def told (e : Event) (stamp name : String) : Option Datum :=
  if name = "event" then some (.text e.message)
  else if name = "level" then some (.text e.level.label)
  else if name = "logger" then some (.text e.logger)
  else if name = "timestamp" then some (.text stamp)
  else if name ∈ internal then none
  else (Assoc.get? e.fields name).map Datum.asRead

/-- The fields have different names and can be written, and those that follow a line of console
text are text. Numbers with a point are left out. -/
structure Sound (e : Event) : Prop where
  names : (Assoc.keys e.fields).Nodup
  writable : ∀ field ∈ e.fields, field.2.jsonFault? = none
  pointless : ∀ field ∈ e.fields, field.2.isPointless = true
  behind : ∀ field ∈ e.fields, field.1 = "stack" ∨ field.1 = "exception" →
    field.2 = .null ∨ ∃ s, field.2 = .text s

theorem mem_put {fields : List (String × Datum)} {names : List (String × String)}
    {entry : String × Datum} (h : entry ∈ put fields names) :
    entry ∈ fields ∨ ∃ s, entry.2 = .text s := by
  induction names generalizing fields with
  | nil => exact .inl h
  | cons name rest ih =>
    rcases ih h with h | h
    · exact (Assoc.mem_insert h).symm.imp_right fun hs => ⟨name.2, hs⟩
    · exact .inr h

theorem nodup_put {fields : List (String × Datum)} (h : (Assoc.keys fields).Nodup)
    (names : List (String × String)) : (Assoc.keys (put fields names)).Nodup := by
  induction names generalizing fields with
  | nil => exact h
  | cons name rest ih => exact ih (Assoc.nodup_keys_insert h _ _)

theorem mem_outward {field : String × Datum} :
    field ∈ e.outward.fields ↔ field ∈ e.fields ∧ field.1 ∉ internal := by
  simp [outward]

theorem Sound.outward (h : e.Sound) : e.outward.Sound where
  names := h.names.sublist (List.filter_sublist.map _)
  writable field hf := h.writable field (mem_outward.1 hf).1
  pointless field hf := h.pointless field (mem_outward.1 hf).1
  behind field hf := h.behind field (mem_outward.1 hf).1

/-- The record of a sound event can be written. -/
theorem Sound.datum (h : e.Sound) (stamp : String) :
    (e.datum stamp).jsonFault? = none ∧ (e.datum stamp).isPointless = true := by
  constructor
  · refine Datum.entriesFault?_map fun entry he => ?_
    rcases mem_put he with hf | ⟨s, hs⟩
    · exact h.writable entry hf
    · rw [hs]
      rfl
  · refine Datum.arePointlessEntries_map fun entry he => ?_
    rcases mem_put he with hf | ⟨s, hs⟩
    · exact h.pointless entry hf
    · rw [hs]
      rfl

theorem get?_entries (e : Event) (stamp name : String) : Assoc.get? (e.entries stamp) name =
    if name = "event" then some (.text e.message)
    else if name = "level" then some (.text e.level.label)
    else if name = "logger" then some (.text e.logger)
    else if name = "timestamp" then some (.text stamp)
    else Assoc.get? e.fields name := by
  simp only [entries, put, List.foldl_cons, List.foldl_nil, Assoc.get?_insert, beq_iff_eq]
  grind

/-- A line of JSON is read as the record of its event. -/
theorem Sound.jsonLine (h : e.Sound) (stamp : String) :
    ∃ line record, e.jsonLine stamp = .ok line ∧ Json.parse? line = some (.mapping record) ∧
      ∀ name, Assoc.get? record (.text name) = e.told stamp name := by
  obtain ⟨hfault, hpoint⟩ := h.outward.datum stamp
  refine ⟨_, _, ?_, (Json.parse?_json hfault hpoint).trans rfl, fun name => ?_⟩
  · rw [Event.jsonLine, hfault]
  · have hnames : (Assoc.keys (e.outward.entries stamp)).Nodup := nodup_put h.outward.names _
    have hfields : Assoc.get? e.outward.fields name =
        if name ∈ internal then none else Assoc.get? e.fields name := by
      refine (Assoc.get?_filter (fun name => !internal.contains name) e.fields name).trans ?_
      by_cases hname : name ∈ internal <;> simp [hname]
    rw [Datum.entriesAsRead_map, Assoc.get?_ofList, ← List.map_reverse,
      Assoc.get?_map Scalar.text_beq_text, Assoc.get?_reverse hnames, get?_entries, hfields, told]
    split_ifs <;> rfl

end Event

/-! ## Words -/

/-- A text that ends with something else than a space. -/
def Firm (s : String) : Prop :=
  ∃ front c, s.toList = front ++ [c] ∧ c ≠ ' '

namespace Firm

theorem append (s : String) {t : String} (h : Firm t) : Firm (s ++ t) := by
  obtain ⟨front, c, ht, hc⟩ := h
  exact ⟨s.toList ++ front, c, by rw [String.toList_append, ht, List.append_assoc], hc⟩

theorem bracketed (s : String) : Firm (s ++ "]") :=
  append s ⟨[], ']', rfl, by decide⟩

theorem of_not_mem {s : String} (hne : s.toList ≠ []) (h : ' ' ∉ s.toList) : Firm s := by
  refine ⟨_, _, (List.dropLast_append_getLast hne).symm, fun hlast => h ?_⟩
  exact hlast ▸ List.getLast_mem hne

theorem ne_empty {s : String} (h : Firm s) : s.isEmpty = false := by
  obtain ⟨front, c, hs, -⟩ := h
  rw [Bool.eq_false_iff, ne_eq, String.isEmpty_iff]
  rintro rfl
  simp at hs

theorem trimEnd {s : String} (h : Firm s) : Event.trimEnd s = s := by
  obtain ⟨front, c, hs, hc⟩ := h
  rw [Event.trimEnd, hs, List.reverse_append, List.reverse_singleton, List.singleton_append,
    List.dropWhile_cons_of_neg (by simpa using hc), ← List.singleton_append,
    ← List.reverse_singleton, ← List.reverse_append, List.reverse_reverse, ← hs,
    String.ofList_toList]

theorem cons (s : String) {words : List String} (h : Firm (String.intercalate " " words)) :
    Firm (String.intercalate " " (s :: words)) := by
  cases words with
  | nil => exact absurd h.ne_empty (by decide)
  | cons t words =>
    rw [String.intercalate_cons_cons]
    exact h.append _

/-- Words end like the last of them. -/
theorem intercalate (front : List String) {back : List String} (hne : back ≠ [])
    (h : ∀ s ∈ back, Firm s) : Firm (String.intercalate " " (front ++ back)) := by
  induction front with
  | nil =>
    induction back with
    | nil => exact absurd rfl hne
    | cons s back ih =>
      rw [List.forall_mem_cons] at h
      cases back with
      | nil => simpa using h.1
      | cons t back => exact cons s (ih (List.cons_ne_nil t back) h.2)
  | cons s front ih => exact cons s ih

theorem quoted (s : String) : Firm (Text.quoted s) := by
  refine append _ ⟨[], Text.quoteFor s, String.toList_ofList, ?_⟩
  unfold Text.quoteFor
  split_ifs <;> decide

theorem scalarLiteral {s : Scalar} (hp : Datum.isPointless (.scalar s) = true) :
    Firm s.literal := by
  cases s with
  | null => exact ⟨"Non".toList, 'e', rfl, by decide⟩
  | bool b =>
    cases b
    · exact ⟨"Fals".toList, 'e', rfl, by decide⟩
    · exact ⟨"Tru".toList, 'e', rfl, by decide⟩
  | int n =>
    obtain ⟨c, more, hlist, -⟩ := Json.exists_toString n
    refine of_not_mem (fun hnil => ?_) fun hblank => ?_
    · rw [show (toString n).toList = [] from hnil] at hlist
      cases hlist
    · rw [show (Scalar.int n).literal.toList = _ from Json.toList_toString n,
        List.mem_append] at hblank
      rcases hblank with hsign | hdigit
      · split_ifs at hsign <;> simp at hsign
      · exact absurd (Nat.isDigit_of_mem_toDigits (by decide) (by decide) hdigit) (by decide)
  | real x => cases hp
  | moment m =>
    cases m with
    | day d => exact append _ ⟨[], ')', rfl, by decide⟩
    | time d t offset => exact append _ ⟨[], ')', rfl, by decide⟩
  | text t => exact quoted t

theorem literal {d : Datum} (hp : d.isPointless = true) : Firm d.literal := by
  cases d with
  | scalar s => exact scalarLiteral hp
  | list ds => exact bracketed _
  | mapping es => exact append _ ⟨[], '\x7d', rfl, by decide⟩

/-- A field ends with its value, or with the sign before it if the value is an empty text. -/
theorem pairText {entry : String × Datum} (hp : entry.2.isPointless = true) :
    Firm (Event.pairText entry) := by
  unfold Event.pairText Event.fieldText
  split
  · rename_i t _
    split_ifs with hquotes
    · exact append _ (quoted t)
    · by_cases hnil : t.toList = []
      · rw [String.toList_eq_nil_iff.1 hnil, String.append_empty]
        exact append _ ⟨[], '=', rfl, by decide⟩
      · exact append _ (of_not_mem hnil fun hblank =>
          hquotes (List.any_eq_true.2 ⟨' ', hblank, rfl⟩))
  · exact append _ (literal hp)

end Firm

theorem Scalar.isWritable_of_jsonFault? {s : Scalar} (h : s.jsonFault? = none) :
    s.isWritable = true := by
  rw [Scalar.jsonFault?] at h
  split_ifs at h with hs
  exact hs

theorem Scalar.isWritable_of_keyFault? {k : Scalar} (h : k.keyFault? = none) :
    k.isWritable = true := by
  cases k with
  | moment m => rfl
  | _ => exact isWritable_of_jsonFault? h

namespace Datum

mutual

/-- What can be written as JSON can be written for readers. -/
theorem isWritable_of_jsonFault? : ∀ d : Datum, d.jsonFault? = none → d.isWritable = true
  | .scalar _, h => Scalar.isWritable_of_jsonFault? h
  | .list ds, h => areWritable_of_itemsFault? ds h
  | .mapping es, h => areWritable_of_entriesFault? es h

theorem areWritable_of_itemsFault? : ∀ ds : List Datum, itemsFault? ds = none →
    areWritable ds = true
  | [], _ => rfl
  | d :: ds, h => by
    rw [itemsFault?, Option.or_eq_none_iff] at h
    rw [areWritable, isWritable_of_jsonFault? d h.1, areWritable_of_itemsFault? ds h.2]
    rfl

theorem areWritable_of_entriesFault? : ∀ es : List (Scalar × Datum),
    entriesFault? es = none → areWritableEntries es = true
  | [], _ => rfl
  | (k, d) :: es, h => by
    rw [entriesFault?, Option.or_eq_none_iff, Option.or_eq_none_iff] at h
    rw [areWritableEntries, Scalar.isWritable_of_keyFault? h.1.1,
      isWritable_of_jsonFault? d h.1.2, areWritable_of_entriesFault? es h.2]
    rfl

end

end Datum

namespace Event

variable {e : Event}

/-- The words that stand in a row in every line of console text. -/
def heading (e : Event) (stamp : String) : List String :=
  [stamp, "[" ++ e.level.label ++ "]", e.message].filter (fun s => !s.isEmpty) ++
    ["[" ++ e.logger ++ "]"]

/-- Parts are left as they are where the last of them do not end with a space. -/
theorem assemble_eq (front : List String) {back : List String} (hne : back ≠ [])
    (h : ∀ s ∈ back, Firm s) : assemble (front ++ back) =
      String.intercalate " " (front.filter (fun s => !s.isEmpty) ++ back) := by
  have hback : back.filter (fun s => !s.isEmpty) = back :=
    List.filter_eq_self.2 fun s hs => by rw [(h s hs).ne_empty]; rfl
  rw [assemble, List.filter_append, hback, (Firm.intercalate _ hne h).trimEnd]

theorem firm_tagged {fields : List (String × Datum)} {name s : String}
    (h : s ∈ tagged fields name) : Firm s := by
  obtain ⟨d, -, rfl⟩ := List.mem_map.1 h
  exact Firm.bracketed _

theorem mem_fieldTexts {fields : List (String × Datum)} {s : String} : s ∈ fieldTexts fields ↔
    ∃ field ∈ fields, field.1 ∉ placed ∧ field.1 ++ "=" ++ fieldText field.2 = s := by
  simp only [fieldTexts, List.mem_map, List.mem_mergeSort, List.mem_filter, pairText, and_assoc,
    Bool.not_eq_true', List.contains_eq_mem, decide_eq_false_iff_not]

/-- The words of columns and fields, the last column not ending with a space. -/
theorem columns_eq {fields : List (String × Datum)}
    (hp : ∀ field ∈ fields, field.2.isPointless = true) (front : List String) {last : String}
    (hlast : Firm last) : columns fields (front ++ [last]) =
      String.intercalate " " ((unnamed fields ++ front).filter (fun s => !s.isEmpty) ++
        last :: (tagged fields "logger_name" ++ fieldTexts fields)) ++ trailer fields := by
  have hfirm : ∀ s ∈ last :: (tagged fields "logger_name" ++ fieldTexts fields), Firm s := by
    intro s hs
    rcases List.mem_cons.1 hs with rfl | hs
    · exact hlast
    · rcases List.mem_append.1 hs with hs | hs
      · exact firm_tagged hs
      · obtain ⟨field, hf, -, rfl⟩ := mem_fieldTexts.1 hs
        exact Firm.pairText (hp field hf)
  rw [columns, ← assemble_eq _ (List.cons_ne_nil _ _) hfirm]
  simp only [List.append_assoc, List.cons_append, List.nil_append]

theorem trailer_eq_empty {fields : List (String × Datum)}
    (h : ∀ field ∈ fields, field.1 ≠ "stack" ∧ field.1 ≠ "exception") : trailer fields = "" := by
  have hnone : ∀ name, name = "stack" ∨ name = "exception" → textField? fields name = none := by
    intro name hname
    have hget : Assoc.get? fields name = none := by
      rw [Assoc.get?_eq_none_iff_not_mem]
      intro hk
      obtain ⟨field, hf, rfl⟩ := List.mem_map.1 hk
      exact hname.elim (h field hf).1 (h field hf).2
    rw [textField?, hget]
  rw [trailer, hnone "stack" (.inl rfl), hnone "exception" (.inr rfl)]
  rfl

theorem trailerFault?_eq_none {fields : List (String × Datum)}
    (h : ∀ field ∈ fields, field.1 = "stack" ∨ field.1 = "exception" →
      field.2 = .null ∨ ∃ s, field.2 = .text s) : trailerFault? fields = none := by
  refine List.findSome?_eq_none_iff.2 fun name hname => ?_
  rcases hget : Assoc.get? fields name with _ | d
  · rfl
  · have hd := h (name, d) (Assoc.mem_of_get? hget) (by simpa using hname)
    rcases hd with rfl | ⟨s, rfl⟩ <;> rfl

/-- Fields that can be written can be shown in console text, if what follows the line is text. -/
theorem consoleFault?_eq_none {fields : List (String × Datum)}
    (hw : ∀ field ∈ fields, field.2.isWritable = true)
    (h : ∀ field ∈ fields, field.1 = "stack" ∨ field.1 = "exception" →
      field.2 = .null ∨ ∃ s, field.2 = .text s) : consoleFault? fields = none := by
  have hall : (fields.all fun entry => unshown.contains entry.1 || entry.2.isWritable) = true := by
    rw [List.all_eq_true]
    intro field hf
    rw [hw field hf, Bool.or_true]
  rw [consoleFault?, if_pos hall, trailerFault?_eq_none h]

theorem Sound.consoleLine_eq (h : e.Sound) (stamp : String) :
    ∃ fields, (∀ field, field ∈ fields ↔
        field ∈ e.fields ∧ field.1 ∉ internal ∧ field.1 ≠ "logger") ∧
      e.consoleLine stamp = .ok (String.intercalate " " ((unnamed fields ++ [stamp,
        "[" ++ e.level.label ++ "]", e.message]).filter (fun s => !s.isEmpty) ++
          ("[" ++ e.logger ++ "]") :: (tagged fields "logger_name" ++ fieldTexts fields)) ++
            trailer fields) := by
  have hfields : ∀ field, field ∈ e.outward.fields.filter (fun entry => entry.1 != "logger") ↔
      field ∈ e.fields ∧ field.1 ∉ internal ∧ field.1 ≠ "logger" := fun field => by
    rw [List.mem_filter, mem_outward, bne_iff_ne, and_assoc]
  have hfault := consoleFault?_eq_none
    (fun field hf => Datum.isWritable_of_jsonFault? _ (h.writable field ((hfields field).1 hf).1))
    fun field hf => h.behind field ((hfields field).1 hf).1
  refine ⟨_, hfields, ?_⟩
  rw [Event.consoleLine]
  simp only [hfault]
  rw [← columns_eq (fun field hf => h.pointless field ((hfields field).1 hf).1) _ (.bracketed _)]
  rfl

/-- A line of console text has the heading and the fields among its words. -/
theorem Sound.consoleLine (h : e.Sound) (stamp : String) :
    ∃ words behind, e.consoleLine stamp = .ok (String.intercalate " " words ++ behind) ∧
      e.heading stamp <:+: words ∧
      (∀ field ∈ e.fields, field.1 ∉ internal → field.1 ∉ placed →
        field.1 ++ "=" ++ fieldText field.2 ∈ words) ∧
      ((∀ field ∈ e.fields, field.1 ≠ "stack" ∧ field.1 ≠ "exception") → behind = "") := by
  obtain ⟨fields, hfields, hline⟩ := h.consoleLine_eq stamp
  refine ⟨_, _, hline, ⟨(unnamed fields).filter fun s => !s.isEmpty,
    tagged fields "logger_name" ++ fieldTexts fields, ?_⟩, fun field hf hinternal hplaced => ?_,
    fun hno => trailer_eq_empty fun field hf => hno field ((hfields field).1 hf).1⟩
  · simp only [heading, List.filter_append, List.append_assoc, List.singleton_append]
  · have hlogger : field.1 ≠ "logger" := fun hname => hplaced (hname ▸ by decide)
    exact List.mem_append_right _ (List.mem_cons_of_mem _ (List.mem_append_right _
      (mem_fieldTexts.2 ⟨field, (hfields field).2 ⟨hf, hinternal, hlogger⟩, hplaced, rfl⟩)))

end Event

/-! ## Lines -/

end Retouch
