import Retouch.Proofs.Layout
import Retouch.Workspace

/-!
# Parsing

What the tool traces about its own work is never refused (`perform_trace`). A parse that succeeds
plants the tree that the grammar makes of the text and does nothing else to the document
(`parse_eq_ok`), and a well-formed tree is planted indeed (`parse_ok`).
-/

namespace Retouch

/-! ## Traces -/

/-- Names that fields of an event cannot have under every routing. -/
def reservedNames : List String :=
  ["event", "self", "method_name", "_record", "stack", "exception"]

theorem get?_eq_none_of_reserved {fields : List (String × Datum)} {name : String}
    (h : ∀ field ∈ fields, field.1 ∉ reservedNames) (hn : name ∈ reservedNames) :
    Assoc.get? fields name = none := by
  rw [Assoc.get?_eq_none_iff_not_mem]
  intro hk
  obtain ⟨field, hf, rfl⟩ := List.mem_map.1 hk
  exact h field hf hn

theorem Event.callFault?_eq_none {e : Event} (h : ∀ field ∈ e.fields, field.1 ∉ reservedNames)
    (passes : Bool) : e.callFault? passes = none := by
  have hne : ∀ name ∈ e.fields.map Prod.fst, name ∉ reservedNames := by
    intro name hn
    obtain ⟨field, hf, rfl⟩ := List.mem_map.1 hn
    exact h field hf
  have hfind : (e.fields.map Prod.fst).find? (fun name => name == "event" || name == "self")
      = none := by
    rw [List.find?_eq_none]
    intro name hn hb
    simp only [Bool.or_eq_true, beq_iff_eq] at hb
    rcases hb with rfl | rfl <;> exact hne _ hn (by decide)
  have hmethod : (e.fields.map Prod.fst).contains "method_name" = false := by
    rw [Bool.eq_false_iff, ne_eq, List.contains_iff_mem]
    exact fun hn => hne _ hn (by decide)
  unfold Event.callFault?
  simp only [hfind, hmethod, Bool.and_false, Bool.false_eq_true, if_false]

/-- An event without reserved names is logged, if it can be shown where it is shown before any
output was set up. -/
theorem Journal.refusal?_eq_none (j : Journal) {e : Event}
    (h : ∀ field ∈ e.fields, field.1 ∉ reservedNames)
    (hbare : e.level.reaches .warning = true → e.bareFault? = none) : j.refusal? e = none := by
  have hrouted : e.routedFault? = none := by
    unfold Event.routedFault?
    rw [get?_eq_none_of_reserved h (by decide)]
  unfold refusal?
  simp only [Event.callFault?_eq_none h, hrouted]
  cases hbound : j.bound with
  | none =>
    cases hreach : e.level.reaches .warning with
    | false => simp [hreach]
    | true => simp [hbare hreach]
  | some level => simp

namespace Work

variable {η : Type}

/-- A trace is always written, and touches the journal only. -/
theorem perform_trace (w : Workspace η) (logger message : String)
    (fields : List (String × Datum)) (h : ∀ field ∈ fields, field.1 ∉ reservedNames) :
    ∃ j, perform (trace logger message fields) w = (.ok (), { w with journal := j }) := by
  refine ⟨w.journal.log ⟨.debug, logger, message, fields, false⟩, ?_⟩
  unfold trace log
  -- a trace is too light to be shown before any output was set up
  have hlight : Level.debug.reaches .warning = false := rfl
  rw [perform_bind_of_ok (perform_get w),
    w.journal.refusal?_eq_none h fun hreach => absurd (hlight.symm.trans hreach) Bool.false_ne_true]
  rfl

theorem log_document {e : Event} {w w' : Workspace η} (h : perform (log e) w = (.ok (), w')) :
    w'.document = w.document := by
  unfold log at h
  obtain ⟨_, _, h1, h⟩ := perform_bind_eq_ok.1 h
  cases h1
  split at h
  · cases h
  · cases h
    rfl

/-! ## Parsing -/

/-- Loading a grammar is noted in the parser and changes nothing else. -/
theorem loadGrammar_keeps {p : ParserId} {w w' : Workspace η}
    (h : perform (loadGrammar p) w = (.ok (), w')) :
    w'.document = w.document ∧ w'.grammars = w.grammars ∧
      (w'.parsers.getD p default).language = (w.parsers.getD p default).language := by
  unfold loadGrammar at h
  obtain ⟨parser, w1, h1, h⟩ := perform_bind_eq_ok.1 h
  cases h1
  split at h
  · obtain ⟨w2, w3, h2, h⟩ := perform_bind_eq_ok.1 h
    cases h2
    split at h
    · cases h
    · split at h
      · cases h
        refine ⟨rfl, rfl, ?_⟩
        by_cases hp : p < w.parsers.size
        · simp [Array.getD, hp, Array.getElem_modify]
        · simp [Array.getD, hp]
      · cases h
  · cases h
    exact ⟨rfl, rfl, rfl⟩

/-- A parse that succeeds plants the grammar's tree of the text in the document, and does nothing
else to it. -/
theorem parse_eq_ok {p : ParserId} {text : String} {w w' : Workspace η} {root : NodeId}
    (h : perform (parse p text) w = (.ok root, w')) :
    ∃ stamp parsed g,
      w.grammars.tree (w.parsers.getD p default).language text = some parsed ∧
      parsed.root.plant (.ofText stamp text) w.document.forest = .ok (root, g) ∧
      w'.document = { w.document with forest := g } := by
  unfold parse at h
  obtain ⟨_, w1, h1, h⟩ := perform_bind_eq_ok.1 h
  obtain ⟨hd, hg, hl⟩ := loadGrammar_keeps h1
  obtain ⟨parser, w2, h2, h⟩ := perform_bind_eq_ok.1 h
  cases h2
  obtain ⟨w3, w4, h3, h⟩ := perform_bind_eq_ok.1 h
  cases h3
  split at h
  · cases h
  rename_i parsed htree
  obtain ⟨source, w5, h5, h⟩ := perform_bind_eq_ok.1 h
  cases h5
  split at h
  · cases h
  obtain ⟨d, w6, h6, h⟩ := perform_bind_eq_ok.1 h
  cases h6
  obtain ⟨⟨root', g⟩, w7, h7, h⟩ := perform_bind_eq_ok.1 h
  refine ⟨w1.sources, parsed, g, by rw [← hg, ← hl]; exact htree, ?_⟩
  unfold ofExcept at h7
  split at h7
  · rename_i planted hp
    cases h7
    obtain ⟨_, w8, h8, h⟩ := perform_bind_eq_ok.1 h
    cases h8
    obtain ⟨_, w9, h9, h⟩ := perform_bind_eq_ok.1 h
    cases h
    rw [log_document h9, ← hd]
    exact ⟨hp, rfl⟩
  · cases h7

/-- A loaded parser accepts every text of which the grammar makes a well-formed tree, with errors
in it only if the parser is tolerant. -/
theorem parse_ok {p : ParserId} {text : String} {w : Workspace η} {parsed : Parsed}
    (hl : (w.parsers.getD p default).loaded = true)
    (ht : w.grammars.tree (w.parsers.getD p default).language text = some parsed)
    (he : (parsed.hasError && !(w.parsers.getD p default).tolerant) = false)
    (hf : parsed.root.WellFormed text) :
    ∃ root w', perform (parse p text) w = (.ok root, w') := by
  have hload : perform (loadGrammar p) w = (.ok (), w) := by
    unfold loadGrammar
    rw [perform_bind_of_ok (show perform (parser p) w = (.ok _, w) from rfl), hl]
    rfl
  obtain ⟨g, hg, -⟩ := SyntaxTree.plant_ok (hf.decodes w.sources) w.document.forest
  refine ⟨w.document.forest.size, ?_⟩
  unfold parse
  rw [perform_bind_of_ok hload,
    perform_bind_of_ok (show perform (parser p) w = (.ok (w.parsers.getD p default), w) from rfl),
    perform_bind_of_ok (perform_get w)]
  simp only [ht]
  rw [perform_bind_of_ok (show perform (addSource fun stamp => .ofText stamp text) w =
    (.ok (.ofText w.sources text), { w with sources := w.sources + 1 }) from rfl)]
  simp only [he, Bool.false_eq_true, if_false]
  rw [perform_bind_of_ok (show perform document { w with sources := w.sources + 1 } =
    (.ok w.document, { w with sources := w.sources + 1 }) from rfl), hg,
    perform_bind_of_ok (show perform (ofExcept (.ok (w.document.forest.size, g)))
      { w with sources := w.sources + 1 } = (.ok _, _) from rfl)]
  simp only
  rw [perform_bind_of_ok (perform_modify _ _)]
  refine ⟨_, (perform_bind_of_ok (perform_trace _ _ _ _ ?_).choose_spec _).trans rfl⟩
  simp [reservedNames]

end Work

end Retouch
