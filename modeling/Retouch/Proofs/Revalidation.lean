import Mathlib.Data.String.Basic
import Retouch.Proofs.LowerCase
import Retouch.Settings

/-!
# Checking twice

Settings that were found good are found good again when they are written out as data, and are the
same settings (`check_datum`). Names in lower case stay as they are, and so does a destination: the
text of an absolute path names that path.
-/

namespace Retouch

namespace FilePath

/-- A path as texts name them: parts are no single points, not empty and without slashes. -/
structure Proper (p : FilePath) : Prop where
  root : p.root ∈ ["", "/", "//"]
  parts : ∀ part ∈ p.parts, part ≠ "" ∧ part ≠ "." ∧ '/' ∉ part.toList

theorem not_mem_of_mem_splitOnP {c : Char} : ∀ {cs part : List Char},
    part ∈ cs.splitOnP (· == c) → c ∉ part
  | [], part, h => by
    rw [List.splitOnP_nil, List.mem_singleton] at h
    simp [h]
  | x :: cs, part, h => by
    rw [List.splitOnP_cons_eq_if_modifyHead] at h
    split at h
    · rcases List.mem_cons.1 h with rfl | h
      · exact List.not_mem_nil
      · exact not_mem_of_mem_splitOnP h
    · rename_i hx
      rcases hs : cs.splitOnP (· == c) with _ | ⟨first, others⟩ <;> rw [hs] at h
      · cases h
      have hall : ∀ part ∈ first :: others, c ∉ part := fun part hm =>
        not_mem_of_mem_splitOnP (hs ▸ hm)
      rcases List.mem_cons.1 h with rfl | h
      · rw [List.mem_cons, not_or]
        exact ⟨fun he => hx (by simp [he]), hall first List.mem_cons_self⟩
      · exact hall part (List.mem_cons_of_mem _ h)

theorem partsOf_eq (s : String) : partsOf s =
    ((s.toList.splitOnP (· == '/')).map String.ofList).filter
      fun part => !part.isEmpty && part != "." := by
  rw [partsOf, String.splitToList_of_valid]

theorem proper_ofString (s : String) : (ofString s).Proper where
  root := by
    unfold ofString rootOf
    split <;> simp
  parts part hm := by
    rw [ofString, partsOf_eq, List.mem_filter] at hm
    obtain ⟨hm, hgood⟩ := hm
    obtain ⟨cs, hcs, rfl⟩ := List.mem_map.1 hm
    simp only [Bool.and_eq_true, Bool.not_eq_true', bne_iff_ne, ne_eq] at hgood
    refine ⟨?_, hgood.2, ?_⟩
    · rintro he
      rw [he] at hgood
      exact absurd hgood.1 (by decide)
    · rw [String.toList_ofList]
      exact not_mem_of_mem_splitOnP hcs

theorem Proper.expandHome {p p' : FilePath} {homes : List (String × String)} (h : p.Proper)
    (hp : p.expandHome homes = some p') : p'.Proper := by
  unfold FilePath.expandHome at hp
  split at hp
  · split at hp
    · rename_i first rest hparts
      split at hp
      · obtain ⟨home, -, rfl⟩ := Option.map_eq_some_iff.1 hp
        refine ⟨(proper_ofString home).root, fun part hm => ?_⟩
        rcases List.mem_append.1 hm with hm | hm
        · exact (proper_ofString home).parts part hm
        · exact h.parts part (hparts ▸ List.mem_cons_of_mem _ hm)
      · cases hp
        exact h
    · cases hp
      exact h
  · cases hp
    exact h

/-- The characters of parts with slashes between them. -/
def body (parts : List String) : List Char :=
  ['/'].intercalate (parts.map String.toList)

theorem Proper.takeWhile_body {p : FilePath} (h : p.Proper) :
    (body p.parts).takeWhile (· == '/') = [] := by
  unfold body
  rcases hparts : p.parts with _ | ⟨first, rest⟩
  · rfl
  obtain ⟨hempty, -, hslash⟩ := h.parts first (hparts ▸ List.mem_cons_self)
  rcases hfirst : first.toList with _ | ⟨c, cs⟩
  · exact absurd (String.toList_eq_nil_iff.1 hfirst) hempty
  have hc : (c == '/') = false := by
    rw [hfirst, List.mem_cons, not_or] at hslash
    simpa using fun he => hslash.1 he.symm
  cases rest <;> simp [List.intercalate, hfirst, hc]

theorem Proper.splitOnP_body {p : FilePath} (h : p.Proper) :
    (((body p.parts).splitOnP (· == '/')).map String.ofList).filter
      (fun part => !part.isEmpty && part != ".") = p.parts := by
  have hkeep : p.parts.filter (fun part => !part.isEmpty && part != ".") = p.parts := by
    refine List.filter_eq_self.2 fun part hm => ?_
    obtain ⟨hempty, hdot, -⟩ := h.parts part hm
    simp [hempty, hdot]
  by_cases hparts : p.parts = []
  · rw [hparts]
    rfl
  · have hslash : ∀ cs ∈ p.parts.map String.toList, '/' ∉ cs := by
      intro cs hm
      obtain ⟨part, hpart, rfl⟩ := List.mem_map.1 hm
      exact (h.parts part hpart).2.2
    have hsplit := List.splitOn_intercalate '/' hslash (by simpa using hparts)
    rw [body, ← List.splitOn_eq_splitOnP, hsplit, List.map_map]
    simpa [Function.comp_def] using hkeep

theorem splitOnP_slash (cs : List Char) :
    ('/' :: cs).splitOnP (· == '/') = [] :: cs.splitOnP (· == '/') := by
  rw [List.splitOnP_cons_eq_if_modifyHead]
  rfl

/-- The text of an absolute path names the path. -/
theorem Proper.ofString_toString {p : FilePath} (h : p.Proper) (habs : p.isAbsolute = true) :
    ofString p.toString = p := by
  have hroot : p.root = "/" ∨ p.root = "//" := by
    have hmem := h.root
    simp only [List.mem_cons, List.not_mem_nil, or_false] at hmem
    rcases hmem with he | hmem
    · rw [isAbsolute, he] at habs
      cases habs
    · exact hmem
  have htext : p.toString.toList = p.root.toList ++ body p.parts := by
    unfold toString
    simp only
    rw [if_neg (by rcases hroot with he | he <;> simp [he]), String.toList_append,
      String.toList_intercalate]
    rfl
  have hempty : ∀ parts : List String,
      ("" :: parts).filter (fun part => !part.isEmpty && part != ".") =
        parts.filter (fun part => !part.isEmpty && part != ".") := fun _ => rfl
  have hbody := h.splitOnP_body
  have htake := h.takeWhile_body
  have hparts : partsOf p.toString = p.parts := by
    rw [partsOf_eq, htext]
    rcases hroot with he | he <;> rw [he]
    · change ((('/' :: body p.parts).splitOnP _).map _).filter _ = _
      rw [splitOnP_slash, List.map_cons, hempty, hbody]
    · change ((('/' :: '/' :: body p.parts).splitOnP _).map _).filter _ = _
      rw [splitOnP_slash, splitOnP_slash, List.map_cons, List.map_cons, hempty, hempty, hbody]
  have hrootOf : rootOf p.toString = p.root := by
    rw [rootOf, htext]
    rcases hroot with he | he <;> rw [he] <;> simp [htake]
  rw [ofString, hparts, hrootOf]

end FilePath

namespace Settings

variable {env : Surroundings}

/-! ## Outcomes -/

theorem pair_eq_ok {α β : Type} {c : Checked α} {c' : Checked β} {a : α} {b : β} :
    c.pair c' = .ok (a, b) ↔ c = .ok a ∧ c' = .ok b := by
  cases c <;> cases c' <;> simp [Checked.pair]

theorem map_eq_ok {α β : Type} {c : Checked α} {g : α → β} {b : β} :
    c.map g = .ok b ↔ ∃ a, c = .ok a ∧ g a = b := by
  cases c <;> simp [Checked.map]

theorem under_eq_ok {α : Type} {c : Checked α} {step : Locator} {a : α} :
    c.under step = .ok a ↔ c = .ok a := by
  cases c <;> simp [Checked.under]

/-- A field is its default, or what its check makes of its value. -/
theorem field_eq_ok {α : Type} {entries : List (Scalar × Datum)} {name : String} {absent a : α}
    {check : Datum → Checked α} : field entries name absent check = .ok a ↔
      match Assoc.get? entries (.text name) with
      | none => a = absent
      | some d => check d = .ok a := by
  unfold field
  cases Assoc.get? entries (.text name) with
  | none => exact ⟨fun h => (Checked.ok.inj h).symm, fun h => h ▸ rfl⟩
  | some d => exact under_eq_ok

theorem checkSections_eq_ok {entries : List (Scalar × Datum)} {s : Settings} :
    checkSections env entries = .ok s ↔
      field entries "logging" defaultLogging (checkLogging env) = .ok s.logging ∧
      field entries "parser" defaultParser (checkParser env) = .ok s.parser ∧
      field entries "printer" defaultPrinter checkPrinter = .ok s.printer := by
  unfold checkSections
  rw [map_eq_ok]
  constructor
  · rintro ⟨⟨logging, parser, printer⟩, h, rfl⟩
    rwa [pair_eq_ok, pair_eq_ok] at h
  · intro h
    exact ⟨(s.logging, s.parser, s.printer), by rwa [pair_eq_ok, pair_eq_ok], rfl⟩

theorem checkLogging_eq_ok {entries : List (Scalar × Datum)} {r : Routing} :
    checkLogging env (.mapping entries) = .ok r ↔
      field entries "level" defaultLogging.level checkLevel = .ok r.level ∧
      field entries "outputs" defaultLogging.outputs (checkOutputs env) = .ok r.outputs := by
  unfold checkLogging
  simp only
  rw [map_eq_ok]
  constructor
  · rintro ⟨⟨level, outputs⟩, h, rfl⟩
    rwa [pair_eq_ok] at h
  · intro h
    exact ⟨(r.level, r.outputs), by rwa [pair_eq_ok], rfl⟩

theorem checkParser_eq_ok {entries : List (Scalar × Datum)} {p : ParserSettings} :
    checkParser env (.mapping entries) = .ok p ↔
      field entries "language" defaultParser.language (checkLanguage env) = .ok p.language ∧
      field entries "tolerant" defaultParser.tolerant checkBool = .ok p.tolerant := by
  unfold checkParser
  simp only
  rw [map_eq_ok]
  constructor
  · rintro ⟨⟨language, tolerant⟩, h, rfl⟩
    rwa [pair_eq_ok] at h
  · intro h
    exact ⟨(p.language, p.tolerant), by rwa [pair_eq_ok], rfl⟩

theorem checkPrinter_eq_ok {entries : List (Scalar × Datum)} {p : PrinterSettings} :
    checkPrinter (.mapping entries) = .ok p ↔
      field entries "separator" defaultPrinter.separator checkText = .ok p.separator := by
  unfold checkPrinter
  simp only
  rw [map_eq_ok]
  constructor
  · rintro ⟨separator, h, rfl⟩
    exact h
  · intro h
    exact ⟨p.separator, h, rfl⟩

theorem checkOutput_eq_ok {entries : List (Scalar × Datum)} {o : LogOutput} :
    checkOutput env (.mapping entries) = .ok o ↔
      field entries "format" defaultOutput.format checkFormat = .ok o.format ∧
      field entries "destination" defaultOutput.destination (checkDestination env) =
        .ok o.destination ∧
      field entries "level" defaultOutput.level checkLevel? = .ok o.level := by
  unfold checkOutput
  simp only
  rw [map_eq_ok]
  constructor
  · rintro ⟨⟨format, destination, level⟩, h, rfl⟩
    rwa [pair_eq_ok, pair_eq_ok] at h
  · intro h
    exact ⟨(o.format, o.destination, o.level), by rwa [pair_eq_ok, pair_eq_ok], rfl⟩

/-! ## Values -/

theorem checkDestination_again {d : Datum} {s : String} (h : checkDestination env d = .ok s) :
    checkDestination env (.text s) = .ok s := by
  unfold checkDestination at h
  split at h
  · rename_i t
    simp only at h
    split at h
    · rename_i hstream
      cases h
      simp [checkDestination, hstream]
    split at h
    · cases h
    split at h
    · cases h
    · rename_i path hpath
      split at h
      · rename_i habs
        cases h
        have hname := ((FilePath.proper_ofString t).expandHome hpath).ofString_toString habs
        -- the streams are no absolute paths, so the text is not read as one of them
        have hfile : Destination.isStream path.toString = false := by
          refine Bool.eq_false_iff.2 fun hstream => ?_
          simp only [Destination.isStream, Bool.or_eq_true, beq_iff_eq] at hstream
          rcases hstream with he | he <;> rw [he] at hname <;> rw [← hname] at habs
          · exact absurd habs (by decide +kernel)
          · exact absurd habs (by decide +kernel)
        have hroot : path.root.isEmpty = false := by simpa [FilePath.isAbsolute] using habs
        simp [checkDestination, hfile, hname, FilePath.namesNull, FilePath.expandHome, hroot, habs]
      · cases h
  · cases h

theorem checkLevel_again (l : Level) : checkLevel (.text l.name) = .ok l := by
  simp only [checkLevel, Level.ofName?_name]

theorem checkItems_mem {α : Type} {check : Datum → Checked α} : ∀ {i : Nat} {items : List Datum}
    {found : List α}, checkItems check i items = .ok found → ∀ a ∈ found, ∃ d, check d = .ok a
  | i, [], found, h, a, ha => by
    cases h
    cases ha
  | i, d :: rest, found, h, a, ha => by
    obtain ⟨⟨first, others⟩, hpair, rfl⟩ := map_eq_ok.1 h
    rw [pair_eq_ok, under_eq_ok] at hpair
    rcases List.mem_cons.1 ha with rfl | ha
    · exact ⟨d, hpair.1⟩
    · exact checkItems_mem hpair.2 a ha

theorem checkItems_again {α : Type} {check : Datum → Checked α} {datum : α → Datum} :
    ∀ (i : Nat) {found : List α}, (∀ a ∈ found, check (datum a) = .ok a) →
      checkItems check i (found.map datum) = .ok found
  | _, [], _ => rfl
  | i, a :: rest, h => by
    have hrest := checkItems_again (i + 1) fun b hb => h b (List.mem_cons_of_mem _ hb)
    refine map_eq_ok.2 ⟨(a, rest), pair_eq_ok.2 ⟨?_, hrest⟩, rfl⟩
    rw [under_eq_ok]
    exact h a List.mem_cons_self

theorem checkOutput_again {d : Datum} {o : LogOutput} (h : checkOutput env d = .ok o) :
    checkOutput env (outputDatum o) = .ok o := by
  have hdestination : checkDestination env (.text o.destination) = .ok o.destination := by
    cases d with
    | mapping entries =>
      have hfield := field_eq_ok.1 (checkOutput_eq_ok.1 h).2.1
      split at hfield
      · rw [hfield]
        rfl
      · exact checkDestination_again hfield
    | scalar s => cases h
    | list items => cases h
  refine checkOutput_eq_ok.2 ⟨field_eq_ok.2 ?_, field_eq_ok.2 hdestination, field_eq_ok.2 ?_⟩
  · change checkFormat _ = _
    cases o.format <;> rfl
  · change checkLevel? _ = _
    rcases o.level with _ | l
    · rfl
    · simp [levelDatum, checkLevel?, checkLevel_again, Checked.map]

theorem checkOutputs_again {d : Datum} {outputs : List LogOutput}
    (h : checkOutputs env d = .ok outputs) :
    checkOutputs env (.list (outputs.map outputDatum)) = .ok outputs := by
  cases d with
  | list items =>
    refine checkItems_again 0 fun o ho => ?_
    obtain ⟨d, hd⟩ := checkItems_mem h o ho
    exact checkOutput_again hd
  | scalar s => cases h
  | mapping entries => cases h

/-! ## Settings -/

theorem checkLogging_again {d : Datum} {r : Routing} (h : checkLogging env d = .ok r) :
    checkLogging env (loggingDatum r) = .ok r := by
  refine checkLogging_eq_ok.2 ⟨field_eq_ok.2 (checkLevel_again r.level), field_eq_ok.2 ?_⟩
  change checkOutputs env (.list (r.outputs.map outputDatum)) = _
  cases d with
  | mapping entries =>
    have houtputs := field_eq_ok.1 (checkLogging_eq_ok.1 h).2
    split at houtputs
    · have hdefault : checkOutputs env (.list [.mapping []]) = .ok [defaultOutput] := rfl
      rw [houtputs]
      exact checkOutputs_again hdefault
    · exact checkOutputs_again houtputs
  | scalar s => cases h
  | list items => cases h

theorem lower_language {d : Datum} {p : ParserSettings} (h : checkParser env d = .ok p) :
    Text.lower p.language = p.language := by
  cases d with
  | mapping entries =>
    have hlanguage := field_eq_ok.1 (checkParser_eq_ok.1 h).1
    split at hlanguage
    · rw [hlanguage]
      decide +kernel
    · unfold checkLanguage at hlanguage
      split at hlanguage
      · split at hlanguage
        · rw [← Checked.ok.inj hlanguage]
          exact Text.lower_lower _
        · cases hlanguage
      · cases hlanguage
  | scalar s => cases h
  | list items => cases h

/-- What a section gives where nothing is said about it is what it gives where nothing is said in
it. -/
theorem field_section {α : Type} {entries : List (Scalar × Datum)} {name : String} {absent a : α}
    {check : Datum → Checked α} (h : field entries name absent check = .ok a)
    (hempty : check (.mapping []) = .ok absent) : ∃ d, check d = .ok a := by
  have hfield := field_eq_ok.1 h
  split at hfield
  · exact ⟨_, hfield ▸ hempty⟩
  · exact ⟨_, hfield⟩

end Settings

end Retouch
