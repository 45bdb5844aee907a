import Retouch.Language
import Retouch.Proofs.Precedence

/-!
# Settings that pass a check pass it again

A check fills in defaults, expands homes in destinations and lowers the case of the language. What
it gives is a fixed point of all that: written out as data it passes, and comes back as it is
(`check_datum_eq`). A language that was given is then a known one as it stands; one that was not
given is the default, which has to be known as well. It is, as languages are only ever added to the
table (`builtin_known`). So settings that are loaded could as well be checked once (`loadOnce`).
-/

namespace Retouch.Settings

variable {env : Surroundings}

/-! ## Sections -/

theorem language_known {d : Datum} {p : ParserSettings}
    (hdefault : defaultParser.language ∈ env.languages) (h : checkParser env d = .ok p) :
    p.language ∈ env.languages := by
  obtain ⟨entries, -, hlanguage, -⟩ := checkParser_mapping h
  have hfield := field_eq_ok.1 hlanguage
  split at hfield
  · rwa [hfield]
  · unfold checkLanguage at hfield
    split at hfield
    · split_ifs at hfield with hknown
      · rw [← Checked.ok.inj hfield]
        exact List.contains_iff_mem.1 hknown
      · cases hfield
    · cases hfield

theorem checkParser_datum {p : ParserSettings} (hknown : p.language ∈ env.languages)
    (hlower : Text.lower p.language = p.language) :
    checkParser env (parserDatum p) = .ok p := by
  have hlanguage : checkLanguage env (.text p.language) = .ok p.language := by
    simp only [checkLanguage, hlower, List.contains_iff_mem.2 hknown, if_true]
  exact checkParser_eq_ok.2 ⟨field_eq_ok.2 hlanguage, field_eq_ok.2 rfl⟩

theorem checkPrinter_datum (p : PrinterSettings) : checkPrinter (printerDatum p) = .ok p :=
  checkPrinter_eq_ok.2 (field_eq_ok.2 rfl)

theorem check_datum_eq {entries : List (Scalar × Datum)} {s : Settings}
    (hdefault : defaultParser.language ∈ env.languages) (h : checkSections env entries = .ok s) :
    check env s.datum = .ok s := by
  obtain ⟨hlogging, hparser, -⟩ := checkSections_eq_ok.1 h
  obtain ⟨d, hd⟩ := field_section hlogging rfl
  obtain ⟨d', hd'⟩ := field_section hparser rfl
  have hparser' := checkParser_datum (language_known hdefault hd') (lower_language hd')
  exact checkSections_eq_ok.2 ⟨field_eq_ok.2 (checkLogging_again hd), field_eq_ok.2 hparser',
    field_eq_ok.2 (checkPrinter_datum s.printer)⟩

/-! ## Loading -/

/-- The settings that the layers give when they are checked once. -/
def loadOnce (env : Surroundings) (layers : Layers) : Except Fault Settings := do
  if Assoc.contains layers.arguments (.text "root") then
    throw (.misuse (.givenTwice "load_config" "root"))
  let entries ← layers.merged env
  if entries.any fun entry => !isText entry.1 then throw .keyNotText
  match (checkSections env entries).pair (checkExtra entries) with
  | .fault f => throw f
  | .issues found => throw (firstIssue found)
  | .ok (settings, _) => return settings

theorem load_eq_loadOnce (hdefault : defaultParser.language ∈ env.languages) (layers : Layers) :
    load env layers = loadOnce env layers := by
  unfold load loadOnce
  split_ifs
  · rfl
  rcases layers.merged env with f | entries
  · rfl
  simp only [ok_bind]
  split_ifs
  · rfl
  rcases hpair : (checkSections env entries).pair (checkExtra entries) with ⟨s, _⟩ | found | f
  · have hagain := check_datum_eq hdefault (pair_eq_ok.1 hpair).1
    simp only [hagain]
  · rfl
  · rfl

/-! ## Languages -/

/-- The surroundings of a user where languages were added to those known from the start. -/
def surroundingsWith (homes : List (String × String)) (added : List Language) : Surroundings :=
  ⟨homes, Language.names
    (added.foldl (fun table l => Assoc.insert table l.name l) Language.builtin)⟩

theorem mem_keys_foldl_insert {name : String} : ∀ (added : List Language)
    {table : List (String × Language)}, name ∈ Assoc.keys table →
    name ∈ Assoc.keys (added.foldl (fun table l => Assoc.insert table l.name l) table)
  | [], _, h => h
  | l :: rest, table, h => by
    refine mem_keys_foldl_insert rest ?_
    rw [Assoc.keys_insert]
    split_ifs
    · exact h
    · exact List.mem_append_left _ h

theorem builtin_known (homes : List (String × String)) (added : List Language) {name : String}
    (h : name ∈ Assoc.keys Language.builtin) :
    name ∈ (surroundingsWith homes added).languages := by
  unfold surroundingsWith Language.names
  rw [List.mem_mergeSort]
  exact mem_keys_foldl_insert added h

theorem default_known (homes : List (String × String)) (added : List Language) :
    defaultParser.language ∈ (surroundingsWith homes added).languages :=
  builtin_known homes added (by decide)

/-- Settings that pass a check pass it again as they are, whatever data they came from, wherever the
homes of users are and whichever languages were added. So the second check of settings that are
loaded neither fails nor changes them. -/
theorem settings_pass_again (homes : List (String × String)) (added : List Language) :
    (∀ d s, check (surroundingsWith homes added) d = .ok s →
      check (surroundingsWith homes added) s.datum = .ok s) ∧
    ∀ layers, load (surroundingsWith homes added) layers =
      loadOnce (surroundingsWith homes added) layers := by
  refine ⟨fun d s h => ?_, load_eq_loadOnce (default_known homes added)⟩
  cases d with
  | mapping entries => exact check_datum_eq (default_known homes added) h
  | scalar s => cases h
  | list items => cases h

theorem eq_ok_of_toExcept {α : Type} {c : Checked α} {a : α}
    (h : c.toExcept.toOption = some a) : c = .ok a := by
  cases c with
  | ok b => exact congrArg _ (Option.some.inj h)
  | issues found => cases h
  | fault f => cases h

/-- Two outputs, one of them at home on a winding way, and a language in mixed case. -/
def windingData : Datum :=
  .mapping
    [(.text "parser", .mapping [(.text "language", .text "PyThon")]),
     (.text "logging", .mapping
      [(.text "outputs", .list
        [.mapping [(.text "destination", .text "./~//logs/./a.log"), (.text "level", .text "ERROR")],
         .mapping [(.text "destination", .text "//srv/./log//"), (.text "format", .text "json")]])])]

/-- What a check makes of these data. -/
def straightened : Settings :=
  ⟨⟨.info, [⟨.console, "/home/user/logs/a.log", some .error⟩, ⟨.json, "//srv/log", none⟩]⟩,
    ⟨"python", false⟩, ⟨" "⟩⟩

theorem check_winding :
    check (surroundingsWith [("", "/home/user")] []) windingData = .ok straightened := by
  have hlower : Text.lower "PyThon" = "python" := by decide +kernel
  have hknown : "python" ∈ (surroundingsWith [("", "/home/user")] []).languages :=
    builtin_known _ _ (by decide)
  have hlanguage : checkLanguage (surroundingsWith [("", "/home/user")] []) (.text "PyThon") =
      .ok "python" := by
    simp only [checkLanguage, hlower, List.contains_iff_mem.2 hknown, if_true]
  refine checkSections_eq_ok.2 ⟨eq_ok_of_toExcept (by decide +kernel), ?_, rfl⟩
  exact field_eq_ok.2 (checkParser_eq_ok.2 ⟨field_eq_ok.2 hlanguage, rfl⟩)

theorem settings_pass_again_winding :
    check (surroundingsWith [("", "/home/user")] []) windingData = .ok straightened ∧
    check (surroundingsWith [("", "/home/user")] []) straightened.datum = .ok straightened :=
  ⟨check_winding, (settings_pass_again [("", "/home/user")] []).1 _ _ check_winding⟩

end Retouch.Settings
