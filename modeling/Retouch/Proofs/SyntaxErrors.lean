import Retouch.Proofs.Serializing
import Retouch.Proofs.Transcription

/-!
# Syntax errors

The search for a bad node takes nodes off a stack, and what it takes off is the pre-order of the
trees on it (`firstBadFrom_eq_find?`), so it ends at the first bad node of the tree. The place of a
node is found in one pass over the bytes before it (`pointAt_liesAt`). A tree with errors is refused
before anything is planted, and what goes wrong in planting is never told as a syntax error
(`parse_cases`), so a parse reports one exactly where the grammar flags one.
-/

namespace Retouch

/-! ## The first bad node -/

namespace SyntaxTree

theorem preorderAll_append : ∀ ts us : List SyntaxTree,
    preorderAll (ts ++ us) = preorderAll ts ++ preorderAll us
  | [], _ => rfl
  | t :: ts, us => by
    rw [List.cons_append, preorderAll, preorderAll, preorderAll_append ts us, List.append_assoc]

/-- The stack is searched in document order. -/
theorem firstBadFrom_eq_find? (stack : List SyntaxTree) :
    firstBadFrom stack = (preorderAll stack).find? isBad := by
  induction stack using firstBadFrom.induct with
  | case1 => rw [firstBadFrom, preorderAll, List.find?_nil]
  | case2 t rest hbad =>
    rw [firstBadFrom, if_pos hbad, preorderAll, preorder_eq, List.cons_append,
      List.find?_cons_of_pos hbad]
  | case3 t rest hgood ih =>
    rw [firstBadFrom, if_neg hgood, ih, preorderAll_append, preorderAll, preorder_eq,
      List.cons_append, List.find?_cons_of_neg hgood]

/-- The first node of a tree in document order that stands for an error, or the root if none
does. -/
def IsFirstBad (t bad : SyntaxTree) : Prop :=
  (bad.isBad = true ∧ ∃ before behind, t.preorder = before ++ bad :: behind ∧
    ∀ x ∈ before, x.isBad = false) ∨
  (bad = t ∧ ∀ x ∈ t.preorder, x.isBad = false)

theorem isFirstBad_firstBad (t : SyntaxTree) : t.IsFirstBad t.firstBad := by
  have hfind : firstBadFrom [t] = t.preorder.find? isBad := by
    rw [firstBadFrom_eq_find?, preorderAll, preorderAll, List.append_nil]
  unfold firstBad
  rw [hfind]
  rcases hbad : t.preorder.find? isBad with _ | bad
  · refine .inr ⟨rfl, fun x hx => ?_⟩
    simpa using List.find?_eq_none.1 hbad x hx
  · obtain ⟨hb, before, behind, hsplit, hgood⟩ := List.find?_eq_some_iff_append.1 hbad
    exact .inl ⟨hb, before, behind, hsplit, fun x hx => by simpa using hgood x hx⟩

end SyntaxTree

/-! ## Lines and columns -/

/-- The line and the column of an offset, both counted from one: as many line feeds stand before the
offset as lines end there, and the column counts the bytes from the start of the line, which is
behind the last of the line feeds. -/
structure LiesAt (bytes : List UInt8) (offset line column : Nat) : Prop where
  line : line = (bytes.take offset).count 10 + 1
  column : ∃ start ≤ offset, column = offset - start + 1 ∧
    (start = 0 ∨ bytes[start - 1]? = some 10) ∧
    ∀ i, start ≤ i → i < offset → bytes[i]? ≠ some 10

namespace SyntaxTree

theorem toList_loop (data : ByteArray) (i : Nat) (front : List UInt8) :
    ByteArray.toList.loop data i front = front.reverse ++ data.data.toList.drop i := by
  induction i, front using ByteArray.toList.loop.induct data with
  | case1 i front hi ih =>
    have hlt : i < data.data.toList.length := by simpa using hi
    have hget : data.get! i = data.data.toList[i] := by
      rw [ByteArray.get!, Array.getElem_toList]
      exact getElem!_pos data.data i (by simpa using hi)
    rw [ByteArray.toList.loop, if_pos hi, ih, List.drop_eq_getElem_cons hlt, hget]
    simp
  | case2 i front hi =>
    have hge : data.data.toList.length ≤ i := by simpa using hi
    rw [ByteArray.toList.loop, if_neg hi, List.drop_eq_nil_of_le hge, List.append_nil]

theorem toList_extract_zero (data : ByteArray) (offset : Nat) :
    (data.extract 0 offset).toList = data.data.toList.take offset := by
  rw [ByteArray.toList, toList_loop]
  simp

/-- The pass over the bytes counts the line feeds, and the bytes behind the last of them. -/
theorem foldl_point (bytes : List UInt8) : ∃ before rest, bytes = before ++ rest ∧
    (before = [] ∨ before.getLast? = some 10) ∧ 10 ∉ rest ∧
    bytes.foldl (fun point byte => if byte = 10 then (point.1 + 1, 0) else (point.1, point.2 + 1))
      ((0, 0) : Nat × Nat) = (bytes.count 10, rest.length) := by
  induction bytes using List.reverseRecOn with
  | nil => exact ⟨[], [], rfl, .inl rfl, List.not_mem_nil, rfl⟩
  | append_singleton bytes byte ih =>
    obtain ⟨before, rest, rfl, hbefore, hrest, hfold⟩ := ih
    rw [List.foldl_append, hfold]
    by_cases hb : byte = 10
    · subst hb
      refine ⟨before ++ rest ++ [10], [], by simp, .inr (by simp), List.not_mem_nil, ?_⟩
      simp [Nat.add_assoc]
    · refine ⟨before, rest ++ [byte], by simp, hbefore, ?_, ?_⟩
      · simp [hrest, Ne.symm hb]
      · simp [hb]

theorem pointAt_liesAt (data : ByteArray) (offset : Nat) :
    LiesAt data.data.toList offset ((pointAt data offset).1 + 1) ((pointAt data offset).2 + 1) := by
  set bytes := data.data.toList
  obtain ⟨before, rest, htake, hbefore, hrest, hfold⟩ := foldl_point (bytes.take offset)
  have hpoint : pointAt data offset = ((bytes.take offset).count 10,
      rest.length + (offset - (bytes.take offset).length)) := by
    rw [pointAt, toList_extract_zero]
    simp only [bytes] at hfold ⊢
    rw [hfold]
  have hlen : before.length + rest.length = (bytes.take offset).length := by
    rw [htake, List.length_append]
  have hle : (bytes.take offset).length ≤ offset := List.length_take_le _ _
  -- a byte before the offset is one of those that were passed
  have hget : ∀ i < offset, bytes[i]? = (before ++ rest)[i]? := by
    intro i hi
    rw [← htake, List.getElem?_take_of_lt hi]
  rw [hpoint]
  refine ⟨rfl, before.length, by omega, by simp only; omega, ?_, fun i hi hlt hten => ?_⟩
  · rcases hbefore with rfl | hlast
    · exact .inl rfl
    · rw [List.getLast?_eq_getElem?] at hlast
      have hpos := (List.getElem?_eq_some_iff.1 hlast).1
      refine .inr ?_
      rw [hget _ (by omega), List.getElem?_append_left hpos, hlast]
  · rw [hget i hlt, List.getElem?_append_right hi] at hten
    exact hrest (List.mem_of_getElem? hten)

/-! ## Faults of planting -/

theorem untold_map {α β : Type} {x : Except Fault α} (f : α → β) (h : Untold x) :
    Untold (x.map f) := by
  cases x with
  | ok a => exact .ok _
  | error e =>
    rintro error ⟨⟩
    exact h error rfl

theorem untold_bare (source : Source) (t : SyntaxTree) : Untold (t.bare source) := by
  refine Untold.bind (x := t.leafText source) ?_ fun _ => .ok _
  unfold leafText
  split
  · exact untold_map some (source.untold_slice _ _)
  · exact .ok _

theorem untold_plantFrom (source : Source) (stack : List (NodeId × List SyntaxTree))
    (forest : Forest) : Untold (plantFrom source stack forest) := by
  induction stack, forest using plantFrom.induct with
  | case1 forest =>
    rw [plantFrom]
    exact .ok _
  | case2 owner rest forest ih =>
    rw [plantFrom]
    exact ih
  | case3 owner t ts rest forest ih₁ ih₂ =>
    rw [plantFrom]
    refine (untold_bare source t).bind fun node => ?_
    simp only
    split_ifs
    · exact ih₁ _ _
    · exact ih₂ _ _

theorem untold_plant (source : Source) (t : SyntaxTree) (forest : Forest) :
    Untold (t.plant source forest) :=
  (untold_bare source t).bind fun _ => (untold_plantFrom source _ _).bind fun _ => .ok _

end SyntaxTree

/-! ## Parsing -/

/-- The parser's grammar is loaded, or can be. -/
def Workspace.Supports {η : Type} (w : Workspace η) (p : ParserId) : Prop :=
  (w.parsers.getD p default).loaded = true ∨
    ∃ l, Language.find? w.grammars.table (w.parsers.getD p default).language = some l ∧
      l.available = true

namespace Work

variable {η : Type} {w : Workspace η} {p : ParserId} {text : String} {parsed : Parsed}

theorem loadGrammar_ok (h : w.Supports p) :
    ∃ ps, perform (loadGrammar p) w = (.ok (), { w with parsers := ps }) ∧
      (ps.getD p default).language = (w.parsers.getD p default).language ∧
      (ps.getD p default).tolerant = (w.parsers.getD p default).tolerant := by
  unfold loadGrammar
  rw [perform_bind_of_ok (show perform (parser p) w = (.ok (w.parsers.getD p default), w) from rfl)]
  rcases hl : (w.parsers.getD p default).loaded with _ | _
  · obtain ⟨l, hfind, havailable⟩ := h.resolve_left (by rw [hl]; exact Bool.false_ne_true)
    refine ⟨w.parsers.modify p fun x => { x with loaded := true }, ?_, ?_⟩
    · simp only [Bool.not_false, if_true]
      rw [perform_bind_of_ok (perform_get w), hfind]
      simp only [havailable, if_true]
      rfl
    · by_cases hp : p < w.parsers.size
      · simp [Array.getD, hp, Array.getElem_modify]
      · simp [Array.getD, hp]
  · exact ⟨w.parsers, rfl, rfl, rfl⟩

/-- A supported parser refuses a tree with errors before anything is built, unless it is tolerant.
What goes wrong otherwise is no error that is told in a report. -/
theorem parse_cases (h : w.Supports p)
    (ht : w.grammars.tree (w.parsers.getD p default).language text = some parsed) :
    ((parsed.hasError && !(w.parsers.getD p default).tolerant) = true →
      ∃ ps, perform (parse p text) w =
        (.error (syntaxFault (w.parsers.getD p default).language (.ofText w.sources text)
          parsed.root), { w with parsers := ps, sources := w.sources + 1 })) ∧
    ((parsed.hasError && !(w.parsers.getD p default).tolerant) = false →
      Untold (perform (parse p text) w).1) := by
  obtain ⟨ps, hload, hlanguage, htolerant⟩ := loadGrammar_ok h
  unfold parse
  rw [perform_bind_of_ok hload, perform_bind_of_ok
    (show perform (parser p) { w with parsers := ps } = (.ok (ps.getD p default), _) from rfl),
    perform_bind_of_ok (perform_get _)]
  simp only [hlanguage, ht]
  rw [perform_bind_of_ok (show perform (addSource fun stamp => .ofText stamp text)
    { w with parsers := ps } = (.ok (.ofText w.sources text),
      { w with parsers := ps, sources := w.sources + 1 }) from rfl), htolerant]
  refine ⟨fun hbad => ⟨ps, ?_⟩, fun hgood => ?_⟩
  · rw [hbad, if_pos rfl]
    rfl
  · have hplant := parsed.root.untold_plant (.ofText w.sources text) w.document.forest
    simp only [hgood, Bool.false_eq_true, if_false]
    rw [perform_bind_of_ok (perform_document _), perform_bind, perform_ofExcept]
    rcases hp : parsed.root.plant (.ofText w.sources text) w.document.forest with
      e | ⟨root, forest⟩
    · rw [hp] at hplant
      exact fun error he => hplant error (congrArg _ (Except.error.inj he))
    · simp only
      rw [perform_bind_of_ok (perform_modify _ _)]
      obtain ⟨j, hj⟩ := perform_trace
        { w with parsers := ps, sources := w.sources + 1, document := { w.document with forest } }
        "parsing.treesitter" "source_parsed"
        [("language", .text (w.parsers.getD p default).language),
          ("size", .int (Source.ofText w.sources text).size)] (by simp [reservedNames])
      rw [perform_bind_of_ok hj]
      exact .ok root

end Work

/-- A parser whose language is supported reports a syntax error exactly if it is not tolerant and
the grammar flags an error in the tree. Nothing is built then, and the error tells of the first bad
node in document order, or of the root if no node is bad: its kind, and where it starts. -/
theorem parse_reports_first_bad {η : Type} (w : Workspace η) (p : ParserId) (text : String)
    {parsed : Parsed} (hp : w.Supports p)
    (ht : w.grammars.tree (w.parsers.getD p default).language text = some parsed) :
    ((∃ language line column kind, (perform (Work.parse p text) w).1 =
        .error (.tool (.syntaxError language line column kind))) ↔
      (w.parsers.getD p default).tolerant = false ∧ parsed.hasError = true) ∧
    ∀ language line column kind, (perform (Work.parse p text) w).1 =
        .error (.tool (.syntaxError language line column kind)) →
      (perform (Work.parse p text) w).2.document = w.document ∧
      language = (w.parsers.getD p default).language ∧
      ∃ bad, parsed.root.IsFirstBad bad ∧ kind = bad.kind ∧
        LiesAt text.toUTF8.data.toList bad.start line column := by
  obtain ⟨hrefused, huntold⟩ := Work.parse_cases hp ht
  rcases hbad : parsed.hasError && !(w.parsers.getD p default).tolerant with _ | _
  · have huntold := huntold hbad
    refine ⟨iff_of_false ?_ ?_, fun language line column kind h => absurd h (huntold _)⟩
    · rintro ⟨language, line, column, kind, h⟩
      exact huntold _ h
    · rintro ⟨htolerant, herror⟩
      rw [htolerant, herror] at hbad
      cases hbad
  · obtain ⟨ps, hparse⟩ := hrefused hbad
    rw [hparse]
    refine ⟨iff_of_true ⟨_, _, _, _, rfl⟩ ?_, ?_⟩
    · simpa [and_comm] using hbad
    · rintro language line column kind ⟨⟩
      exact ⟨rfl, rfl, parsed.root.firstBad, parsed.root.isFirstBad_firstBad, rfl,
        SyntaxTree.pointAt_liesAt text.toUTF8 parsed.root.firstBad.start⟩

/-- Two lines of a program, the second with an error and a bracket that the grammar supplied. -/
def brokenTree : SyntaxTree :=
  .node "module" 0 5 true false none
    [.node "line" 0 1 true false none [.node "name" 0 1 true false none []],
      .node "line" 2 5 true false none [.node "name" 2 4 true false none [],
        .node "call" 4 5 true false none [.node "ERROR" 4 5 true false none [],
          .node ")" 5 5 false true none []]]]

/-- A workspace with a parser whose grammar is still to be loaded. -/
def brokenWorkspace : Workspace Unit :=
  ⟨.empty, .start "" default, ⟨Language.builtin, fun _ _ => some ⟨brokenTree, true⟩⟩,
    #[⟨"python", false, false⟩], #[], #[], 0, #[]⟩

theorem parse_reports_first_bad_nested : brokenWorkspace.Supports 0 ∧
    (perform (Work.parse 0 "a\né(") brokenWorkspace).1 =
      .error (.tool (.syntaxError "python" 2 3 "ERROR")) ∧
    (perform (Work.parse 0 "a\né(") brokenWorkspace).2.document = .empty ∧
    ∃ bad, brokenTree.IsFirstBad bad ∧ bad.kind = "ERROR" ∧
      LiesAt "a\né(".toUTF8.data.toList bad.start 2 3 := by
  have hp : brokenWorkspace.Supports 0 :=
    .inr ⟨_, (rfl : _ = some (Language.builtin.map Prod.snd)[3]!), rfl⟩
  have herror : (perform (Work.parse 0 "a\né(") brokenWorkspace).1 =
      .error (.tool (.syntaxError "python" 2 3 "ERROR")) := by
    obtain ⟨ps, hparse⟩ := (Work.parse_cases hp rfl).1 rfl
    have hfirst : brokenTree.firstBad = .node "ERROR" 4 5 true false none [] := by
      rw [SyntaxTree.firstBad, SyntaxTree.firstBadFrom_eq_find?]
      rfl
    have hpoint : SyntaxTree.pointAt "a\né(".toUTF8 4 = (1, 2) := by decide +kernel
    rw [hparse]
    simp only [Work.syntaxFault, hfirst, Source.ofText, SyntaxTree.start, hpoint]
    rfl
  obtain ⟨-, htells⟩ := parse_reports_first_bad brokenWorkspace 0 "a\né(" hp rfl
  obtain ⟨hd, -, bad, hbad, hkind, hlies⟩ := htells _ _ _ _ herror
  exact ⟨hp, herror, hd, bad, hbad, hkind.symm, hlies⟩

end Retouch
