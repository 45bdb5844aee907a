import Retouch.EntryPoint
import Retouch.Proofs.Serializing
import Retouch.Proofs.Standing

/-!
# Text that was not touched comes back

Parsing changes the document by planting the grammar's tree and by nothing else. The root of a tree
just planted is pristine and covers the whole source, so the collection of a text prints as that
text, whatever the tree is.
-/

namespace Retouch

namespace Work

variable {η : Type}

theorem perform_edit {α : Type} {x : Edit α} {a : α} {d : Document} {w : Workspace η}
    (h : perform x w.document = (.ok a, d)) :
    perform (edit x) w = (.ok a, { w with document := d }) := by
  unfold edit
  rw [perform_bind_of_ok (perform_get w), perform_bind_of_ok (perform_set w _), h]
  rfl

/-- A text is normalized to a new root path on the root of its parse. -/
theorem normalize_text {p : ParserId} {text : String} {w w' : Workspace η} {root : NodeId}
    (h : perform (parse p text) w = (.ok root, w')) :
    ∃ j, perform (normalize p (.item (.text text))) w = (.ok [w'.document.paths.size],
      { w' with document := (w'.document.addRoot root).2, journal := j }) := by
  have hroot : perform (Edit.addRoot root) w'.document =
      (.ok w'.document.paths.size, (w'.document.addRoot root).2) := rfl
  obtain ⟨j, hj⟩ := perform_trace { w' with document := (w'.document.addRoot root).2 } "normalize"
    "input_normalized" [("shape", .text "text"), ("count", .int 1)]
    (by simp [reservedNames])
  refine ⟨j, ?_⟩
  unfold normalize
  rw [perform_bind_of_ok (show perform (ofExcept _) w = (.ok (.text text), w) from rfl)]
  simp only [pure_bind]
  rw [perform_bind_of_ok h, perform_bind_of_ok (perform_edit hroot)]
  exact (perform_bind_of_ok hj _).trans rfl

/-- The collection of a text holds a root path on the root of its parse. -/
theorem call_text (e : EntryPoint) {text : String} {w w' : Workspace η} {root : NodeId}
    (h : perform (parse e.parser text) w = (.ok root, w')) :
    ∃ c j, perform (e.call (.item (.text text))) w = (.ok c,
        { w' with document := (w'.document.addRoot root).2, journal := j }) ∧
      c.paths = [w'.document.paths.size] ∧ c.printer = e.printer ∧ c.parent = none := by
  obtain ⟨j, hj⟩ := normalize_text h
  set d := (w'.document.addRoot root).2
  set q := w'.document.paths.size
  refine ⟨⟨[q], .text (Collection.inferKind (Collection.kinds d [q])), e.methods, e.printer, none⟩,
    j, ?_, rfl, rfl, rfl⟩
  unfold EntryPoint.call
  rw [perform_bind_of_ok hj]
  rfl

theorem path_addRoot (d : Document) (n : NodeId) :
    (d.addRoot n).2.path d.paths.size = ⟨n, none, none, []⟩ := by
  simp [Document.path, Document.addRoot, Array.getD]

/-- A collection of one root path, with no parent, is printed from the path's node on. -/
theorem toSource_root {c : Collection} {w : Workspace η} {q : PathId} {n : NodeId} {text : String}
    (hc : c.paths = [q]) (hp : c.parent = none) (hq : w.document.path q = ⟨n, none, none, []⟩)
    (ht : c.printer.print w.document.forest n (w.document.forest.node n).source = .ok text) :
    ∃ w', perform (toSource c) w = (.ok text, w') := by
  have hroot : w.document.root q = q := (Document.Way.top (by rw [hq])).root_eq
  have hroots : c.roots w.document = [n] := by
    simp [Collection.roots, hc, hroot, hq, List.eraseDups_cons]
  obtain ⟨j, hj⟩ := toSource_single hp hroots
  exact ⟨{ w with journal := j }, by rw [hj, ht]⟩

end Work

/-- A tree just planted prints as the text it was made of. -/
theorem SyntaxTree.Rooted.print {stamp : Nat} {text : String} {t : SyntaxTree} {f g : Forest}
    {root : Nat} (h : Rooted (.ofText stamp text) t f g root) (p : Printer) :
    p.print g root (g.node root).source = .ok text := by
  obtain ⟨u, -, hg⟩ := h.top
  have hs : (g.node root).source = some (.ofText stamp text) := by rw [hg]; rfl
  have hsp : (g.node root).span = some (0, ((Source.ofText stamp text).size : Int)) := by rw [hg]
  have hac := h.branches.acyclic
  rw [hs, p.print_some hac, p.textOf_pristine hac h.isPristine hs hsp]
  exact Source.slice_all stamp text

/-- If a text can be parsed, then its collection prints as that text. -/
theorem toSource_call_text {η : Type} (e : EntryPoint) (text : String) (w w' : Workspace η)
    (root : NodeId) (h : perform (Work.parse e.parser text) w = (.ok root, w')) :
    ∃ w'', perform (do Work.toSource (← e.call (.item (.text text)))) w = (.ok text, w'') := by
  obtain ⟨stamp, parsed, g, -, hplant, hd⟩ := Work.parse_eq_ok h
  obtain ⟨c, j, hcall, hc, hprinter, hparent⟩ := Work.call_text e h
  have hprint := (SyntaxTree.rooted_of_plant hplant).print e.printer
  rw [perform_bind_of_ok hcall]
  refine Work.toSource_root hc hparent (Work.path_addRoot _ _) ?_
  rw [hprinter]
  simp only [Document.addRoot, hd]
  exact hprint

/-- Brackets that the grammar had to close, with an error before them and blanks around. -/
def mendedTree : SyntaxTree :=
  .node "program" 1 4 true false none
    [.node "ERROR" 1 3 true false none [], .node "(" 3 4 false false none [],
      .node ")" 4 4 false true none []]

/-- A workspace with one tolerant parser, whose grammar mends every text alike. -/
def mendingWorkspace : Workspace Unit :=
  ⟨.empty, .start "" default, ⟨[], fun _ _ => some ⟨mendedTree, true⟩⟩, #[⟨"python", true, true⟩],
    #[], #[], 0, #[]⟩

theorem toSource_call_mended : ∃ root w' w'',
    perform (Work.parse 0 " é( ") mendingWorkspace = (.ok root, w') ∧
    perform (do Work.toSource (← (⟨0, ⟨"-"⟩, 0, 0⟩ : EntryPoint).call (.item (.text " é( "))))
      mendingWorkspace = (.ok " é( ", w'') := by
  obtain ⟨root, w', h⟩ :
      ∃ root w', perform (Work.parse 0 " é( ") mendingWorkspace = (.ok root, w') :=
    Work.parse_ok rfl rfl rfl (show mendedTree.WellFormed " é( " by decide)
  obtain ⟨w'', hs⟩ := toSource_call_text ⟨0, ⟨"-"⟩, 0, 0⟩ " é( " mendingWorkspace w' root h
  exact ⟨root, w', w'', h, hs⟩

end Retouch
