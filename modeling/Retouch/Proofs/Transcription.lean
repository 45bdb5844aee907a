import Retouch.Proofs.Layout
import Retouch.Proofs.Standing

/-!
# Planting keeps the whole tree

Planting makes one node for each node of a syntax tree, in the order of the tree, and writes down
everything the tree says about it (`Transcribes`). Nothing is lost on the way: the nodes in the
order of a walk, each with its number of children, make the tree again (`plant_transcribes`). Three
things are different by design. The root spans the whole source, it fills no field, and whether a
node was supplied by the grammar is not noted.
-/

namespace Retouch

namespace SyntaxTree

/-! ## Trees in document order -/

mutual

/-- The subtrees in document order, the tree itself first. -/
def preorder : SyntaxTree → List SyntaxTree
  | .node kind start stop named missing field children =>
    .node kind start stop named missing field children :: preorderAll children

/-- The subtrees of several trees in document order. -/
def preorderAll : List SyntaxTree → List SyntaxTree
  | [] => []
  | t :: ts => preorder t ++ preorderAll ts

end

theorem preorder_eq (t : SyntaxTree) : t.preorder = t :: preorderAll t.children := by
  cases t
  rfl

/-- What holds throughout trees holds of their subtrees in turn. -/
theorem ThroughoutAll.forall₂_preorder {Q : SyntaxTree → NodeId → Prop} :
    ∀ {ts : List SyntaxTree} {n : Nat}, ThroughoutAll Q ts n →
      List.Forall₂ Q (preorderAll ts) (List.range' n (countAll ts))
  | [], _, _ => .nil
  | t :: ts, n, h => by
    have ht := count_eq t
    have hbelow := h.1.below.forall₂_preorder
    have hrest := h.2.forall₂_preorder
    rw [preorderAll, preorder_eq, countAll, ← List.range'_append_1, ht, List.range'_succ]
    rw [ht] at hrest
    exact List.rel_append (.cons h.1.here hbelow) hrest
termination_by ts => countAll ts
decreasing_by
  all_goals
    simp only [countAll]
    omega

mutual

/-- The tree without the marks on what the grammar supplied. -/
def unmarked : SyntaxTree → SyntaxTree
  | .node kind start stop named _ field children =>
    .node kind start stop named false field (unmarkedAll children)

/-- Several trees without these marks. -/
def unmarkedAll : List SyntaxTree → List SyntaxTree
  | [] => []
  | t :: ts => unmarked t :: unmarkedAll ts

end

/-- The tree in another field. -/
def filling (field : Option String) : SyntaxTree → SyntaxTree
  | .node kind start stop named missing _ children =>
    .node kind start stop named missing field children

theorem filling_filling (field field' : Option String) (t : SyntaxTree) :
    (t.filling field').filling field = t.filling field := by
  cases t
  rfl

theorem unmarked_filling (t : SyntaxTree) : t.unmarked.filling t.field = t.unmarked := by
  cases t
  rfl

/-- Trees apart from the fields they fill. -/
def loose (ts : List SyntaxTree) : List SyntaxTree :=
  (unmarkedAll ts).map (filling none)

theorem length_loose : ∀ ts : List SyntaxTree, (loose ts).length = ts.length
  | [] => rfl
  | _ :: ts => congrArg (· + 1) (length_loose ts)

theorem zipWith_filling_loose : ∀ ts : List SyntaxTree,
    List.zipWith filling (ts.map field) (loose ts) = unmarkedAll ts
  | [] => rfl
  | t :: ts => by
    have ih := zipWith_filling_loose ts
    simp only [loose] at ih
    simp only [loose, unmarkedAll, List.map_cons, List.zipWith_cons_cons, ih, filling_filling,
      unmarked_filling]

end SyntaxTree

/-! ## Reading a tree back -/

/-- The tree of a node over the trees of its children, each in the field of its slot. -/
def Node.asTree (x : Node) (children : List SyntaxTree) : SyntaxTree :=
  let span := x.span.getD default
  .node x.kind span.1.toNat span.2.toNat x.named false none
    (List.zipWith SyntaxTree.filling x.fields children)

/-- The tree that the nodes of a walk make, each with its number of children. -/
def Forest.readBack (f : Forest) (n : NodeId) : SyntaxTree :=
  .ofPreorder ((f.walk n).map fun m => ((f.node m).children.length, (f.node m).asTree))

namespace SyntaxTree

/-- The node says what the tree says, with a span of its own. -/
structure Transcribes (source : Source) (span : Int × Int) (t : SyntaxTree) (x : Node) : Prop where
  kind : x.kind = t.kind
  named : x.named = t.named
  span : x.span = some span
  origin : x.source = some source
  children : x.children.length = t.children.length
  fields : x.fields = t.children.map field
  aligned : x.fields.length = x.children.length
  leaf : t.children = [] → ∃ s, source.slice t.start t.stop = .ok s ∧ x.text = some s
  inner : t.children ≠ [] → x.text = none
  snapshot : x.snapshot = some ⟨x.text, x.children⟩

variable {source : Source} {g : Forest}

theorem transcribes_grown {t : SyntaxTree} {text : Option String} (ht : t.leafText source = .ok text)
    (n : NodeId) (span : Int × Int) :
    Transcribes source span t { grown source t text n with span := some span } := by
  refine ⟨rfl, rfl, rfl, rfl, length_rootIds _ _, rfl, ?_, fun hc => ?_, fun hc => ?_, rfl⟩
  · simp [grown]
  · rcases hs : source.slice t.start t.stop with e | s
    · simp [leafText, hc, hs, Except.map] at ht
    · simp only [leafText, hc, hs, Except.map, List.isEmpty_nil, if_true, Except.ok.injEq] at ht
      exact ⟨s, rfl, ht.symm⟩
  · simp only [leafText, List.isEmpty_iff, hc, if_false, Except.ok.injEq] at ht
    exact ht.symm

theorem Stands.transcribes {t : SyntaxTree} {n : NodeId} (h : Stands source g t n) :
    Transcribes source (t.start, t.stop) t (g.node n) := by
  obtain ⟨text, ht, hg⟩ := h
  rw [hg]
  exact transcribes_grown ht n (t.start, t.stop)

/-- A transcribed node makes its tree out of those of its children. -/
theorem Transcribes.asTree {t : SyntaxTree} {x : Node} {a b : Nat}
    (h : Transcribes source (a, b) t x) : x.asTree (loose t.children) =
      .node t.kind a b t.named false none (unmarkedAll t.children) := by
  simp only [Node.asTree, h.kind, h.named, h.span, h.fields, Option.getD_some, Int.toNat_natCast,
    zipWith_filling_loose]

/-- The step of reading back takes the children of a node off the trees behind it. -/
theorem foldr_asTree {t : SyntaxTree} {x : Node} {a b : Nat} (h : Transcribes source (a, b) t x)
    (trees : List SyntaxTree) :
    x.asTree ((loose t.children ++ trees).take x.children.length) ::
        (loose t.children ++ trees).drop x.children.length =
      .node t.kind a b t.named false none (unmarkedAll t.children) :: trees := by
  have hlen : x.children.length = (loose t.children).length := by
    rw [h.children, length_loose]
  rw [hlen, List.take_left, List.drop_left, h.asTree]

/-- The nodes of planted trees make the trees again, in front of those behind them. -/
theorem ThroughoutAll.foldr_eq : ∀ {ts : List SyntaxTree} {n : Nat} (trees : List SyntaxTree),
    ThroughoutAll (Stands source g) ts n →
    ((List.range' n (countAll ts)).map fun m => ((g.node m).children.length, (g.node m).asTree)).foldr
      (fun node trees => node.2 (trees.take node.1) :: trees.drop node.1) trees = loose ts ++ trees
  | [], _, _, _ => rfl
  | t :: ts, n, trees, h => by
    have ht := count_eq t
    have hrest := h.2.foldr_eq trees
    have hbelow := h.1.below.foldr_eq (loose ts ++ trees)
    rw [ht] at hrest
    rw [countAll, ← List.range'_append_1, ht, List.range'_succ, List.map_append, List.foldr_append,
      hrest, List.map_cons, List.foldr_cons, hbelow]
    refine (foldr_asTree h.1.here.transcribes _).trans ?_
    cases t
    rfl
termination_by ts => countAll ts
decreasing_by
  all_goals
    simp only [countAll]
    omega

namespace Rooted

variable {t : SyntaxTree} {f : Forest} {root : Nat} (h : Rooted source t f g root)

include h

theorem walk_eq : g.walk root = root :: List.range' (root + 1) (countAll t.children) := by
  rw [h.branches.walk_eq (by rw [h.root_eq, h.size]), count_eq, List.range'_succ]

theorem transcribes : Transcribes source (0, (source.size : Int)) t (g.node root) := by
  obtain ⟨text, ht, hg⟩ := h.top
  rw [hg]
  exact transcribes_grown ht root _

theorem readBack_eq : g.readBack root = ((t.spanning source.size).unmarked).filling none := by
  have hbelow := h.trees.foldr_eq []
  unfold Forest.readBack ofPreorder
  rw [h.walk_eq, List.map_cons, List.foldr_cons, hbelow]
  refine (congrArg (List.headD · default) (foldr_asTree (a := 0) h.transcribes [])).trans ?_
  cases t
  rfl

end Rooted

end SyntaxTree

open SyntaxTree

/-- A tree whose leaves can all be decoded is planted node for node: a walk meets one node for each
node of the tree, in the order of the tree and none twice, which says what the tree says there; only
the root spans the whole source. And from what the walk meets the tree can be read back. -/
theorem plant_transcribes (source : Source) (t : SyntaxTree) (f : Forest) (h : t.Decodes source) :
    ∃ g rest, t.plant source f = .ok (f.size, g) ∧
      g.walk f.size = f.size :: rest ∧ (f.size :: rest).Nodup ∧
      Transcribes source (0, (source.size : Int)) t (g.node f.size) ∧
      List.Forall₂ (fun s m => Transcribes source (s.start, s.stop) s (g.node m))
        (preorderAll t.children) rest ∧
      g.readBack f.size = ((t.spanning source.size).unmarked).filling none := by
  obtain ⟨g, hg, hr⟩ := plant_ok h f
  refine ⟨g, _, hg, hr.walk_eq, ?_, hr.transcribes, ?_, hr.readBack_eq⟩
  · rw [← List.range'_succ]
    exact List.nodup_range'
  · exact hr.trees.forall₂_preorder.imp fun _ _ hs => hs.transcribes

/-- A statement in which a call with a supplied bracket is followed by a token. -/
def callTree (supplied : Bool) (start stop : Nat) : SyntaxTree :=
  .node "statement" start stop true false none
    [.node "call" 1 3 true false (some "value")
      [.node "name" 1 2 true false (some "callee") [],
        .node "arguments" 2 3 true false none
          [.node "(" 2 3 false false none [], .node ")" 3 3 false supplied none []]],
      .node ";" 3 4 false false none []]

theorem plant_transcribes_call : (callTree true 1 4).Decodes (.ofText 0 " f(;\n") ∧
    ∃ g rest, (callTree true 1 4).plant (.ofText 0 " f(;\n") ⟨#[default]⟩ = .ok (1, g) ∧
      g.walk 1 = 1 :: rest ∧ rest.length = 6 ∧ g.readBack 1 = callTree false 0 5 := by
  have hd : (callTree true 1 4).Decodes (.ofText 0 " f(;\n") :=
    WellFormed.decodes (by decide +kernel) 0
  obtain ⟨g, rest, hg, hwalk, -, -, hrest, hback⟩ :=
    plant_transcribes (.ofText 0 " f(;\n") (callTree true 1 4) ⟨#[default]⟩ hd
  exact ⟨hd, g, rest, hg, hwalk, hrest.length_eq.symm, hback.trans rfl⟩

end Retouch
