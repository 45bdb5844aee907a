import Retouch.Proofs.Editing
import Retouch.Proofs.Parsing

/-!
# Histories

A workspace is worked on by parsing texts and by edits of nodes and paths, in any order and on any
nodes, whether they succeed or not. An edit adds a node, changes one, or leaves all nodes as they
are, and it never touches what a node keeps of its parse (`Edit.Elementary.step`). So what is kept
by planting and by one such step is kept by a whole history (`Worked.invariant`), and a node that
was there keeps its span, its source and its snapshot for good (`Worked.remembers`).
-/

namespace Retouch

/-- What a node keeps of its parse, whatever becomes of its text and children. -/
def Node.memory (x : Node) : Option (Int × Int) × Option Source × Option Snapshot :=
  (x.span, x.source, x.snapshot)

/-- A forest after one edit. -/
inductive Forest.Step (f : Forest) : Forest → Prop
  | same : Step f f
  | add {x : Node} (h : x.snapshot = none) : Step f (f.add x).2
  | modify (n : NodeId) {change : Node → Node} (h : ∀ x, (change x).memory = x.memory) :
    Step f (f.modify n change)

namespace Edit

/-- The edits that leave alone what nodes keep of their parse. -/
inductive Elementary : {α : Type} → Edit α → Prop
  | addNode {x : Node} (h : x.snapshot = none) : Elementary (addNode x)
  | modifyNode (n : NodeId) {change : Node → Node} (h : ∀ x, (change x).memory = x.memory) :
    Elementary (modifyNode n change)
  | setChildren (n : NodeId) (children : List NodeId) : Elementary (setChildren n children)
  | insertChild (n : NodeId) (slot : Int) (c : NodeId) : Elementary (insertChild n slot c)
  | setChild (n : NodeId) (slot : Int) (c : NodeId) : Elementary (setChild n slot c)
  | eraseChild (n : NodeId) (slot : Int) : Elementary (eraseChild n slot)
  | addRoot (n : NodeId) : Elementary (addRoot n)
  | addPath (n : NodeId) (parent : Option PathId) (slot : Option Int) :
    Elementary (addPath n parent slot)
  | modifyPath (p : PathId) (change : Path → Path) : Elementary (modifyPath p change)
  | child (p : PathId) (index : Int) : Elementary (child p index)
  | childPaths (p : PathId) : Elementary (childPaths p)
  | walk (p : PathId) : Elementary (walk p)
  | find (p : PathId) (wanted : Node → Bool) : Elementary (find p wanted)
  | replace (p : PathId) (nodes : List NodeId) : Elementary (replace p nodes)
  | prune (p : PathId) : Elementary (prune p)

/-! ## Looking -/

/-- The edit leaves all nodes as they are. -/
def Looks {α : Type} (x : Edit α) : Prop :=
  ∀ d, (perform x d).2.forest = d.forest

section Looking

variable {α β ι : Type}

theorem looks_pure (a : α) : Looks (pure a) := fun _ => rfl

theorem Looks.bind {x : Edit α} {next : α → Edit β} (hx : Looks x) (hn : ∀ a, Looks (next a)) :
    Looks (x >>= next) := by
  intro d
  have hd := hx d
  rw [perform_bind]
  rcases hp : perform x d with ⟨e | a, d'⟩ <;> rw [hp] at hd
  · exact hd
  · exact (hn a d').trans hd

theorem looks_get_bind {next : Document → Edit β}
    (hn : ∀ d, (perform (next d) d).2.forest = d.forest) : Looks (get >>= next) := by
  intro d
  rw [perform_bind_of_ok (perform_get d)]
  exact hn d

theorem Looks.mapM {g : ι → Edit α} (hg : ∀ i, Looks (g i)) : ∀ is : List ι, Looks (is.mapM g)
  | [] => looks_pure _
  | i :: is => by
    rw [List.mapM_cons]
    exact (hg i).bind fun _ => (Looks.mapM hg is).bind fun _ => looks_pure _

theorem looks_child (p : PathId) (index : Int) : Looks (child p index) := by
  intro d
  rw [perform_child]
  split
  · rfl
  · unfold Document.childIn
    split
    · split_ifs
      · rfl
      · rfl
    · rfl

theorem looks_childPaths (p : PathId) : Looks (childPaths p) :=
  looks_get_bind fun d => Looks.mapM (fun i : Nat => looks_child p i) _ d

theorem looks_walkFrom : ∀ (fuel : Nat) (ps : List PathId), Looks (walkFrom fuel ps)
  | 0, [] => looks_pure _
  | _ + 1, [] => looks_pure _
  | 0, _ :: _ => looks_pure _
  | fuel + 1, p :: ps => by
    rw [walkFrom]
    exact (looks_childPaths p).bind fun _ => (looks_walkFrom fuel _).bind fun _ => looks_pure _

theorem looks_walk (p : PathId) : Looks (walk p) :=
  looks_get_bind fun d => looks_walkFrom _ _ d

theorem looks_find (p : PathId) (wanted : Node → Bool) : Looks (find p wanted) :=
  (looks_walk p).bind fun _ => looks_get_bind fun _ => rfl

theorem looks_addPath (n : NodeId) (parent : Option PathId) (slot : Option Int) :
    Looks (addPath n parent slot) := by
  unfold addPath
  split
  · exact fun _ => rfl
  · refine looks_get_bind fun d => ?_
    split
    · rfl
    · split_ifs
      · rfl
      · rfl
  · exact fun _ => rfl

end Looking

/-! ## One edit -/

theorem step_setChildren (n : NodeId) (children : List NodeId) (d : Document) :
    d.forest.Step (perform (setChildren n children) d).2.forest :=
  .modify n fun _ => rfl

/-- Replacing leaves all nodes as they are, or puts the nodes in a slot that holds the path's
node. -/
theorem forest_replace (p : PathId) (nodes : List NodeId) (d : Document) :
    (perform (replace p nodes) d).2.forest = d.forest ∨
      ∃ q slot field, Slot.get? (d.nodeAt q).children slot = some (d.path p).node ∧
        (perform (replace p nodes) d).2.forest = d.forest.modify (d.path q).node fun x =>
          { x with
            children := Slot.splice x.children slot (slot + 1) nodes
            fields := Slot.splice x.fields slot (slot + 1)
              (List.replicate nodes.length field) } := by
  rcases replace_cases p nodes d with ⟨e, h⟩ | ⟨n, rfl, -, h⟩ |
    ⟨q, slot, field, -, -, hheld, -, ⟨rfl, h⟩ | ⟨n, rest, rfl, h⟩⟩
  · exact .inl (by rw [h])
  · exact .inl (by rw [h, Document.forest_retarget])
  · exact .inr ⟨q, slot, field, hheld, by rw [h, Document.forest_detach, Document.forest_spliceSlot]⟩
  · refine .inr ⟨q, slot, field, hheld, ?_⟩
    -- the paths behind the slot are only looked up
    rw [h, Looks.mapM (fun i : Nat => looks_child q (slot + 1 + i)), Document.forest_enter,
      Document.forest_retarget, Document.forest_spliceSlot]

theorem step_replace (p : PathId) (nodes : List NodeId) (d : Document) :
    d.forest.Step (perform (replace p nodes) d).2.forest := by
  rcases forest_replace p nodes d with h | ⟨q, slot, field, -, h⟩
  · rw [h]
    exact .same
  · rw [h]
    exact .modify _ fun _ => rfl

/-- An edit is one step of the forest, whether it succeeds or not. -/
theorem Elementary.step {α : Type} {x : Edit α} (h : Elementary x) (d : Document) :
    d.forest.Step (perform x d).2.forest := by
  have hlook : ∀ {α : Type} {x : Edit α}, Looks x → d.forest.Step (perform x d).2.forest := by
    intro α x hx
    rw [hx d]
    exact .same
  cases h with
  | addNode h =>
    rw [perform_addNode]
    exact .add h
  | modifyNode n h => exact .modify n h
  | setChildren n children => exact step_setChildren n children d
  | insertChild n slot c =>
    unfold Edit.insertChild
    split_ifs
    · exact .same
    · exact step_setChildren n _ d
  | setChild n slot c =>
    unfold Edit.setChild
    rw [perform_bind_of_ok (perform_get d)]
    split
    · exact step_setChildren n _ d
    · exact .same
  | eraseChild n slot =>
    unfold Edit.eraseChild
    rw [perform_bind_of_ok (perform_get d)]
    split
    · exact step_setChildren n _ d
    · exact .same
  | addRoot n => exact .same
  | addPath n parent slot => exact hlook (looks_addPath n parent slot)
  | modifyPath p change => exact .same
  | child p index => exact hlook (looks_child p index)
  | childPaths p => exact hlook (looks_childPaths p)
  | walk p => exact hlook (looks_walk p)
  | find p wanted => exact hlook (looks_find p wanted)
  | replace p nodes => exact step_replace p nodes d
  | prune p =>
    have hstep := step_replace p [] d
    unfold Edit.prune
    rw [perform_bind_of_ok (perform_get d), perform_bind]
    rcases hr : perform (Edit.replace p []) d with ⟨e | a, d'⟩ <;> rw [hr] at hstep
    · exact hstep
    · exact hstep

end Edit

/-! ## What a step leaves alone -/

namespace Forest

theorem node_eq_default {f : Forest} {m : Nat} (h : f.size ≤ m) : f.node m = default := by
  unfold node
  unfold size at h
  simp [Array.getD, h]

theorem modify_eq_self {f : Forest} {n : Nat} (h : f.size ≤ n) (change : Node → Node) :
    f.modify n change = f := by
  unfold size at h
  simp only [modify, Array.modify, Array.modifyM, dif_neg (Nat.not_lt.2 h)]
  rfl

/-- Nodes have come, and those that were there remember what they did. -/
structure Remembers (f g : Forest) : Prop where
  size : f.size ≤ g.size
  memory : ∀ m, m < f.size → (g.node m).memory = (f.node m).memory

theorem Remembers.refl (f : Forest) : f.Remembers f :=
  ⟨le_rfl, fun _ _ => rfl⟩

theorem Remembers.trans {f g h : Forest} (hfg : f.Remembers g) (hgh : g.Remembers h) :
    f.Remembers h :=
  ⟨hfg.size.trans hgh.size, fun m hm =>
    (hgh.memory m (Nat.lt_of_lt_of_le hm hfg.size)).trans (hfg.memory m hm)⟩

section Remembered

variable {f g : Forest} (h : f.Remembers g) {m : Nat} (hm : m < f.size)

include h hm

theorem Remembers.span : (g.node m).span = (f.node m).span :=
  congrArg (·.1) (h.memory m hm)

theorem Remembers.source : (g.node m).source = (f.node m).source :=
  congrArg (·.2.1) (h.memory m hm)

theorem Remembers.snapshot : (g.node m).snapshot = (f.node m).snapshot :=
  congrArg (·.2.2) (h.memory m hm)

end Remembered

theorem Step.remembers {f g : Forest} (h : f.Step g) : f.Remembers g := by
  cases h with
  | same => exact .refl f
  | add _ =>
    refine ⟨by simp, fun m hm => ?_⟩
    rw [node_add, if_neg (Nat.ne_of_lt hm)]
  | modify n hc =>
    refine ⟨by simp, fun m hm => ?_⟩
    by_cases hn : n < f.size
    · rw [node_modify _ _ _ _ hn]
      split_ifs
      · exact hc _
      · rfl
    · rw [modify_eq_self (Nat.le_of_not_lt hn)]

/-- A step makes no node that looks parsed. -/
theorem Step.snapshot_new {f g : Forest} (h : f.Step g) {m : Nat} (hm : f.size ≤ m) :
    (g.node m).snapshot = none := by
  cases h with
  | same =>
    rw [node_eq_default hm]
    rfl
  | @add x hx =>
    rw [node_add]
    split_ifs
    · exact hx
    · rw [node_eq_default hm]
      rfl
  | modify n hc =>
    rw [node_eq_default (by simpa using hm)]
    rfl

end Forest

theorem SyntaxTree.Rooted.remembers {source : Source} {t : SyntaxTree} {f g : Forest} {root : Nat}
    (h : Rooted source t f g root) : f.Remembers g :=
  ⟨by rw [h.size]; omega, fun m hm => by rw [h.others m hm]⟩

/-! ## Histories -/

theorem Work.document_edit {η α : Type} (x : Edit α) (w : Workspace η) :
    (perform (Work.edit x) w).2.document = (perform x w.document).2 := by
  unfold Work.edit
  rw [perform_bind_of_ok (perform_get w), perform_bind_of_ok (perform_set w _)]
  rcases (perform x w.document).1 with e | a
  · rfl
  · rfl

/-- What comes of a workspace by parses, of which the grammar makes trees that fit the text, by
edits, and by work that leaves the document alone. -/
inductive Worked {η : Type} (fits : String → SyntaxTree → Prop) (w₀ : Workspace η) :
    Workspace η → Prop
  | start : Worked fits w₀ w₀
  | parse {w w' : Workspace η} {parser : ParserId} {text : String} {root : NodeId}
    (h : Worked fits w₀ w) (hp : perform (Work.parse parser text) w = (.ok root, w'))
    (hf : ∀ parsed, w.grammars.tree (w.parsers.getD parser default).language text = some parsed →
      fits text parsed.root) : Worked fits w₀ w'
  | edit {w : Workspace η} {α : Type} {x : Edit α} (h : Worked fits w₀ w)
    (hx : Edit.Elementary x) : Worked fits w₀ (perform (Work.edit x) w).2
  | aside {w w' : Workspace η} (h : Worked fits w₀ w) (hd : w'.document = w.document) :
    Worked fits w₀ w'

namespace Worked

variable {η : Type} {fits : String → SyntaxTree → Prop} {w₀ w : Workspace η}

theorem trans {w' : Workspace η} (h : Worked fits w₀ w) (h' : Worked fits w w') :
    Worked fits w₀ w' := by
  induction h' with
  | start => exact h
  | parse _ hp hf ih => exact .parse ih hp hf
  | edit _ hx ih => exact .edit ih hx
  | aside _ hd ih => exact .aside ih hd

/-- What planting a tree that fits and one step keep, a whole history keeps. -/
theorem invariant {I : Forest → Prop} (h : Worked fits w₀ w)
    (hplant : ∀ {stamp text t f g root}, fits text t →
      SyntaxTree.Rooted (.ofText stamp text) t f g root → I f → I g)
    (hstep : ∀ {f g : Forest}, f.Step g → I f → I g) (h₀ : I w₀.document.forest) :
    I w.document.forest := by
  induction h with
  | start => exact h₀
  | parse _ hp hf ih =>
    obtain ⟨stamp, parsed, g, htree, hplanted, hd⟩ := Work.parse_eq_ok hp
    rw [hd]
    exact hplant (hf parsed htree) (SyntaxTree.rooted_of_plant hplanted) ih
  | @edit w α x _ hx ih =>
    rw [Work.document_edit]
    exact hstep (hx.step w.document) ih
  | aside _ hd ih =>
    rw [hd]
    exact ih

/-- All through a history, nodes remember what they did. -/
theorem remembers (h : Worked fits w₀ w) : w₀.document.forest.Remembers w.document.forest :=
  h.invariant (fun _ hr hf => hf.trans hr.remembers) (fun hs hf => hf.trans hs.remembers)
    (.refl _)

end Worked

/-- A grammar under which one text is a pair of names and every other a single name. -/
def pairGrammars : Grammars where
  table := []
  tree _ text := some (if text = "a é" then
    ⟨.node "pair" 0 4 true false none [.node "name" 0 1 true false none [],
      .node "name" 2 4 true false none []], false⟩
    else ⟨.node "name" 0 text.utf8ByteSize true false none [], false⟩)

/-- A workspace with one parser. -/
def pairWorkspace : Workspace Unit :=
  ⟨.empty, .start "" default, pairGrammars, #[⟨"python", true, true⟩], #[], #[], 0, #[]⟩

/-- The pair is parsed. -/
def pairParsed : Workspace Unit :=
  (perform (Work.parse 0 "a é") pairWorkspace).2

theorem parse_pair : perform (Work.parse 0 "a é") pairWorkspace = (.ok 0, pairParsed) :=
  perform_eq_of_toOption (by decide +kernel)

end Retouch
