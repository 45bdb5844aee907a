import Retouch.Outcome
import Retouch.Proofs.PristineMap

/-!
# Printing as a recursion

The printer takes pieces off a stack. Below an acyclic node the loop comes to an end within its
budget and writes what the recursion over the node's pieces writes, failures included
(`print_some`, `print_none`). `Printer.textOf` is that recursion over a base text; it satisfies the
equation `textOf_eq`, in which every child contributes what it contributes alone.
-/

namespace Retouch

namespace Piece

/-- The nodes among pieces, in order. -/
def nodes : List Piece → List NodeId
  | [] => []
  | .text _ :: rest => nodes rest
  | .node n :: rest => n :: nodes rest

/-- The number of pieces that are text. -/
def texts : List Piece → Nat
  | [] => 0
  | .text _ :: rest => texts rest + 1
  | .node _ :: rest => texts rest

theorem nodes_append : ∀ ps qs : List Piece, nodes (ps ++ qs) = nodes ps ++ nodes qs
  | [], _ => rfl
  | .text _ :: ps, qs => nodes_append ps qs
  | .node n :: ps, qs => congrArg (n :: ·) (nodes_append ps qs)

theorem texts_append : ∀ ps qs : List Piece, texts (ps ++ qs) = texts ps + texts qs
  | [], _ => by simp [texts]
  | .text _ :: ps, qs => by simp only [List.cons_append, texts, texts_append ps qs]; omega
  | .node _ :: ps, qs => by simp only [List.cons_append, texts, texts_append ps qs]

end Piece

/-- The text of pieces, in which `inner` gives the text of the nodes. -/
def writeAll (inner : NodeId → Except Fault String) : List Piece → Except Fault String
  | [] => .ok ""
  | .text s :: rest => do
    let u ← writeAll inner rest
    return s ++ u
  | .node n :: rest => do
    let u ← inner n
    let v ← writeAll inner rest
    return u ++ v

/-- The text of a node whose pieces are known, down to a depth. -/
def renderTo (expansion : NodeId → Except Fault (List Piece)) : Nat → NodeId → Except Fault String
  | 0, _ => .error .endless
  | depth + 1, n => do
    let pieces ← expansion n
    writeAll (renderTo expansion depth) pieces

theorem writeAll_congr {g h : NodeId → Except Fault String} :
    ∀ (ps : List Piece), (∀ n ∈ Piece.nodes ps, g n = h n) → writeAll g ps = writeAll h ps
  | [], _ => rfl
  | .text s :: ps, hp => by
    simp only [writeAll]
    rw [writeAll_congr ps hp]
  | .node n :: ps, hp => by
    simp only [writeAll]
    rw [hp n (by simp [Piece.nodes]),
      writeAll_congr ps fun m hm => hp m (by simp [Piece.nodes, hm])]

theorem writeAll_append (g : NodeId → Except Fault String) {u v : String} :
    ∀ {ps qs : List Piece}, writeAll g ps = .ok u → writeAll g qs = .ok v →
      writeAll g (ps ++ qs) = .ok (u ++ v)
  | [], qs, hp, hq => by
    simp only [writeAll, Except.ok.injEq] at hp
    subst hp
    simpa using hq
  | .text s :: ps, qs, hp, hq => by
    simp only [writeAll, List.cons_append] at hp ⊢
    obtain ⟨w, hw, hu⟩ := bind_eq_ok.1 hp
    simp only [pure_eq_ok, Except.ok.injEq] at hu
    rw [writeAll_append g hw hq, ← hu]
    simp [String.append_assoc]
  | .node n :: ps, qs, hp, hq => by
    simp only [writeAll, List.cons_append] at hp ⊢
    obtain ⟨x, hx, hp⟩ := bind_eq_ok.1 hp
    obtain ⟨w, hw, hu⟩ := bind_eq_ok.1 hp
    simp only [pure_eq_ok, Except.ok.injEq] at hu
    rw [writeAll_append g hw hq, hx, ← hu]
    simp [String.append_assoc]

/-! ## Expansions -/

/-- An expansion makes of a node some of its children and not much more text than it has
children. -/
def Descends (f : Forest) (expansion : NodeId → Except Fault (List Piece)) : Prop :=
  ∀ n pieces, expansion n = .ok pieces →
    (Piece.nodes pieces).Sublist (f.node n).children ∧
      Piece.texts pieces ≤ (f.node n).children.length + 2

section Descent

variable {f : Forest} {expansion : NodeId → Except Fault (List Piece)}

theorem renderTo_mono (hd : Descends f expansion) : ∀ {k l : Nat} {n : NodeId}, f.Within k n →
    k ≤ l → renderTo expansion l n = renderTo expansion k n
  | 0, _, _, h, _ => h.elim
  | k + 1, 0, _, _, hl => by omega
  | k + 1, l + 1, n, h, hl => by
    simp only [renderTo]
    rcases hn : expansion n with e | pieces
    · rfl
    · refine writeAll_congr _ fun c hc => renderTo_mono hd (h c ?_) (by omega)
      exact (hd n pieces hn).1.subset hc

theorem renderTo_congr {other : NodeId → Except Fault (List Piece)} (hd : Descends f expansion) :
    ∀ (k : Nat) {n : NodeId}, (∀ m, f.Below n m → expansion m = other m) →
      renderTo expansion k n = renderTo other k n
  | 0, _, _ => rfl
  | k + 1, n, h => by
    simp only [renderTo]
    rw [← h n (Forest.Below.refl n)]
    rcases hn : expansion n with e | pieces
    · rfl
    · refine writeAll_congr _ fun c hc => renderTo_congr hd k fun m hm => h m ?_
      exact Forest.Below.of_child ((hd n pieces hn).1.subset hc) hm

/-- Pieces of bounded depth are taken off the stack one after the other, and written as the
recursion writes them. -/
theorem emit_within (hd : Descends f expansion) : ∀ (depth : Nat) (ps : List Piece),
    (∀ n ∈ Piece.nodes ps, f.Within depth n) →
    ∃ steps ≤ Piece.texts ps + (Piece.nodes ps).length * f.cost depth,
      ∀ fuel rest written, Printer.emit expansion (fuel + steps) (ps ++ rest) written = do
        let u ← writeAll (renderTo expansion depth) ps
        Printer.emit expansion fuel rest (written ++ u)
  | _, [], _ => ⟨0, by simp, fun fuel rest written => by simp [writeAll]⟩
  | depth, .text s :: ps, h => by
    obtain ⟨steps, hle, hrun⟩ := emit_within hd depth ps h
    refine ⟨steps + 1, by simp only [Piece.texts, Piece.nodes]; omega, fun fuel rest written => ?_⟩
    rw [← Nat.add_assoc, List.cons_append, Printer.emit, hrun, writeAll]
    rcases writeAll (renderTo expansion depth) ps with e | u
    · rfl
    · simp [String.append_assoc]
  | 0, .node n :: ps, h => (h n (by simp [Piece.nodes])).elim
  | depth + 1, .node n :: ps, h => by
    have hn : f.Within (depth + 1) n := h n (by simp [Piece.nodes])
    obtain ⟨s2, hle2, hrun2⟩ := emit_within hd (depth + 1) ps
      fun m hm => h m (by simp [Piece.nodes, hm])
    simp only [Piece.texts, Piece.nodes, List.length_cons, Nat.succ_mul]
    rcases he : expansion n with e | pieces
    · refine ⟨1, by have := f.cost_pos (depth + 1); omega, fun fuel rest written => ?_⟩
      rw [List.cons_append, Printer.emit, he]
      simp [writeAll, renderTo, he]
    · obtain ⟨hsub, htexts⟩ := hd n pieces he
      obtain ⟨s1, hle1, hrun1⟩ := emit_within hd depth pieces fun c hc => hn c (hsub.subset hc)
      have hlen := Nat.mul_le_mul_right (f.cost depth) hsub.length_le
      have hcost := hn.cost_children
      have hr : renderTo expansion (depth + 1) n = writeAll (renderTo expansion depth) pieces := by
        simp only [renderTo, he]
        rfl
      refine ⟨s2 + s1 + 1, by omega, fun fuel rest written => ?_⟩
      rw [← Nat.add_assoc, ← Nat.add_assoc, List.cons_append, Printer.emit, he]
      simp only [hrun1, hrun2]
      rw [writeAll, hr]
      rcases writeAll (renderTo expansion depth) pieces with e | u
      · rfl
      · rcases writeAll (renderTo expansion (depth + 1)) ps with e | v
        · rfl
        · simp [String.append_assoc]
termination_by depth ps => (depth, ps.length)

/-- Below an acyclic node the printing loop writes what the recursion writes. -/
theorem emit_budget (hd : Descends f expansion) {n : NodeId} (h : f.Acyclic n) :
    Printer.emit expansion f.budget [.node n] "" = renderTo expansion (f.size + 1) n := by
  obtain ⟨steps, hle, hrun⟩ := emit_within hd (f.size + 1) [.node n]
    (by simpa [Piece.nodes] using h.within)
  obtain ⟨fuel, hfuel⟩ := f.exists_budget_eq (by simpa [Piece.texts, Piece.nodes] using hle)
  have := hrun fuel [] ""
  rw [hfuel]
  rw [List.append_nil] at this
  rw [this]
  simp only [writeAll]
  rcases renderTo expansion (f.size + 1) n with e | u
  · rfl
  · simp [Printer.emit]

/-- In the recursion every child is written as it is alone. -/
theorem renderTo_eq (hd : Descends f expansion) {n : NodeId} (h : f.Acyclic n) :
    renderTo expansion (f.size + 1) n =
      (expansion n >>= writeAll (renderTo expansion (f.size + 1))) := by
  rw [renderTo]
  rcases he : expansion n with e | pieces
  · rfl
  · refine writeAll_congr _ fun c hc => (renderTo_mono hd ?_ (Nat.le_succ _)).symm
    exact h.within c ((hd n pieces he).1.subset hc)

end Descent

namespace Printer

variable {f : Forest} (p : Printer)

/-! ## The pieces of a node -/

theorem nodes_joinedAfter : ∀ (prev : NodeId) (cs : List NodeId),
    Piece.nodes (p.joinedAfter f prev cs) = cs ∧ Piece.texts (p.joinedAfter f prev cs) ≤ cs.length
  | _, [] => ⟨rfl, Nat.le_refl 0⟩
  | prev, c :: cs => by
    obtain ⟨h1, h2⟩ := nodes_joinedAfter c cs
    unfold joinedAfter
    split
    · simp only [List.cons_append, List.nil_append, Piece.nodes, Piece.texts, h1, List.length_cons]
      exact ⟨trivial, by omega⟩
    · simp only [List.nil_append, Piece.nodes, Piece.texts, h1, List.length_cons]
      exact ⟨trivial, by omega⟩

theorem nodes_joined (cs : List NodeId) :
    Piece.nodes (p.joined f cs) = cs ∧ Piece.texts (p.joined f cs) ≤ cs.length := by
  cases cs with
  | nil => exact ⟨rfl, Nat.le_refl 0⟩
  | cons c cs =>
    obtain ⟨h1, h2⟩ := nodes_joinedAfter (f := f) p c cs
    simp only [joined, Piece.nodes, Piece.texts, h1, List.length_cons]
    exact ⟨trivial, by omega⟩

theorem nodes_gappedAfter {source : Source} {former : List NodeId} {count : Nat} :
    ∀ (i : Nat) (prev : NodeId) (cs : List NodeId) (pieces : List Piece),
      p.gappedAfter f source former count i prev cs = .ok pieces →
      Piece.nodes pieces = cs ∧ Piece.texts pieces = cs.length
  | _, _, [], pieces, h => by
    simp only [gappedAfter, Except.ok.injEq] at h
    subst h
    exact ⟨rfl, rfl⟩
  | i, prev, c :: cs, pieces, h => by
    simp only [gappedAfter] at h
    obtain ⟨u, -, h⟩ := bind_eq_ok.1 h
    obtain ⟨rest, hr, h⟩ := bind_eq_ok.1 h
    simp only [pure_eq_ok, Except.ok.injEq] at h
    subst h
    obtain ⟨h1, h2⟩ := nodes_gappedAfter (i + 1) c cs rest hr
    simp [Piece.nodes, Piece.texts, h1, h2]

theorem nodes_gapped {source : Source} {former cs : List NodeId} {pieces : List Piece}
    (h : p.gapped f source former cs = .ok pieces) :
    Piece.nodes pieces = cs ∧ Piece.texts pieces ≤ cs.length := by
  unfold gapped at h
  cases cs with
  | nil =>
    simp only [Except.ok.injEq] at h
    subst h
    exact ⟨rfl, Nat.le_refl 0⟩
  | cons c cs =>
    obtain ⟨rest, hr, h⟩ := bind_eq_ok.1 h
    simp only [pure_eq_ok, Except.ok.injEq] at h
    subst h
    obtain ⟨h1, h2⟩ := nodes_gappedAfter p 1 c cs rest hr
    simp [Piece.nodes, Piece.texts, h1, h2]

theorem nodes_rebuilt {node : Node} {source : Source} {span : Int × Int} {pieces : List Piece}
    (h : p.rebuilt f node source span = .ok pieces) :
    Piece.nodes pieces = node.children ∧ Piece.texts pieces ≤ node.children.length + 2 := by
  unfold rebuilt at h
  split at h
  · obtain ⟨head, -, h⟩ := bind_eq_ok.1 h
    obtain ⟨leading, -, h⟩ := bind_eq_ok.1 h
    obtain ⟨inner, hi, h⟩ := bind_eq_ok.1 h
    obtain ⟨tail, -, h⟩ := bind_eq_ok.1 h
    obtain ⟨trailing, -, h⟩ := bind_eq_ok.1 h
    simp only [pure_eq_ok, Except.ok.injEq] at h
    subst h
    obtain ⟨h1, h2⟩ := nodes_gapped p hi
    simp only [List.cons_append, Piece.nodes, Piece.texts, Piece.nodes_append, Piece.texts_append,
      h1, List.append_nil]
    exact ⟨trivial, by omega⟩
  · obtain ⟨h1, h2⟩ := nodes_gapped p h
    exact ⟨h1, by omega⟩

theorem descends_expand (pristine : NodeId → Bool) : Descends f (p.expand f pristine) := by
  intro n pieces h
  have hone : ∀ s, pieces = [.text s] → (Piece.nodes pieces).Sublist (f.node n).children ∧
      Piece.texts pieces ≤ (f.node n).children.length + 2 := by
    rintro s rfl
    simp [Piece.nodes, Piece.texts]
  unfold expand at h
  simp only at h
  split_ifs at h
  · split at h
    · obtain ⟨u, -, h⟩ := bind_eq_ok.1 h
      simp only [pure_eq_ok, Except.ok.injEq] at h
      exact hone u h.symm
    · simp at h
  · split at h
    · rename_i t ht
      simp only [Except.ok.injEq] at h
      exact hone t h.symm
    · split at h
      · obtain ⟨h1, h2⟩ := nodes_rebuilt p h
        exact ⟨by rw [h1], h2⟩
      · simp only [Except.ok.injEq] at h
        obtain ⟨h1, h2⟩ := nodes_joined (f := f) p (f.node n).children
        rw [← h]
        exact ⟨by rw [h1], by omega⟩

theorem descends_expandPlain : Descends f (p.expandPlain f) := by
  intro n pieces h
  unfold expandPlain at h
  simp only at h
  split_ifs at h
  · simp only [Except.ok.injEq] at h
    subst h
    simp [Piece.nodes, Piece.texts]
  · simp only [Except.ok.injEq] at h
    obtain ⟨h1, h2⟩ := nodes_joined (f := f) p (f.node n).children
    rw [← h]
    exact ⟨by rw [h1], by omega⟩

/-! ## The text of a node -/

variable (f)

/-- The text of a node over a base text, by recursion over its pieces. -/
def textOf (n : NodeId) : Except Fault String :=
  renderTo (p.expand f f.isPristine) (f.size + 1) n

/-- The text of a node without a base text, by recursion over its pieces. -/
def plainTextOf (n : NodeId) : Except Fault String :=
  renderTo (p.expandPlain f) (f.size + 1) n

variable {f}

/-- A node is written from its pieces, with every child written as it is alone. -/
theorem textOf_eq {n : NodeId} (h : f.Acyclic n) :
    p.textOf f n = (p.expand f f.isPristine n >>= writeAll (p.textOf f)) :=
  renderTo_eq (p.descends_expand f.isPristine) h

theorem plainTextOf_eq {n : NodeId} (h : f.Acyclic n) :
    p.plainTextOf f n = (p.expandPlain f n >>= writeAll (p.plainTextOf f)) :=
  renderTo_eq p.descends_expandPlain h

/-- A pristine node is the slice of its source. -/
theorem textOf_pristine {n : NodeId} (h : f.Acyclic n) (hp : f.isPristine n = true)
    {source : Source} {span : Int × Int} (hs : (f.node n).source = some source)
    (hsp : (f.node n).span = some span) : p.textOf f n = source.slice span.1 span.2 := by
  rw [textOf_eq p h]
  simp only [expand, hp, if_true, hs, hsp]
  rcases source.slice span.1 span.2 with e | u
  · rfl
  · simp [writeAll]

/-- Over a base text the printer writes the text of an acyclic node. -/
theorem print_some {n : NodeId} (h : f.Acyclic n) (base : Source) :
    p.print f n (some base) = p.textOf f n := by
  have hd := p.descends_expand (f := f) fun m => (f.pristineMap n).getD m false
  unfold print textOf
  simp only
  rw [emit_budget hd h]
  refine renderTo_congr hd _ fun m hm => ?_
  simp only [expand, Forest.getD_pristineMap h hm]

/-- Without a base text the printer writes the plain text of an acyclic node. -/
theorem print_none {n : NodeId} (h : f.Acyclic n) : p.print f n none = p.plainTextOf f n :=
  emit_budget p.descends_expandPlain h

end Printer

end Retouch
