import Retouch.Proofs.Planting
import Retouch.Proofs.Slicing

/-!
# Trees laid out over a text

A tree is well formed over a text if the spans of its children lie within its own, one after the
other, and if all offsets are character boundaries. The leaves of such a tree can be read off the
text, so it can be planted (`WellFormed.decodes`).
-/

namespace Retouch

instance (text : String) (i : Nat) : Decidable (Boundary text i) :=
  inferInstanceAs (Decidable (String.Pos.Raw.IsValid text _))

namespace SyntaxTree

mutual

/-- The tree's offsets are boundaries, and its children are well placed within its span. -/
def WellFormed (text : String) : SyntaxTree → Prop
  | .node _ start stop _ _ _ children =>
    Boundary text start ∧ Boundary text stop ∧ WellPlaced text start stop children

/-- The trees are well formed and follow each other between two offsets. -/
def WellPlaced (text : String) : Nat → Nat → List SyntaxTree → Prop
  | a, b, [] => a ≤ b
  | a, b, t :: ts => a ≤ t.start ∧ WellFormed text t ∧ WellPlaced text t.stop b ts

end

mutual

instance decidableWellFormed (text : String) : ∀ t : SyntaxTree, Decidable (t.WellFormed text)
  | .node _ start stop _ _ _ children =>
    have := decidableWellPlaced text start stop children
    inferInstanceAs (Decidable (_ ∧ _ ∧ _))

instance decidableWellPlaced (text : String) :
    ∀ (a b : Nat) (ts : List SyntaxTree), Decidable (WellPlaced text a b ts)
  | a, b, [] => inferInstanceAs (Decidable (a ≤ b))
  | _, b, t :: ts =>
    have := decidableWellFormed text t
    have := decidableWellPlaced text t.stop b ts
    inferInstanceAs (Decidable (_ ∧ _ ∧ _))

end

variable {text : String}

theorem wellFormed_iff {t : SyntaxTree} : t.WellFormed text ↔
    Boundary text t.start ∧ Boundary text t.stop ∧
      WellPlaced text t.start t.stop t.children := by
  cases t
  rfl

/-- Well-placed trees leave room between their bounds. -/
theorem WellPlaced.le : ∀ {ts : List SyntaxTree} {a b : Nat}, WellPlaced text a b ts → a ≤ b
  | [], _, _, h => h
  | t :: ts, a, b, ⟨h1, h2, h3⟩ => by
    have := count_eq t
    have ht := WellPlaced.le (wellFormed_iff.1 h2).2.2
    have hts := h3.le
    omega
termination_by ts => countAll ts
decreasing_by
  all_goals
    simp only [countAll]
    omega

theorem WellFormed.le {t : SyntaxTree} (h : t.WellFormed text) : t.start ≤ t.stop :=
  (wellFormed_iff.1 h).2.2.le

theorem WellPlaced.widen : ∀ {ts : List SyntaxTree} {a a' b b' : Nat}, a' ≤ a → b ≤ b' →
    WellPlaced text a b ts → WellPlaced text a' b' ts
  | [], _, _, _, _, ha, hb, h => Nat.le_trans (Nat.le_trans ha h) hb
  | _ :: _, _, _, _, _, ha, hb, ⟨h1, h2, h3⟩ => ⟨Nat.le_trans ha h1, h2, h3.widen le_rfl hb⟩

/-- The tree with a span over so many bytes, as the root of a parse has it. -/
def spanning (size : Nat) : SyntaxTree → SyntaxTree
  | .node kind _ _ named missing field children => .node kind 0 size named missing field children

@[simp]
theorem start_spanning (t : SyntaxTree) (size : Nat) : (t.spanning size).start = 0 := by
  cases t
  rfl

@[simp]
theorem stop_spanning (t : SyntaxTree) (size : Nat) : (t.spanning size).stop = size := by
  cases t
  rfl

@[simp]
theorem children_spanning (t : SyntaxTree) (size : Nat) :
    (t.spanning size).children = t.children := by
  cases t
  rfl

@[simp]
theorem count_spanning (t : SyntaxTree) (size : Nat) : (t.spanning size).count = t.count := by
  rw [count_eq, count_eq, children_spanning]

theorem WellFormed.spanning {t : SyntaxTree} (h : t.WellFormed text) :
    (t.spanning text.toUTF8.size).WellFormed text := by
  obtain ⟨-, hstop, hplaced⟩ := wellFormed_iff.1 h
  rw [wellFormed_iff, start_spanning, stop_spanning, children_spanning]
  exact ⟨boundary_zero text, boundary_size text, hplaced.widen (Nat.zero_le _) hstop.le_size⟩

theorem WellPlaced.decodes (stamp : Nat) : ∀ {ts : List SyntaxTree} {a b : Nat},
    WellPlaced text a b ts → DecodesAll (.ofText stamp text) ts
  | [], _, _, _ => trivial
  | t :: ts, a, b, ⟨_, h2, h3⟩ => by
    have := count_eq t
    obtain ⟨hstart, hstop, hbelow⟩ := wellFormed_iff.1 h2
    refine ⟨decodes_iff.2 ⟨?_, hbelow.decodes stamp⟩, h3.decodes stamp⟩
    unfold leafText
    split_ifs with hc
    · obtain ⟨u, hu, -⟩ := Source.slice_ofText stamp hstart hstop h2.le
      exact ⟨some u, by rw [hu]; rfl⟩
    · exact ⟨none, rfl⟩
termination_by ts => countAll ts
decreasing_by
  all_goals
    simp only [countAll]
    omega

/-- A tree without children stands with the slice of its span as text. -/
theorem Stands.leaf {stamp : Nat} {t : SyntaxTree} {g : Forest} {n : NodeId}
    (h : Stands (.ofText stamp text) g t n) (ht : t.WellFormed text) (hc : t.children = []) :
    ∃ v, (Source.ofText stamp text).slice t.start t.stop = .ok v ∧
      v.toUTF8 = text.toUTF8.extract t.start t.stop ∧
      g.node n = grown (.ofText stamp text) t (some v) n := by
  obtain ⟨hstart, hstop, -⟩ := wellFormed_iff.1 ht
  obtain ⟨v, hv, hbytes⟩ := Source.slice_ofText stamp hstart hstop ht.le
  obtain ⟨u, hu, hg⟩ := h
  obtain rfl : some v = u := by simpa [leafText, hc, hv, Except.map] using hu
  exact ⟨v, hv, hbytes, hg⟩

theorem Stands.inner {source : Source} {t : SyntaxTree} {g : Forest} {n : NodeId}
    (h : Stands source g t n) (hc : t.children ≠ []) : g.node n = grown source t none n := by
  obtain ⟨u, hu, hg⟩ := h
  obtain rfl : none = u := by simpa [leafText, hc] using hu
  exact hg

/-- A root with children stands for the tree with the span of the whole source. -/
theorem Rooted.stands {stamp : Nat} {t : SyntaxTree} {f g : Forest} {root : Nat}
    (h : Rooted (.ofText stamp text) t f g root) (hc : t.children ≠ []) :
    (t.spanning text.toUTF8.size).Stands (.ofText stamp text) g root := by
  obtain ⟨u, hu, htop⟩ := h.top
  obtain rfl : none = u := by simpa [leafText, hc] using hu
  refine ⟨none, by simp [leafText, hc], ?_⟩
  rw [htop]
  cases t
  rfl

/-- A tree that is well formed over a text can be planted. -/
theorem WellFormed.decodes {t : SyntaxTree} (h : t.WellFormed text) (stamp : Nat) :
    Decodes (.ofText stamp text) t :=
  (WellPlaced.decodes stamp (show WellPlaced text t.start t.stop [t] from
    ⟨le_rfl, h, le_rfl⟩)).1

end SyntaxTree

end Retouch
