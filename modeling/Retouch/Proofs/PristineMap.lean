import Retouch.Printer
import Retouch.Proofs.Descent

/-!
# The pristine map

The printer settles once for every node below the root whether it is pristine, children before
parents, off a stack on which a shared node may wait several times. A turn of the loop drops an
entry, lets a node wait below its children, or settles a node from the flags of its children
(`Turn`). The turns are counted (`Turns`), so that the printer's loop is as many of them as it may
take (`Turns.pristineMapFrom_eq`). Below an acyclic node the loop runs to its end
(`settles_within`), the map ends up with exactly the nodes there (`mem_pristineMap`), and says of
each what walking it would say (`getD_pristineMap`).
-/

namespace Retouch.Forest

variable {f : Forest}

/-- A memo whose entries are right and whose keys are closed under children. -/
structure Settled (f : Forest) (memo : Std.HashMap NodeId Bool) : Prop where
  closed : ∀ n ∈ memo, ∀ m, f.Below n m → m ∈ memo
  right : ∀ n ∈ memo, memo.getD n false = true ↔ ∀ m, f.Below n m → (f.node m).isModified = false

theorem settled_empty (f : Forest) : f.Settled ∅ where
  closed := fun _ hn => absurd hn Std.HashMap.not_mem_empty
  right := fun _ hn => absurd hn Std.HashMap.not_mem_empty

/-- The flag of a node whose children are settled is right. -/
theorem Settled.flag {memo : Std.HashMap NodeId Bool} (h : f.Settled memo) {n : NodeId}
    (hc : ∀ c ∈ (f.node n).children, c ∈ memo) :
    (!(f.node n).isModified && (f.node n).children.all fun c => memo.getD c false) = true ↔
      ∀ m, f.Below n m → (f.node m).isModified = false := by
  simp only [Bool.and_eq_true, Bool.not_eq_true', List.all_eq_true]
  constructor
  · rintro ⟨hn, hall⟩ m hm
    rcases below_iff.1 hm with rfl | ⟨c, hcn, hcm⟩
    · exact hn
    · exact (h.right c (hc c hcn)).1 (hall c hcn) m hcm
  · intro hall
    refine ⟨hall n (Below.refl n), fun c hcn => ?_⟩
    exact (h.right c (hc c hcn)).2 fun m hm => hall m (Below.of_child hcn hm)

theorem Settled.insert {memo : Std.HashMap NodeId Bool} (h : f.Settled memo) {n : NodeId}
    (hn : n ∉ memo) (hc : ∀ c ∈ (f.node n).children, c ∈ memo) :
    f.Settled (memo.insert n
      (!(f.node n).isModified && (f.node n).children.all fun c => memo.getD c false)) where
  closed := by
    intro a ha m hm
    rw [Std.HashMap.mem_insert] at ha ⊢
    rcases ha with ha | ha
    · obtain rfl : n = a := by simpa using ha
      rcases below_iff.1 hm with rfl | ⟨c, hcn, hcm⟩
      · simp
      · exact Or.inr (h.closed c (hc c hcn) m hcm)
    · exact Or.inr (h.closed a ha m hm)
  right := by
    intro a ha
    rw [Std.HashMap.getD_insert]
    by_cases he : n = a
    · subst he
      simpa using h.flag hc
    · have ham : a ∈ memo := by simpa [Std.HashMap.mem_insert, he] using ha
      simpa [he] using h.right a ham

/-! ## Turns of the loop -/

/-- What the loop works on: the entries that wait, and the flags that are settled. -/
structure Settling where
  stack : List (NodeId × Bool)
  memo : Std.HashMap NodeId Bool

/-- One turn of the loop. A node is settled from the flags of its children, which must be there: a
node with a child that has no flag makes no turn. -/
inductive Turn (f : Forest) : Settling → Settling → Prop
  | drop {n : NodeId} {waited : Bool} {rest : List (NodeId × Bool)}
      {memo : Std.HashMap NodeId Bool} (hn : n ∈ memo) :
      Turn f ⟨(n, waited) :: rest, memo⟩ ⟨rest, memo⟩
  | wait {n : NodeId} {rest : List (NodeId × Bool)} {memo : Std.HashMap NodeId Bool}
      (hn : n ∉ memo) :
      Turn f ⟨(n, false) :: rest, memo⟩
        ⟨((f.node n).children.filter fun c => !memo.contains c).reverse.map (·, false) ++
          (n, true) :: rest, memo⟩
  | settle {n : NodeId} {rest : List (NodeId × Bool)} {memo : Std.HashMap NodeId Bool}
      (hn : n ∉ memo) (hc : ∀ c ∈ (f.node n).children, c ∈ memo) :
      Turn f ⟨(n, true) :: rest, memo⟩
        ⟨rest, memo.insert n
          (!(f.node n).isModified && (f.node n).children.all fun c => memo.getD c false)⟩

/-- So many turns one after another. -/
inductive Turns (f : Forest) : Nat → Settling → Settling → Prop
  | start (a : Settling) : Turns f 0 a a
  | turn {k : Nat} {a b c : Settling} : f.Turn a b → Turns f k b c → Turns f (k + 1) a c

theorem Turns.trans {k l : Nat} {a b c : Settling} (h : f.Turns k a b) (h' : f.Turns l b c) :
    f.Turns (k + l) a c := by
  induction h with
  | start => rwa [Nat.zero_add]
  | turn ht _ ih =>
    rw [Nat.add_right_comm]
    exact .turn ht (ih h')

theorem Turn.unique {a b c : Settling} (h : f.Turn a b) (h' : f.Turn a c) : b = c := by
  cases h with
  | drop hn =>
    cases h' with
    | drop => rfl
    | wait hn' | settle hn' => exact absurd hn hn'
  | wait hn =>
    cases h' with
    | drop hn' => exact absurd hn' hn
    | wait => rfl
  | settle hn =>
    cases h' with
    | drop hn' => exact absurd hn' hn
    | settle => rfl

theorem not_turn_nil {memo : Std.HashMap NodeId Bool} {b : Settling} : ¬ f.Turn ⟨[], memo⟩ b :=
  nofun

/-- Where turns come to an end, all turns from the same start are among them. -/
theorem Turns.among {k : Nat} {a z : Settling} (hz : ∀ b, ¬ f.Turn z b) (h : f.Turns k a z) :
    ∀ {l : Nat} {b : Settling}, f.Turns l a b → l ≤ k ∧ f.Turns (k - l) b z := by
  induction h with
  | start =>
    intro l b hb
    cases hb with
    | start => exact ⟨le_rfl, .start _⟩
    | turn ht _ => exact absurd ht (hz _)
  | turn ht hrest ih =>
    intro l b hb
    cases hb with
    | start => exact ⟨Nat.zero_le _, .turn ht hrest⟩
    | turn ht' hb =>
      cases ht.unique ht'
      obtain ⟨hle, hgo⟩ := ih hz hb
      exact ⟨Nat.succ_le_succ hle, by rwa [Nat.add_sub_add_right]⟩

/-- A turn is what the printer's loop does with one unit of its fuel. -/
theorem Turn.pristineMapFrom_eq {a b : Settling} (h : f.Turn a b) (fuel : Nat) :
    f.pristineMapFrom (fuel + 1) a.stack a.memo = f.pristineMapFrom fuel b.stack b.memo := by
  cases h with
  | drop hn => rw [pristineMapFrom, if_pos (Std.HashMap.contains_iff_mem.2 hn)]
  | wait hn | settle hn => simp [pristineMapFrom, hn]

theorem Turns.pristineMapFrom_eq {k : Nat} {a b : Settling} (h : f.Turns k a b) (fuel : Nat) :
    f.pristineMapFrom (fuel + k) a.stack a.memo = f.pristineMapFrom fuel b.stack b.memo := by
  induction h with
  | start => rfl
  | turn ht _ ih => rw [← Nat.add_assoc, ht.pristineMapFrom_eq, ih]

/-! ## Settling what lies below -/

/-- So many turns take entries for the nodes off the stack, whatever waits below them, and settle
all that lies below the nodes. -/
structure Settles (f : Forest) (ns : List NodeId) (memo : Std.HashMap NodeId Bool) (turns : Nat)
    (memo' : Std.HashMap NodeId Bool) : Prop where
  settled : f.Settled memo'
  mem : ∀ m, m ∈ memo' ↔ m ∈ memo ∨ ∃ n ∈ ns, f.Below n m
  run : ∀ rest, f.Turns turns ⟨ns.map (·, false) ++ rest, memo⟩ ⟨rest, memo'⟩

namespace Settles

variable {n : NodeId} {ns : List NodeId} {memo memo₁ memo₂ : Std.HashMap NodeId Bool} {k l : Nat}

theorem nil (h : f.Settled memo) : f.Settles [] memo 0 memo :=
  ⟨h, by simp, fun _ => .start _⟩

theorem cons (h : f.Settles [n] memo k memo₁) (h' : f.Settles ns memo₁ l memo₂) :
    f.Settles (n :: ns) memo (k + l) memo₂ where
  settled := h'.settled
  mem m := by
    rw [h'.mem, h.mem]
    simp [or_assoc]
  run rest := (h.run (ns.map (·, false) ++ rest)).trans (h'.run rest)

/-- A node with a flag is dropped. -/
theorem known (h : f.Settled memo) (hn : n ∈ memo) : f.Settles [n] memo 1 memo where
  settled := h
  mem m := by
    have := h.closed n hn m
    simp only [List.mem_singleton, exists_eq_left]
    tauto
  run _ := .turn (.drop hn) (.start _)

/-- A node is settled after those of its children that have no flag, if it is not one of those that
lie below them. -/
theorem node (h : f.Settles ((f.node n).children.filter fun c => !memo.contains c).reverse memo k
      memo₁) (hn : n ∉ memo) (hn₁ : n ∉ memo₁) :
    f.Settles [n] memo (k + 2) (memo₁.insert n
      (!(f.node n).isModified && (f.node n).children.all fun c => memo₁.getD c false)) := by
  have hc : ∀ c ∈ (f.node n).children, c ∈ memo₁ := by
    intro c hc
    rw [h.mem]
    by_cases hm : c ∈ memo
    · exact .inl hm
    · exact .inr ⟨c, by simp [hc, hm], Below.refl c⟩
  refine ⟨h.settled.insert hn₁ hc, fun m => ?_, fun rest => ?_⟩
  · simp only [Std.HashMap.mem_insert, beq_iff_eq, List.mem_singleton, exists_eq_left,
      below_iff (n := n)]
    constructor
    · rintro (rfl | hm)
      · exact .inr (.inl rfl)
      · rcases (h.mem m).1 hm with hm | ⟨c, hcn, hcm⟩
        · exact .inl hm
        · exact .inr (.inr ⟨c, (List.mem_filter.1 (List.mem_reverse.1 hcn)).1, hcm⟩)
    · rintro (hm | rfl | ⟨c, hcn, hcm⟩)
      · exact .inr ((h.mem m).2 (.inl hm))
      · exact .inl rfl
      · exact .inr (h.settled.closed c (hc c hcn) m hcm)
  · exact .turn (.wait hn) ((h.run _).trans (.turn (.settle hn₁ hc) (.start _)))

end Settles

/-- The nodes of bounded depth are settled within their cost. -/
theorem settles_within : ∀ (depth : Nat) (ns : List NodeId) (memo : Std.HashMap NodeId Bool),
    (∀ n ∈ ns, f.Within depth n) → f.Settled memo →
    ∃ turns ≤ ns.length * f.cost depth, ∃ memo', f.Settles ns memo turns memo'
  | _, [], memo, _, hs => ⟨0, Nat.zero_le _, memo, .nil hs⟩
  | 0, n :: _, _, h, _ => (h n (by simp)).elim
  | depth + 1, n :: ns, memo, h, hs => by
    obtain ⟨hn, hns⟩ := List.forall_mem_cons.1 h
    have hone : ∃ turns ≤ f.cost (depth + 1), ∃ memo₁, f.Settles [n] memo turns memo₁ := by
      by_cases hmem : n ∈ memo
      · exact ⟨1, f.cost_pos _, memo, .known hs hmem⟩
      have hsub : ∀ c ∈ ((f.node n).children.filter fun c => !memo.contains c).reverse,
          c ∈ (f.node n).children := fun c hc => (List.mem_filter.1 (List.mem_reverse.1 hc)).1
      obtain ⟨k, hk, memo₁, h₁⟩ :=
        settles_within depth _ memo (fun c hc => hn c (hsub c hc)) hs
      have hle : k ≤ (f.node n).children.length * f.cost depth := by
        rw [List.length_reverse] at hk
        exact hk.trans (Nat.mul_le_mul_right _ (List.length_filter_le _ _))
      refine ⟨k + 2, ?_, _, h₁.node hmem ?_⟩
      · have := hn.cost_children
        omega
      · rw [h₁.mem]
        rintro (hm | ⟨c, hc, hcn⟩)
        · exact hmem hm
        · exact hn.not_transGen (Relation.TransGen.head' (hsub c hc) hcn)
    obtain ⟨k, hk, memo₁, h₁⟩ := hone
    obtain ⟨l, hl, memo₂, h₂⟩ := settles_within (depth + 1) ns memo₁ hns h₁.settled
    refine ⟨k + l, ?_, memo₂, h₁.cons h₂⟩
    rw [List.length_cons, Nat.succ_mul]
    omega
termination_by depth ns => (depth, ns.length)

/-- The loop comes to its end with the map, within its fuel. -/
theorem settles_pristineMap {n : NodeId} (h : f.Acyclic n) :
    ∃ turns, f.Settles [n] ∅ turns (f.pristineMap n) := by
  obtain ⟨turns, hle, memo, hs⟩ :=
    settles_within (f.size + 1) [n] ∅ (by simpa using h.within) (settled_empty f)
  obtain ⟨fuel, hfuel⟩ := exists_budget_eq (by simpa using hle)
  have hrun : f.Turns turns ⟨[(n, false)], ∅⟩ ⟨[], memo⟩ := hs.run []
  have hmap : f.pristineMap n = memo := by
    rw [pristineMap, hfuel, hrun.pristineMapFrom_eq]
    cases fuel <;> rfl
  rw [hmap]
  exact ⟨turns, hs⟩

/-- The map is about the nodes below its root. -/
theorem mem_pristineMap {n m : NodeId} (h : f.Acyclic n) :
    m ∈ f.pristineMap n ↔ f.Below n m := by
  obtain ⟨_, hs⟩ := settles_pristineMap h
  simpa using hs.mem m

/-- The map says of every node below its root whether it is pristine. -/
theorem getD_pristineMap {n m : NodeId} (h : f.Acyclic n) (hm : f.Below n m) :
    (f.pristineMap n).getD m false = f.isPristine m := by
  obtain ⟨_, hs⟩ := settles_pristineMap h
  rw [Bool.eq_iff_iff, isPristine_iff (h.below hm)]
  exact hs.settled.right m ((mem_pristineMap h).2 hm)

/-- Below an acyclic node the loop ends without missing a flag: every run of turns is part of one
that ends with the map. The map has the nodes below its root and no others, and says of each what
walking it says, which is whether no node below it was modified. -/
theorem pristineMap_tabulates {n : NodeId} (h : f.Acyclic n) :
    (∃ turns, ∀ k s, f.Turns k ⟨[(n, false)], ∅⟩ s →
      k ≤ turns ∧ f.Turns (turns - k) s ⟨[], f.pristineMap n⟩) ∧
    (∀ m, m ∈ f.pristineMap n ↔ f.Below n m) ∧
    ∀ m, f.Below n m → (f.pristineMap n)[m]? = some (f.isPristine m) ∧
      (f.isPristine m = true ↔ ∀ x, f.Below m x → (f.node x).isModified = false) := by
  obtain ⟨turns, hs⟩ := settles_pristineMap h
  refine ⟨⟨turns, fun k s hk => (hs.run []).among (fun _ => not_turn_nil) hk⟩,
    fun m => mem_pristineMap h, fun m hm => ⟨?_, isPristine_iff (h.below hm)⟩⟩
  rw [← getD_pristineMap h hm]
  exact Std.HashMap.getElem?_eq_some_getD ((mem_pristineMap h).2 hm)

/-- A name that stands in every node above it, one of which was changed after the parse. -/
def diamond : Forest :=
  let parsed (x : Node) : Node := { x with span := some (0, 1), source := some default }.marked
  ⟨#[parsed (.leaf "name" "a" true), parsed (.branch "pair" [0, 0] []),
    { parsed (.branch "list" [1] []) with children := [1, 0] },
    parsed (.branch "root" [2, 1, 0, 2] [])]⟩

theorem pristineMap_tabulates_diamond : diamond.Acyclic 3 ∧
    (∃ turns, diamond.Turns turns ⟨[(3, false)], ∅⟩ ⟨[], diamond.pristineMap 3⟩) ∧
    (diamond.pristineMap 3)[1]? = some true ∧ (diamond.pristineMap 3)[2]? = some false ∧
    (diamond.pristineMap 3)[3]? = some false := by
  have hac : diamond.Acyclic 3 := Within.acyclic (k := 4) (by decide)
  obtain ⟨⟨turns, hturns⟩, -, hflags⟩ := pristineMap_tabulates hac
  have hbelow : ∀ m, m ∈ (diamond.node 3).children → diamond.Below 3 m :=
    fun m hm => (Below.refl 3).child hm
  refine ⟨hac, ⟨turns, (hturns 0 _ (.start _)).2⟩, ?_, ?_, ?_⟩
  · rw [(hflags 1 (hbelow 1 (by decide))).1]
    decide +kernel
  · rw [(hflags 2 (hbelow 2 (by decide))).1]
    decide +kernel
  · rw [(hflags 3 (.refl 3)).1]
    decide +kernel

end Retouch.Forest
