import Retouch.Proofs.Replacing

/-!
# Editing siblings

Once the child paths of a path are asked for, the children of its node fall into blocks, one for
each of these paths: the child itself, or the nodes put in its place. Replacing the child of one
block leaves the nodes of the others as they are and tells their paths how far they have moved
(`Laid.replace`). So what a number of replacements comes to depends on the blocks alone and not on
the order of the replacements (`siblings_replaced_in_any_order`).
-/

namespace Retouch

/-! ## Blocks end to end -/

section Blocks

variable {α : Type} {blocks : List (List α)} {i k : Nat}

/-- Where a block begins when all are laid end to end. -/
def offset (blocks : List (List α)) (i : Nat) : Nat :=
  (blocks.take i).flatten.length

theorem offset_succ (blocks : List (List α)) (i : Nat) :
    offset blocks (i + 1) = offset blocks i + (blocks[i]?.getD []).length := by
  unfold offset
  rw [List.take_add_one, List.flatten_append, List.length_append]
  rcases blocks[i]? with _ | b <;> simp

theorem offset_mono (blocks : List (List α)) : Monotone (offset blocks) :=
  monotone_nat_of_le_succ fun i => by
    rw [offset_succ]
    omega

theorem offset_lt {b : List α} (hi : blocks[i]? = some b) (hb : b ≠ []) (h : i < k) :
    offset blocks i < offset blocks k := by
  have hmono := offset_mono blocks (Nat.succ_le_of_lt h)
  have hpos : 0 < b.length := List.length_pos_iff.2 hb
  rw [Nat.succ_eq_add_one, offset_succ, hi, Option.getD_some] at hmono
  omega

theorem offset_inj {b c : List α} (hi : blocks[i]? = some b) (hb : b ≠ [])
    (hk : blocks[k]? = some c) (hc : c ≠ []) (h : offset blocks i = offset blocks k) : i = k := by
  rcases lt_trichotomy i k with hlt | heq | hlt
  · exact absurd h (offset_lt hi hb hlt).ne
  · exact heq
  · exact absurd h (offset_lt hk hc hlt).ne'

theorem offset_set_of_le (new : List α) (h : i ≤ k) :
    offset (blocks.set k new) i = offset blocks i := by
  induction i with
  | zero => rfl
  | succ i ih => rw [offset_succ, offset_succ, ih (by omega), List.getElem?_set_ne (by omega)]

/-- The blocks behind one that is replaced move by the difference. -/
theorem offset_set_of_lt {b : List α} (hk : blocks[k]? = some b) (new : List α) (h : k < i) :
    offset (blocks.set k new) i + b.length = offset blocks i + new.length := by
  have hlt := (List.getElem?_eq_some_iff.1 hk).1
  induction i with
  | zero => omega
  | succ i ih =>
    rw [offset_succ, offset_succ]
    rcases Nat.eq_or_lt_of_le (Nat.le_of_lt_succ h) with rfl | hki
    · rw [offset_set_of_le new le_rfl, List.getElem?_set_self hlt, hk, Option.getD_some,
        Option.getD_some]
      omega
    · have := ih hki
      rw [List.getElem?_set_ne (by omega)]
      omega

theorem flatten_eq_around {b : List α} (hk : blocks[k]? = some b) :
    blocks.flatten = (blocks.take k).flatten ++ b ++ (blocks.drop (k + 1)).flatten := by
  conv_lhs => rw [← Slot.take_append_cons_drop hk]
  simp

theorem getElem?_flatten_offset {a : α} {b : List α} (hk : blocks[k]? = some (a :: b)) :
    blocks.flatten[offset blocks k]? = some a := by
  rw [flatten_eq_around hk, List.append_assoc, offset, List.getElem?_append_right le_rfl]
  simp

/-- Overwriting a block of one item. What stands behind all blocks stays. -/
theorem splice_flatten {a : α} (hk : blocks[k]? = some [a]) (new rest : List α) :
    Slot.splice (blocks.flatten ++ rest) (offset blocks k) ((offset blocks k : Int) + 1) new =
      (blocks.set k new).flatten ++ rest := by
  have hlt := (List.getElem?_eq_some_iff.1 hk).1
  have hset : (blocks.set k new)[k]? = some new := List.getElem?_set_self hlt
  have hall := flatten_eq_around hk
  have hlen : offset blocks k < (blocks.flatten ++ rest).length := by
    rw [hall]
    simp only [offset, List.length_append, List.length_singleton]
    omega
  have htake : (blocks.flatten ++ rest).take (offset blocks k) = (blocks.take k).flatten := by
    rw [hall, List.append_assoc, List.append_assoc, offset, List.take_left]
  have hdrop : (blocks.flatten ++ rest).drop (offset blocks k + 1) =
      (blocks.drop (k + 1)).flatten ++ rest := by
    rw [hall, List.append_assoc]
    exact List.drop_left' (by simp [offset])
  rw [Slot.splice_natCast hlen, htake, hdrop, flatten_eq_around hset, List.take_set_of_le le_rfl,
    List.drop_set_of_lt (Nat.lt_succ_self k), List.append_assoc, List.append_assoc,
    List.append_assoc]

theorem flatten_singletons : ∀ items : List α, (items.map ([·])).flatten = items
  | [] => rfl
  | a :: items => congrArg (a :: ·) (flatten_singletons items)

theorem offset_singletons {items : List α} (h : i ≤ items.length) :
    offset (items.map ([·])) i = i := by
  rw [offset, ← List.map_take, flatten_singletons, List.length_take, Nat.min_eq_left h]

end Blocks

/-- A field for every item of a block. -/
def fieldBlocks (blocks : List (List NodeId)) (fields : List (Option String)) :
    List (List (Option String)) :=
  List.zipWith (fun block field => List.replicate block.length field) blocks fields

section FieldBlocks

variable {blocks : List (List NodeId)} {fields : List (Option String)} {i k : Nat}
  {field : Option String}

theorem fieldBlocks_getElem? {b : List NodeId} (hk : blocks[k]? = some b)
    (hf : fields[k]? = some field) :
    (fieldBlocks blocks fields)[k]? = some (List.replicate b.length field) := by
  simp [fieldBlocks, List.getElem?_zipWith, hk, hf]

theorem fieldBlocks_set (hf : fields[k]? = some field) (new : List NodeId) :
    fieldBlocks (blocks.set k new) fields =
      (fieldBlocks blocks fields).set k (List.replicate new.length field) := by
  refine List.ext_getElem? fun i => ?_
  by_cases hi : k = i
  · subst hi
    rcases hb : blocks[k]? with _ | b
    · have : blocks.length ≤ k := List.getElem?_eq_none_iff.1 hb
      simp [fieldBlocks, this]
    · have hlt := (List.getElem?_eq_some_iff.1 hb).1
      have hlt' := (List.getElem?_eq_some_iff.1 (fieldBlocks_getElem? hb hf)).1
      rw [List.getElem?_set_self hlt']
      exact fieldBlocks_getElem? (List.getElem?_set_self hlt) hf
  · simp [fieldBlocks, List.getElem?_zipWith, List.getElem?_set_ne hi]

theorem fieldBlocks_singletons (children : List NodeId) (fields : List (Option String)) :
    fieldBlocks (children.map ([·])) fields = (fields.take children.length).map ([·]) := by
  induction children generalizing fields with
  | nil => simp [fieldBlocks]
  | cons c children ih =>
    cases fields with
    | nil => simp [fieldBlocks]
    | cons f fields => exact congrArg ([f] :: ·) (ih fields)

theorem offset_fieldBlocks (h : blocks.length ≤ fields.length) (i : Nat) :
    offset (fieldBlocks blocks fields) i = offset blocks i := by
  induction i with
  | zero => rfl
  | succ i ih =>
    rw [offset_succ, offset_succ, ih]
    congr 1
    rcases hb : blocks[i]? with _ | b
    · simp [fieldBlocks, List.getElem?_zipWith, hb]
    · have hlt := (List.getElem?_eq_some_iff.1 hb).1
      have hf : fields[i]? = some fields[i] := List.getElem?_eq_getElem (by omega)
      simp [fieldBlocks_getElem? hb hf]

end FieldBlocks

/-! ## One replacement -/

/-- The children of the node `n` of the path `p` stand in blocks. The path of a block is known to
`p` where the block begins and stands on its first node; the path of an empty block is at large. -/
structure Laid (p : PathId) (n : NodeId) (qs : List PathId) (fields : List (Option String))
    (blocks : List (List NodeId)) (d : Document) : Prop where
  keyed : d.Keyed
  inRange : p < d.paths.size
  found : ∀ q ∈ qs, q < d.paths.size
  holder : (d.path p).node = n
  children : (d.nodeAt p).children = blocks.flatten
  fields : (d.nodeAt p).fields = (fieldBlocks blocks fields).flatten ++ fields.drop blocks.length
  full : ∀ (i : Nat) q a b, qs[i]? = some q → blocks[i]? = some (a :: b) →
    ((offset blocks i : Int), q) ∈ (d.path p).cache ∧ (d.path q).node = a
  empty : ∀ (i : Nat) q, qs[i]? = some q → blocks[i]? = some [] →
    (d.path q).parent = none ∧ (d.path q).slot = none

namespace Laid

variable {p k q : Nat} {n c : NodeId} {qs : List PathId} {fields : List (Option String)}
  {blocks : List (List NodeId)} {d d' : Document} {f : Option String} {new : List NodeId}

/-- The child paths of a path, just asked for, have a block of one child each. -/
theorem start (h : d.Keyed) {p : Nat} (hp : p < d.paths.size) :
    ∃ qs d', perform (Edit.childPaths p) d = (.ok qs, d') ∧
      qs.length = (d.nodeAt p).children.length ∧
      Laid p (d.path p).node qs (d.nodeAt p).fields ((d.nodeAt p).children.map ([·])) d' := by
  have hview := Edit.viewed_childPaths h hp
  obtain ⟨qs, d', hd, hlen, hfound⟩ := Edit.childPaths_found h hp
  rw [hd] at hview
  have hsame := hview.seen.nodeAt hp
  refine ⟨qs, d', hd, hlen, hview.keyed, hp.trans_le hview.seen.size, hview.found qs rfl,
    hview.seen.node p hp, ?_, ?_, fun i q a b hq hb => ?_, fun i q _ hb => ?_⟩
  · rw [hsame, flatten_singletons]
  · rw [hsame, fieldBlocks_singletons, flatten_singletons, List.length_map, List.take_append_drop]
  · obtain ⟨hentry, hnode⟩ := hfound i q hq
    have hlt := (List.getElem?_eq_some_iff.1 hnode).1
    rw [List.getElem?_map, hnode] at hb
    cases hb
    rw [offset_singletons hlt.le]
    exact ⟨hentry, rfl⟩
  · simp at hb

theorem path_ne (h : Laid p n qs fields blocks d) (hq : qs[k]? = some q) (hk : blocks[k]? = some [c])
    {i r : Nat} {b : List NodeId} (hr : qs[i]? = some r) (hi : blocks[i]? = some b) (hne : i ≠ k) :
    r ≠ q := by
  rintro rfl
  have hentry := (h.full k r c [] hq hk).1
  cases b with
  | nil =>
    have hparent := h.keyed.parent p _ r hentry
    rw [(h.empty i r hr hi).1] at hparent
    cases hparent
  | cons a b =>
    have hother := (h.full i r a b hr hi).1
    have hsame := (h.keyed.entry_unique hother hentry).2
    exact hne (offset_inj hi (by simp) hk (by simp) (by exact_mod_cast hsame))

theorem held (h : Laid p n qs fields blocks d) (hq : qs[k]? = some q) (hk : blocks[k]? = some [c]) :
    Slot.get? (d.nodeAt p).children (offset blocks k) = some (d.path q).node := by
  rw [Slot.get?_natCast, h.children, (h.full k q c [] hq hk).2, getElem?_flatten_offset hk]

theorem field (h : Laid p n qs fields blocks d) (hlen : blocks.length ≤ fields.length)
    (hk : blocks[k]? = some [c]) (hf : fields[k]? = some f) :
    Slot.get? (d.nodeAt p).fields (offset blocks k) = some f := by
  have hfirst := getElem?_flatten_offset (fieldBlocks_getElem? hk hf)
  rw [offset_fieldBlocks hlen] at hfirst
  rw [Slot.get?_natCast, h.fields,
    List.getElem?_append_left (List.getElem?_eq_some_iff.1 hfirst).1, hfirst]

section Replaced

variable (h : Laid p n qs fields blocks d) (hq : qs[k]? = some q) (hk : blocks[k]? = some [c])
  (hr : d.Replaced q p (offset blocks k) f new d')

include h hk hr

theorem children_replaced : (d'.nodeAt p).children = (blocks.set k new).flatten := by
  have hs := splice_flatten hk new []
  rw [List.append_nil, List.append_nil] at hs
  rw [hr.holder, h.children, hs]

theorem fields_replaced (hlen : blocks.length ≤ fields.length) (hf : fields[k]? = some f) :
    (d'.nodeAt p).fields = (fieldBlocks (blocks.set k new) fields).flatten ++
      fields.drop (blocks.set k new).length := by
  have hs := splice_flatten (fieldBlocks_getElem? hk hf) (List.replicate new.length f)
    (fields.drop blocks.length)
  rw [offset_fieldBlocks hlen] at hs
  rw [hr.holder, h.fields, hs, fieldBlocks_set hf, List.length_set]

include hq

theorem full_replaced {i r : Nat} {a : NodeId} {b : List NodeId} (hri : qs[i]? = some r)
    (hi : (blocks.set k new)[i]? = some (a :: b)) :
    ((offset (blocks.set k new) i : Int), r) ∈ (d'.path p).cache ∧ (d'.path r).node = a := by
  have hfirst := getElem?_flatten_offset hi
  rw [← h.children_replaced hk hr] at hfirst
  by_cases hik : i = k
  · -- the path itself is seated where its block began
    subst hik
    rw [List.getElem?_set_self (List.getElem?_eq_some_iff.1 hk).1] at hi
    cases Option.some.inj hi
    cases Option.some.inj (hri.symm.trans hq)
    rw [offset_set_of_le _ le_rfl] at hfirst ⊢
    exact ⟨hr.entry a b rfl _ rfl hfirst, (hr.seat a b rfl).1⟩
  rw [List.getElem?_set_ne (Ne.symm hik)] at hi
  obtain ⟨hentry, hnode⟩ := h.full i r a b hri hi
  have hapart : offset blocks i ≠ offset blocks k :=
    fun heq => hik (offset_inj hi (by simp) hk (by simp) heq)
  refine ⟨hr.moved _ r _ hentry (by exact_mod_cast hapart) ?_ (by rw [hfirst, hnode]),
    (hr.node r (h.keyed.inRange p _ r hentry) (h.path_ne hq hk hri hi hik)).trans hnode⟩
  -- a block in front stays, and one behind moves by as much as its path is told
  rcases Nat.lt_or_gt_of_ne hik with hlt | hlt
  · have hbefore := offset_lt hi (by simp) hlt
    rw [offset_set_of_le _ hlt.le, if_pos (by exact_mod_cast hbefore)]
  · have hbehind := offset_lt hk (by simp) hlt
    have hmove := offset_set_of_lt hk new hlt
    rw [List.length_singleton] at hmove
    rw [if_neg (by omega)]
    omega

theorem empty_replaced {i r : Nat} (hri : qs[i]? = some r)
    (hi : (blocks.set k new)[i]? = some []) :
    (d'.path r).parent = none ∧ (d'.path r).slot = none := by
  by_cases hik : i = k
  · subst hik
    rw [List.getElem?_set_self (List.getElem?_eq_some_iff.1 hk).1] at hi
    cases Option.some.inj (hri.symm.trans hq)
    exact hr.out (Option.some.inj hi)
  rw [List.getElem?_set_ne (Ne.symm hik)] at hi
  obtain ⟨hnone, hslot⟩ := h.empty i r hri hi
  have hne := h.path_ne hq hk hri hi hik
  have hrr := h.found r (List.mem_of_getElem? hri)
  have hno : ∀ l, (l, r) ∉ (d.path p).cache := by
    intro l hl
    rw [h.keyed.parent p l r hl] at hnone
    cases hnone
  exact ⟨(hr.parent r hrr hne).trans hnone, (hr.slot r hrr hne hno).trans hslot⟩

end Replaced

/-- Replacing the child of a block succeeds and leaves the other blocks as they are. -/
theorem replace (h : Laid p n qs fields blocks d) (hlen : blocks.length ≤ fields.length)
    (hq : qs[k]? = some q) (hk : blocks[k]? = some [c]) (new : List NodeId) :
    ∃ answer d', perform (Edit.replace q new) d = (.ok answer, d') ∧
      Laid p n qs fields (blocks.set k new) d' := by
  have hklt := (List.getElem?_eq_some_iff.1 hk).1
  obtain ⟨f, hf⟩ : ∃ f, fields[k]? = some f := ⟨_, List.getElem?_eq_getElem (by omega)⟩
  have hentry := (h.full k q c [] hq hk).1
  have hparent := h.keyed.parent p _ q hentry
  obtain ⟨answer, d', hd, hr⟩ := h.keyed.replace_ok (h.keyed.inRange p _ q hentry) hparent
    (h.keyed.slot p _ q hentry) (h.held hq hk) (h.field hlen hk hf) new
  have hpq : p ≠ q := Nat.ne_of_lt (h.keyed.older q p hparent)
  exact ⟨answer, d', hd, hr.keyed, h.inRange.trans_le hr.size,
    fun r hrq => (h.found r hrq).trans_le hr.size, (hr.node p h.inRange hpq).trans h.holder,
    h.children_replaced hk hr, h.fields_replaced hk hr hlen hf,
    fun i r a b hri hi => h.full_replaced hq hk hr hri hi,
    fun i r hri hi => h.empty_replaced hq hk hr hri hi⟩

/-- Replacements in distinct blocks of one child each, one after the other. -/
theorem replace_all (hlen : qs.length ≤ fields.length) (new : Nat → List NodeId) :
    ∀ (order : List Nat) {d : Document} {blocks : List (List NodeId)},
    Laid p n qs fields blocks d → blocks.length = qs.length → order.Nodup →
    (∀ i ∈ order, ∃ c, blocks[i]? = some [c]) →
    ∃ answers d', perform (order.mapM fun i => Edit.replace (qs.getD i 0) (new i)) d =
        (.ok answers, d') ∧
      Laid p n qs fields (blocks.mapIdx fun i block => if i ∈ order then new i else block) d'
  | [], d, blocks, h, _, _, _ => by
    refine ⟨[], d, rfl, ?_⟩
    convert h using 1
    exact List.ext_getElem? fun i => by simp
  | k :: order, d, blocks, h, hb, hn, hone => by
    obtain ⟨hnot, hn⟩ := List.nodup_cons.1 hn
    obtain ⟨⟨c, hk⟩, hone⟩ := List.forall_mem_cons.1 hone
    have hklt := (List.getElem?_eq_some_iff.1 hk).1
    have hq : qs[k]? = some (qs.getD k 0) := by
      rw [List.getD_eq_getElem?_getD, List.getElem?_eq_getElem (by omega), Option.getD_some]
    obtain ⟨answer, d1, hd, h1⟩ := h.replace (by omega) hq hk (new k)
    obtain ⟨answers, d2, hd', h2⟩ := replace_all hlen new order h1 (by rw [List.length_set, hb]) hn
      (fun i hi => by
        rw [List.getElem?_set_ne (by rintro rfl; exact hnot hi)]
        exact hone i hi)
    refine ⟨answer :: answers, d2, ?_, ?_⟩
    · rw [List.mapM_cons, perform_bind_of_ok hd, perform_bind_of_ok hd']
      rfl
    · convert h2 using 1
      refine List.ext_getElem? fun i => ?_
      rw [List.getElem?_mapIdx, List.getElem?_mapIdx]
      by_cases hik : k = i
      · subst hik
        rw [List.getElem?_set_self hklt, hk]
        simp [hnot]
      · rw [List.getElem?_set_ne hik]
        simp [Ne.symm hik]

end Laid

/-! ## All replacements -/

/-- The children of a node in blocks, with new nodes in the place of some. -/
def blocksWith (new : Nat → Option (List NodeId)) (children : List NodeId) : List (List NodeId) :=
  children.mapIdx fun i child => (new i).getD [child]

/-- Where every slot of a node has a field, some of its child paths are replaced in any order: no
replacement fails, and the blocks that they leave do not depend on the order. -/
theorem siblings_replaced_in_any_order {d : Document} (hd : d.Made) {p : Nat}
    (hp : p < d.paths.size)
    (hf : (d.nodeAt p).children.length ≤ (d.nodeAt p).fields.length) :
    ∃ qs d₁, perform (Edit.childPaths p) d = (.ok qs, d₁) ∧
      qs.length = (d.nodeAt p).children.length ∧
      ∀ (new : Nat → Option (List NodeId)) (order : List Nat), order.Nodup →
        (∀ i, i ∈ order ↔ i < qs.length ∧ (new i).isSome) →
        ∃ answers d₂,
          perform (order.mapM fun i => Edit.replace (qs.getD i 0) ((new i).getD [])) d₁ =
            (.ok answers, d₂) ∧
          (d₂.path p).node = (d.path p).node ∧
          (d₂.nodeAt p).children = (blocksWith new (d.nodeAt p).children).flatten ∧
          (d₂.nodeAt p).fields =
            (fieldBlocks (blocksWith new (d.nodeAt p).children) (d.nodeAt p).fields).flatten ++
              (d.nodeAt p).fields.drop (d.nodeAt p).children.length ∧
          ∀ (i : Nat) q, qs[i]? = some q →
            (∀ n rest, (blocksWith new (d.nodeAt p).children)[i]? = some (n :: rest) →
              (d₂.path q).node = n ∧ (d₂.path q).parent = some p ∧
                (d₂.path q).slot = some (offset (blocksWith new (d.nodeAt p).children) i : Int)) ∧
            ((blocksWith new (d.nodeAt p).children)[i]? = some [] →
              (d₂.path q).parent = none ∧ (d₂.path q).slot = none) := by
  obtain ⟨qs, d₁, hd₁, hlen, hlaid⟩ := Laid.start hd.keyed hp
  refine ⟨qs, d₁, hd₁, hlen, fun new order hn horder => ?_⟩
  obtain ⟨answers, d₂, hd₂, h⟩ := Laid.replace_all (by omega) (fun i => (new i).getD []) order hlaid
    (by rw [List.length_map, hlen]) hn (fun i hi => by
      have hi := ((horder i).1 hi).1
      exact ⟨_, by rw [List.getElem?_map, List.getElem?_eq_getElem (by omega), Option.map_some]⟩)
  have hblocks : ((d.nodeAt p).children.map ([·])).mapIdx
      (fun i block => if i ∈ order then (new i).getD [] else block) =
        blocksWith new (d.nodeAt p).children := by
    refine List.ext_getElem? fun i => ?_
    rw [blocksWith, List.getElem?_mapIdx, List.getElem?_mapIdx, List.getElem?_map]
    rcases hc : (d.nodeAt p).children[i]? with _ | c
    · rfl
    · have hi := (List.getElem?_eq_some_iff.1 hc).1
      rcases hnew : new i with _ | block <;> simp [horder, hnew, hlen, hi]
  rw [hblocks] at h
  have hfields := h.fields
  rw [show (blocksWith new (d.nodeAt p).children).length = (d.nodeAt p).children.length from
    List.length_mapIdx] at hfields
  refine ⟨answers, d₂, hd₂, h.holder, h.children, hfields, fun i q hq => ⟨fun n rest hi => ?_,
    h.empty i q hq⟩⟩
  obtain ⟨hentry, hnode⟩ := h.full i q n rest hq hi
  exact ⟨hnode, h.keyed.parent p _ q hentry, h.keyed.slot p _ q hentry⟩

/-- A root path over a node with a child in two slots and a field that no slot fills. -/
def rowDocument : Document :=
  (perform (Edit.addPath 3 none none) ⟨⟨#[.leaf "a" "1" true, .leaf "b" "2" true,
    .leaf "c" "3" true, .branch "row" [0, 1, 0, 2] [some "x", none, some "y", none, some "z"]]⟩,
    #[]⟩).2

/-- One child goes, one is doubled, and one is exchanged. -/
def rowEdits : Nat → Option (List NodeId)
  | 0 => some []
  | 2 => some [2, 0]
  | 3 => some [1]
  | _ => none

theorem siblings_replaced_in_any_order_row : rowDocument.Made ∧ ∃ qs d₁ answers d₂,
    perform (Edit.childPaths 0) rowDocument = (.ok qs, d₁) ∧
    perform ([2, 0, 3].mapM fun i => Edit.replace (qs.getD i 0) ((rowEdits i).getD [])) d₁ =
      (.ok answers, d₂) ∧
    (d₂.nodeAt 0).children = [1, 2, 0, 1] ∧
    (d₂.nodeAt 0).fields = [none, some "y", some "y", none, some "z"] := by
  have hmade : rowDocument.Made := .path 3 none none (.start _) (by simp)
  obtain ⟨qs, d₁, hd₁, hlen, hall⟩ :=
    siblings_replaced_in_any_order (p := 0) hmade (by decide) (by decide)
  have hfour : qs.length = 4 := hlen
  obtain ⟨answers, d₂, hd₂, -, hchildren, hfields, -⟩ := hall rowEdits [2, 0, 3] (by decide) (by
    intro i
    rw [hfour]
    match i with
    | 0 | 1 | 2 | 3 => decide
    | i + 4 => simp)
  exact ⟨hmade, qs, d₁, answers, d₂, hd₁, hd₂, hchildren, hfields⟩

end Retouch
