import Retouch.Proofs.Rendering

/-!
# The rules of spelling

How a node is spelled, said by rules and without a stack. Over a base text (`Printer.Spelled`) an
untouched node is the slice of its own source, any other node with text is that text, a parsed one
stands between its leading and trailing text with its children and gaps inside, and a new one joins
its children. Without a base text (`Printer.PlainSpelled`) a node is a leaf's text or joined.

Below an acyclic node the printer writes exactly what the rules spell, in both modes
(`print_iff_spelled`); the only thing that can stand in the way of a spelling is a slice that
fails (`Printer.Legible`). Where no node was parsed there is nothing to slice, and the two modes
agree (`print_modes_agree`).
-/

namespace Retouch

/-- Nodes that follow `prev`, the first of them in slot `i`, with the gaps before them. -/
def wovenAfter (gap : Nat → NodeId → NodeId → String) (texts : NodeId → String) :
    Nat → NodeId → List NodeId → String
  | _, _, [] => ""
  | i, prev, c :: cs => gap i prev c ++ (texts c ++ wovenAfter gap texts (i + 1) c cs)

/-- The texts of nodes, in order, with the gaps between them. -/
def woven (gap : Nat → NodeId → NodeId → String) (texts : NodeId → String) :
    List NodeId → String
  | [] => ""
  | c :: cs => texts c ++ wovenAfter gap texts 1 c cs

/-- What was said, if anything. -/
def told (x : Except Fault String) : String :=
  x.toOption.getD ""

theorem eq_ok_told {x : Except Fault String} (h : ∃ s, x = .ok s) : x = .ok (told x) := by
  obtain ⟨s, rfl⟩ := h
  rfl

/-- Where pieces have a text, so does each node among them. -/
theorem ok_of_writeAll {inner : NodeId → Except Fault String} : ∀ {ps : List Piece} {s : String},
    writeAll inner ps = .ok s → ∀ c ∈ Piece.nodes ps, ∃ t, inner c = .ok t
  | [], _, _, c, hc => by simp [Piece.nodes] at hc
  | .text _ :: ps, s, h, c, hc => by
    simp only [writeAll] at h
    obtain ⟨u, hu, -⟩ := bind_eq_ok.1 h
    exact ok_of_writeAll hu c hc
  | .node n :: ps, s, h, c, hc => by
    simp only [writeAll] at h
    obtain ⟨t, ht, h⟩ := bind_eq_ok.1 h
    obtain ⟨u, hu, -⟩ := bind_eq_ok.1 h
    simp only [Piece.nodes, List.mem_cons] at hc
    rcases hc with rfl | hc
    · exact ⟨t, ht⟩
    · exact ok_of_writeAll hu c hc

/-! ## The rules -/

namespace Forest

/-- Neither the node nor any node below it was modified. -/
def Untouched (f : Forest) (n : NodeId) : Prop :=
  ∀ m, f.Below n m → (f.node m).isModified = false

/-- The stretch of its own source that a node spans. -/
def verbatim (f : Forest) (n : NodeId) : Except Fault String :=
  match (f.node n).source, (f.node n).span with
  | some source, some span => source.slice span.1 span.2
  | _, _ => .error .missingSpan

/-- The source text from the start of a node to its first former child. -/
def leading (f : Forest) (n : NodeId) : Except Fault String :=
  match (f.node n).source, (f.node n).span, (f.node n).formerChildren.head? with
  | some source, some span, some first => do source.slice span.1 (← f.spanOf first).1
  | _, _, _ => .ok ""

/-- The source text from the last former child of a node to its end. -/
def trailing (f : Forest) (n : NodeId) : Except Fault String :=
  match (f.node n).source, (f.node n).span, (f.node n).formerChildren.getLast? with
  | some source, some span, some last => do source.slice (← f.spanOf last).2 span.2
  | _, _, _ => .ok ""

end Forest

theorem Node.isParsed_iff {x : Node} : x.isParsed = true ↔
    ∃ span, x.span = some span ∧ ∃ source, x.source = some source ∧ x.snapshot.isSome = true := by
  simp only [isParsed, Bool.and_eq_true, Option.isSome_iff_exists]
  constructor
  · rintro ⟨⟨⟨span, hsp⟩, source, hs⟩, hsnap⟩
    exact ⟨span, hsp, source, hs, hsnap⟩
  · rintro ⟨span, hsp, source, hs, hsnap⟩
    exact ⟨⟨⟨span, hsp⟩, source, hs⟩, hsnap⟩

namespace Printer

/-- The separator between neighbours that are set apart. -/
def spacing (p : Printer) (f : Forest) (prev cur : NodeId) : String :=
  if f.spaced prev cur then p.separator else ""

/-- The gap in a parsed node between the neighbours `prev` and `cur`, of which the second stands in
slot `i`. -/
def gapIn (p : Printer) (f : Forest) (n : NodeId) (i : Nat) (prev cur : NodeId) :
    Except Fault String :=
  match (f.node n).source with
  | some source =>
    p.gap f source (f.node n).formerChildren (f.node n).children.length i prev cur
  | none => .error .missingSpan

/-- What a parsed node puts around its children and between them. -/
structure Framed (p : Printer) (f : Forest) (n : NodeId) (leading : String)
    (gap : Nat → NodeId → NodeId → String) (trailing : String) : Prop where
  leading : f.leading n = .ok leading
  gap : ∀ i prev cur, (f.node n).children[i]? = some prev → (f.node n).children[i + 1]? = some cur →
    p.gapIn f n (i + 1) prev cur = .ok (gap (i + 1) prev cur)
  trailing : f.trailing n = .ok trailing

/-- The spellings of a node over a base text. -/
inductive Spelled (p : Printer) (f : Forest) : NodeId → String → Prop
  | verbatim {n : NodeId} {s : String} (h : f.Untouched n) (hs : f.verbatim n = .ok s) :
    Spelled p f n s
  | text {n : NodeId} {s : String} (h : ¬ f.Untouched n) (hs : (f.node n).text = some s) :
    Spelled p f n s
  | rebuilt {n : NodeId} {leading trailing : String} {gap : Nat → NodeId → NodeId → String}
    {texts : NodeId → String} (h : ¬ f.Untouched n) (ht : (f.node n).text = none)
    (hp : (f.node n).isParsed = true) (hf : p.Framed f n leading gap trailing)
    (hc : ∀ c ∈ (f.node n).children, Spelled p f c (texts c)) :
    Spelled p f n (leading ++ (woven gap texts (f.node n).children ++ trailing))
  | joined {n : NodeId} {texts : NodeId → String} (h : ¬ f.Untouched n)
    (ht : (f.node n).text = none) (hp : (f.node n).isParsed = false)
    (hc : ∀ c ∈ (f.node n).children, Spelled p f c (texts c)) :
    Spelled p f n (woven (fun _ => p.spacing f) texts (f.node n).children)

/-- The spellings of a node without a base text. -/
inductive PlainSpelled (p : Printer) (f : Forest) : NodeId → String → Prop
  | leaf {n : NodeId} (h : (f.node n).isLeaf = true) :
    PlainSpelled p f n ((f.node n).text.getD "")
  | joined {n : NodeId} {texts : NodeId → String} (h : (f.node n).isLeaf = false)
    (hc : ∀ c ∈ (f.node n).children, PlainSpelled p f c (texts c)) :
    PlainSpelled p f n (woven (fun _ => p.spacing f) texts (f.node n).children)

/-- No slice that spelling a node asks for fails. -/
def Legible (p : Printer) (f : Forest) (n : NodeId) : Prop :=
  ∀ m, f.Below n m →
    (f.Untouched m → ∃ s, f.verbatim m = .ok s) ∧
      (¬ f.Untouched m → (f.node m).text = none → (f.node m).isParsed = true →
        ∃ leading gap trailing, p.Framed f m leading gap trailing)

/-! ## The pieces of a spelling -/

variable {p : Printer} {f : Forest} {inner : NodeId → Except Fault String} {texts : NodeId → String}

theorem writeAll_joinedAfter : ∀ (i : Nat) (prev : NodeId) (cs : List NodeId),
    (∀ c ∈ cs, inner c = .ok (texts c)) →
    writeAll inner (p.joinedAfter f prev cs) =
      .ok (wovenAfter (fun _ => p.spacing f) texts i prev cs)
  | _, _, [], _ => rfl
  | i, prev, c :: cs, h => by
    have ih := writeAll_joinedAfter (i + 1) c cs fun d hd => h d (List.mem_cons_of_mem _ hd)
    have hc := h c List.mem_cons_self
    rw [joinedAfter, wovenAfter, spacing]
    split_ifs with hs
    · simp [writeAll, ih, hc]
    · simp [writeAll, ih, hc]

theorem writeAll_joined {cs : List NodeId} (h : ∀ c ∈ cs, inner c = .ok (texts c)) :
    writeAll inner (p.joined f cs) = .ok (woven (fun _ => p.spacing f) texts cs) := by
  cases cs with
  | nil => rfl
  | cons c cs =>
    have hcs := writeAll_joinedAfter (p := p) (f := f) 1 c cs
      fun d hd => h d (List.mem_cons_of_mem _ hd)
    simp [joined, writeAll, woven, h c List.mem_cons_self, hcs]

section Gaps

variable {source : Source} {former : List NodeId} {count : Nat}
  {gap : Nat → NodeId → NodeId → String}

theorem gappedAfter_of_gap : ∀ (i : Nat) (prev : NodeId) (cs : List NodeId),
    (∀ j a b, (prev :: cs)[j]? = some a → cs[j]? = some b →
      p.gap f source former count (i + j) a b = .ok (gap (i + j) a b)) →
    ∃ pieces, p.gappedAfter f source former count i prev cs = .ok pieces ∧
      ∀ inner texts, (∀ c ∈ cs, inner c = .ok (texts c)) →
        writeAll inner pieces = .ok (wovenAfter gap texts i prev cs)
  | _, _, [], _ => ⟨[], rfl, fun _ _ _ => rfl⟩
  | i, prev, c :: cs, h => by
    obtain ⟨pieces, hp, hw⟩ := gappedAfter_of_gap (i + 1) c cs fun j a b ha hb => by
      have := h (j + 1) a b (by simpa using ha) (by simpa using hb)
      rwa [show i + (j + 1) = i + 1 + j by omega] at this
    have hg : p.gap f source former count i prev c = .ok (gap i prev c) := h 0 prev c rfl rfl
    refine ⟨.text (gap i prev c) :: .node c :: pieces, by simp [gappedAfter, hg, hp], ?_⟩
    intro inner texts ht
    have hcs := hw inner texts fun d hd => ht d (List.mem_cons_of_mem _ hd)
    simp [writeAll, wovenAfter, ht c List.mem_cons_self, hcs]

theorem gap_of_gappedAfter : ∀ (i : Nat) (prev : NodeId) (cs : List NodeId) {pieces : List Piece},
    p.gappedAfter f source former count i prev cs = .ok pieces →
    ∀ j a b, (prev :: cs)[j]? = some a → cs[j]? = some b →
      ∃ u, p.gap f source former count (i + j) a b = .ok u
  | _, _, [], _, _, j, a, b, _, hb => by simp at hb
  | i, prev, c :: cs, pieces, h, j, a, b, ha, hb => by
    simp only [gappedAfter] at h
    obtain ⟨u, hu, h⟩ := bind_eq_ok.1 h
    obtain ⟨rest, hr, -⟩ := bind_eq_ok.1 h
    cases j with
    | zero =>
      simp only [List.getElem?_cons_zero, Option.some.injEq] at ha hb
      subst ha hb
      exact ⟨u, hu⟩
    | succ j =>
      have := gap_of_gappedAfter (i + 1) c cs hr j a b (by simpa using ha) (by simpa using hb)
      rwa [show i + 1 + j = i + (j + 1) by omega] at this

theorem gapped_of_gap {cs : List NodeId}
    (h : ∀ j a b, cs[j]? = some a → cs[j + 1]? = some b →
      p.gap f source former cs.length (j + 1) a b = .ok (gap (j + 1) a b)) :
    ∃ pieces, p.gapped f source former cs = .ok pieces ∧
      ∀ inner texts, (∀ c ∈ cs, inner c = .ok (texts c)) →
        writeAll inner pieces = .ok (woven gap texts cs) := by
  cases cs with
  | nil => exact ⟨[], rfl, fun _ _ _ => rfl⟩
  | cons c cs =>
    obtain ⟨pieces, hp, hw⟩ := gappedAfter_of_gap 1 c cs fun j a b ha hb => by
      have := h j a b ha (by simpa using hb)
      rwa [Nat.add_comm j 1] at this
    refine ⟨.node c :: pieces, by simp only [gapped, hp]; rfl, fun inner texts ht => ?_⟩
    have hcs := hw inner texts fun d hd => ht d (List.mem_cons_of_mem _ hd)
    simp [writeAll, woven, ht c List.mem_cons_self, hcs]

theorem gap_of_gapped {cs : List NodeId} {pieces : List Piece}
    (h : p.gapped f source former cs = .ok pieces) (j : Nat) (a b : NodeId)
    (ha : cs[j]? = some a) (hb : cs[j + 1]? = some b) :
    ∃ u, p.gap f source former cs.length (j + 1) a b = .ok u := by
  cases cs with
  | nil => simp at ha
  | cons c cs =>
    simp only [gapped] at h
    obtain ⟨rest, hr, -⟩ := bind_eq_ok.1 h
    have := gap_of_gappedAfter 1 c cs hr j a b ha (by simpa using hb)
    rwa [Nat.add_comm 1 j] at this

end Gaps

section Rebuilt

variable {n : NodeId} {source : Source} {span : Int × Int} (hs : (f.node n).source = some source)
  (hsp : (f.node n).span = some span)

include hs hsp

theorem rebuilt_of_framed {leading trailing : String} {gap : Nat → NodeId → NodeId → String}
    (h : p.Framed f n leading gap trailing) :
    ∃ pieces, p.rebuilt f (f.node n) source span = .ok pieces ∧
      ∀ inner texts, (∀ c ∈ (f.node n).children, inner c = .ok (texts c)) →
        writeAll inner pieces =
          .ok (leading ++ (woven gap texts (f.node n).children ++ trailing)) := by
  obtain ⟨hl, hg, ht⟩ := h
  simp only [gapIn, hs] at hg
  obtain ⟨pieces, hp, hw⟩ := gapped_of_gap hg
  simp only [Forest.leading, Forest.trailing, hs, hsp] at hl ht
  unfold rebuilt
  rcases hf : (f.node n).formerChildren with _ | ⟨first, former⟩
  · simp only [hf, List.head?_nil, List.getLast?_nil, Except.ok.injEq] at hl ht hp ⊢
    subst hl ht
    exact ⟨pieces, hp, fun inner texts hc => by simp [hw inner texts hc]⟩
  · have hlast : (first :: former).getLast? = some ((first :: former).getLast (by simp)) :=
      List.getLast?_eq_some_getLast _
    simp only [hf, List.head?_cons, hlast] at hl ht hp ⊢
    obtain ⟨head, hhead, hl⟩ := bind_eq_ok.1 hl
    obtain ⟨tail, htail, ht⟩ := bind_eq_ok.1 ht
    refine ⟨.text leading :: pieces ++ [.text trailing], ?_, fun inner texts hc => ?_⟩
    · simp [hhead, hl, hp, htail, ht]
    · have hin := writeAll_append inner (hw inner texts hc)
        (show writeAll inner [.text trailing] = .ok trailing by simp [writeAll])
      simp [writeAll, hin]

theorem framed_of_rebuilt {pieces : List Piece}
    (h : p.rebuilt f (f.node n) source span = .ok pieces) :
    ∃ leading gap trailing, p.Framed f n leading gap trailing := by
  suffices hall : (∃ u, f.leading n = .ok u) ∧ (∃ u, f.trailing n = .ok u) ∧
      ∃ inner, p.gapped f source (f.node n).formerChildren (f.node n).children = .ok inner by
    obtain ⟨⟨l, hl⟩, ⟨t, ht⟩, inner, hi⟩ := hall
    refine ⟨l, fun i a b => told (p.gapIn f n i a b), t, hl, fun i a b ha hb => eq_ok_told ?_, ht⟩
    simp only [gapIn, hs]
    exact gap_of_gapped hi i a b ha hb
  unfold rebuilt at h
  simp only [Forest.leading, Forest.trailing, hs, hsp]
  rcases hf : (f.node n).formerChildren with _ | ⟨first, former⟩
  · simp only [hf, List.getLast?_nil] at h
    exact ⟨⟨_, rfl⟩, ⟨_, rfl⟩, pieces, h⟩
  · have hlast : (first :: former).getLast? = some ((first :: former).getLast (by simp)) :=
      List.getLast?_eq_some_getLast _
    simp only [hf, hlast] at h
    obtain ⟨head, hhead, h⟩ := bind_eq_ok.1 h
    obtain ⟨leading, hl, h⟩ := bind_eq_ok.1 h
    obtain ⟨inner, hi, h⟩ := bind_eq_ok.1 h
    obtain ⟨tail, htail, h⟩ := bind_eq_ok.1 h
    obtain ⟨trailing, ht, -⟩ := bind_eq_ok.1 h
    simp only [List.head?_cons, hlast]
    exact ⟨⟨leading, by simp [hhead, hl]⟩, ⟨trailing, by simp [htail, ht]⟩, inner, hi⟩

end Rebuilt

/-! ## The text of a node, rule by rule -/

/-- A node that is flagged as pristine is one slice. -/
theorem expand_pristine {pristine : NodeId → Bool} {n : NodeId} (h : pristine n = true) :
    p.expand f pristine n = (f.verbatim n).map fun s => [.text s] := by
  simp only [expand, h, if_true, Forest.verbatim]
  rcases (f.node n).source with _ | source
  · rfl
  rcases (f.node n).span with _ | span
  · rfl
  rcases hs : source.slice span.1 span.2 with e | u
  · simp [hs, Except.map]
  · simp [hs, Except.map]

section Rules

variable {n : NodeId} (h : f.Acyclic n)

include h

theorem textOf_untouched (hu : f.Untouched n) : p.textOf f n = f.verbatim n := by
  rw [textOf_eq p h, expand_pristine ((Forest.isPristine_iff h).2 hu)]
  rcases f.verbatim n with e | u
  · rfl
  · simp [Except.map, writeAll]

theorem textOf_text (hu : ¬ f.Untouched n) {s : String} (ht : (f.node n).text = some s) :
    p.textOf f n = .ok s := by
  have hp : ¬ f.isPristine n = true := fun hp => hu ((Forest.isPristine_iff h).1 hp)
  rw [textOf_eq p h]
  simp [expand, hp, ht, writeAll]

theorem textOf_parsed (hu : ¬ f.Untouched n) (ht : (f.node n).text = none) {source : Source}
    {span : Int × Int} (hs : (f.node n).source = some source) (hsp : (f.node n).span = some span)
    (hsnap : (f.node n).snapshot.isSome = true) :
    p.textOf f n = (p.rebuilt f (f.node n) source span >>= writeAll (p.textOf f)) := by
  have hp : ¬ f.isPristine n = true := fun hp => hu ((Forest.isPristine_iff h).1 hp)
  obtain ⟨snapshot, hsnap⟩ := Option.isSome_iff_exists.1 hsnap
  rw [textOf_eq p h]
  simp only [expand, hp, ht, hs, hsp, hsnap, Bool.false_eq_true, if_false]

theorem textOf_new (hu : ¬ f.Untouched n) (ht : (f.node n).text = none)
    (hn : (f.node n).isParsed = false) :
    p.textOf f n = writeAll (p.textOf f) (p.joined f (f.node n).children) := by
  have hp : ¬ f.isPristine n = true := fun hp => hu ((Forest.isPristine_iff h).1 hp)
  rw [textOf_eq p h]
  simp only [expand, hp, ht, Bool.false_eq_true, if_false]
  split
  · rename_i hsnap hs hsp
    simp [Node.isParsed, hsnap, hs, hsp] at hn
  · rfl

theorem plainTextOf_leaf (hl : (f.node n).isLeaf = true) :
    p.plainTextOf f n = .ok ((f.node n).text.getD "") := by
  rw [plainTextOf_eq p h]
  simp [expandPlain, hl, writeAll]

theorem plainTextOf_joined (hl : (f.node n).isLeaf = false) :
    p.plainTextOf f n = writeAll (p.plainTextOf f) (p.joined f (f.node n).children) := by
  rw [plainTextOf_eq p h]
  simp [expandPlain, hl]

end Rules

/-- What the rules spell is written. -/
theorem Spelled.textOf {n : NodeId} {s : String} (hs : p.Spelled f n s) :
    f.Acyclic n → p.textOf f n = .ok s := by
  induction hs with
  | verbatim hu hs =>
    intro h
    rw [textOf_untouched h hu, hs]
  | text hu hs =>
    intro h
    exact textOf_text h hu hs
  | @rebuilt n leading trailing gap texts hu ht hp hf _ ih =>
    intro h
    obtain ⟨span, hsp, source, hs, hsnap⟩ := Node.isParsed_iff.1 hp
    obtain ⟨pieces, hpieces, hw⟩ := rebuilt_of_framed hs hsp hf
    rw [textOf_parsed h hu ht hs hsp hsnap, hpieces]
    exact hw _ texts fun c hc => ih c hc (h.below ((Forest.Below.refl n).child hc))
  | @joined n texts hu ht hp _ ih =>
    intro h
    rw [textOf_new h hu ht hp]
    exact writeAll_joined fun c hc => ih c hc (h.below ((Forest.Below.refl n).child hc))

/-- What is written is spelled by the rules. By induction on the depth below the node. -/
theorem spelled_of_textOf : ∀ (k : Nat) {n : NodeId} {s : String}, f.Within k n →
    p.textOf f n = .ok s → p.Spelled f n s
  | 0, _, _, h, _ => h.elim
  | k + 1, n, s, h, hs => by
    have hac := h.acyclic
    by_cases hu : f.Untouched n
    · rw [textOf_untouched hac hu] at hs
      exact .verbatim hu hs
    have hchildren : ∀ {ps : List Piece}, Piece.nodes ps = (f.node n).children →
        writeAll (p.textOf f) ps = .ok s → ∀ c ∈ (f.node n).children,
          p.textOf f c = .ok (told (p.textOf f c)) := by
      intro ps hps hw c hc
      exact eq_ok_told (ok_of_writeAll hw c (by rw [hps]; exact hc))
    rcases ht : (f.node n).text with _ | t
    · cases hp : (f.node n).isParsed with
      | true =>
        obtain ⟨span, hsp, source, hsource, hsnap⟩ := Node.isParsed_iff.1 hp
        rw [textOf_parsed hac hu ht hsource hsp hsnap] at hs
        obtain ⟨pieces, hpieces, hw⟩ := bind_eq_ok.1 hs
        obtain ⟨leading, gap, trailing, hf⟩ := framed_of_rebuilt hsource hsp hpieces
        obtain ⟨_, hpieces', hw'⟩ := rebuilt_of_framed hsource hsp hf
        have hc := hchildren (nodes_rebuilt p hpieces).1 hw
        -- the frame was read off the pieces, and they are what it is written as
        rw [hpieces] at hpieces'
        cases hpieces'
        rw [hw' _ _ hc] at hw
        cases hw
        exact .rebuilt hu ht hp hf fun c hmem => spelled_of_textOf k (h c hmem) (hc c hmem)
      | false =>
        rw [textOf_new hac hu ht hp] at hs
        have hc := hchildren (nodes_joined p _).1 hs
        rw [writeAll_joined hc] at hs
        cases hs
        exact .joined hu ht hp fun c hmem => spelled_of_textOf k (h c hmem) (hc c hmem)
    · rw [textOf_text hac hu ht] at hs
      cases hs
      exact .text hu ht

theorem PlainSpelled.plainTextOf {n : NodeId} {s : String} (hs : p.PlainSpelled f n s) :
    f.Acyclic n → p.plainTextOf f n = .ok s := by
  induction hs with
  | leaf hl =>
    intro h
    exact plainTextOf_leaf h hl
  | @joined n texts hl _ ih =>
    intro h
    rw [plainTextOf_joined h hl]
    exact writeAll_joined fun c hc => ih c hc (h.below ((Forest.Below.refl n).child hc))

/-! ## Every node has a spelling -/

/-- Children that have spellings are spelled as they are written. -/
theorem spelled_told {n : NodeId} (h : f.Acyclic n)
    (hc : ∀ c ∈ (f.node n).children, ∃ s, p.Spelled f c s) :
    ∀ c ∈ (f.node n).children, p.Spelled f c (told (p.textOf f c)) := by
  intro c hmem
  obtain ⟨s, hs⟩ := hc c hmem
  rwa [hs.textOf (h.below ((Forest.Below.refl n).child hmem))]

theorem exists_spelled : ∀ (k : Nat) {n : NodeId}, f.Within k n → p.Legible f n →
    ∃ s, p.Spelled f n s
  | 0, _, h, _ => h.elim
  | k + 1, n, h, hlegible => by
    have hc := spelled_told h.acyclic fun c hc => exists_spelled k (h c hc)
      fun m hm => hlegible m (Forest.Below.of_child hc hm)
    obtain ⟨hverbatim, hframed⟩ := hlegible n (.refl n)
    by_cases hu : f.Untouched n
    · obtain ⟨s, hs⟩ := hverbatim hu
      exact ⟨s, .verbatim hu hs⟩
    rcases ht : (f.node n).text with _ | t
    · cases hp : (f.node n).isParsed with
      | true =>
        obtain ⟨leading, gap, trailing, hf⟩ := hframed hu ht hp
        exact ⟨_, .rebuilt hu ht hp hf hc⟩
      | false => exact ⟨_, .joined hu ht hp hc⟩
    · exact ⟨t, .text hu ht⟩

theorem exists_plainSpelled : ∀ (k : Nat) {n : NodeId}, f.Within k n →
    ∃ s, p.PlainSpelled f n s
  | 0, _, h => h.elim
  | k + 1, n, h => by
    cases hl : (f.node n).isLeaf with
    | true => exact ⟨_, .leaf hl⟩
    | false =>
      refine ⟨woven (fun _ => p.spacing f) (fun c => told (p.plainTextOf f c)) _,
        .joined hl fun c hc => ?_⟩
      obtain ⟨s, hs⟩ := exists_plainSpelled k (h c hc)
      rwa [hs.plainTextOf (h c hc).acyclic]

/-- A node without text of its own that was touched is written around the texts of its
children. -/
theorem Spelled.around {n : NodeId} {s : String} (hs : p.Spelled f n s) (hu : ¬ f.Untouched n)
    (ht : (f.node n).text = none) :
    ∃ leading gap trailing texts, (∀ c ∈ (f.node n).children, p.Spelled f c (texts c)) ∧
      s = leading ++ (woven gap texts (f.node n).children ++ trailing) ∧
      ((f.node n).isParsed = true → p.Framed f n leading gap trailing) := by
  cases hs with
  | verbatim h => exact absurd h hu
  | text _ h => simp [ht] at h
  | rebuilt _ _ _ hf hc => exact ⟨_, _, _, _, hc, rfl, fun _ => hf⟩
  | joined _ _ hp hc => exact ⟨"", fun _ => p.spacing f, "", _, hc, by simp, by simp [hp]⟩

end Printer

/-! ## Printing is spelling -/

/-- Below an acyclic node the printer writes what the rules spell, in both modes, and each node
contributes to the text of a node above it what it is written as alone. -/
theorem print_iff_spelled (p : Printer) (f : Forest) (n : NodeId) (h : f.Acyclic n) :
    (∀ base s, p.print f n (some base) = .ok s ↔ p.Spelled f n s) ∧
      (∀ s, p.print f n none = .ok s ↔ p.PlainSpelled f n s) ∧
      (p.Legible f n → ∃ s, p.Spelled f n s) ∧
      (∃ s, p.PlainSpelled f n s) ∧
      (∀ base s, p.print f n (some base) = .ok s → ¬ f.Untouched n → (f.node n).text = none →
        ∃ leading gap trailing texts,
          (∀ c ∈ (f.node n).children, p.print f c (some base) = .ok (texts c)) ∧
            s = leading ++ (woven gap texts (f.node n).children ++ trailing)) ∧
      (∀ s, p.print f n none = .ok s → (f.node n).isLeaf = false →
        ∃ texts, (∀ c ∈ (f.node n).children, p.print f c none = .ok (texts c)) ∧
          s = woven (fun _ => p.spacing f) texts (f.node n).children) := by
  have hchild : ∀ c ∈ (f.node n).children, f.Acyclic c :=
    fun c hc => h.below ((Forest.Below.refl n).child hc)
  have hsome : ∀ base s, p.print f n (some base) = .ok s ↔ p.Spelled f n s := by
    intro base s
    rw [p.print_some h]
    exact ⟨Printer.spelled_of_textOf _ h.within, fun hs => hs.textOf h⟩
  obtain ⟨u, hu⟩ := Printer.exists_plainSpelled (p := p) _ h.within
  have hplain : ∀ s, p.print f n none = .ok s ↔ p.PlainSpelled f n s := by
    intro s
    rw [p.print_none h]
    refine ⟨fun hs => ?_, fun hs => hs.plainTextOf h⟩
    rw [hu.plainTextOf h] at hs
    cases hs
    exact hu
  refine ⟨hsome, hplain, Printer.exists_spelled _ h.within, ⟨u, hu⟩, ?_, ?_⟩
  · intro base s hs htouched ht
    obtain ⟨leading, gap, trailing, texts, hc, heq, -⟩ := ((hsome base s).1 hs).around htouched ht
    refine ⟨leading, gap, trailing, texts, fun c hmem => ?_, heq⟩
    rw [p.print_some (hchild c hmem)]
    exact (hc c hmem).textOf (hchild c hmem)
  · intro s hs hl
    cases (hplain s).1 hs with
    | leaf hl' => simp [hl] at hl'
    | @joined _ texts _ hc =>
      refine ⟨texts, fun c hmem => ?_, rfl⟩
      rw [p.print_none (hchild c hmem)]
      exact (hc c hmem).plainTextOf (hchild c hmem)

/-- The sum of two names, in which the first name stands in the place of the second as well, and
twice in a new pair behind it. -/
def sharedNames : Forest where
  nodes :=
    let parsed kind text children now start stop : Node :=
      ⟨kind, text, now, [], true, some (start, stop), some (.ofText 0 "a + b"),
        some ⟨text, children⟩⟩
    #[parsed "sum" none [1, 2, 3] [1, 2, 1, 4] 0 5, parsed "name" (some "a") [] [] 0 1,
      parsed "+" (some "+") [] [] 2 3, parsed "name" (some "b") [] [] 4 5,
      .branch "pair" [1, 5, 1] [], .leaf "," "," false]

theorem print_iff_spelled_shared : sharedNames.Acyclic 0 ∧
    (⟨"_"⟩ : Printer).Spelled sharedNames 0 "a + a a,_a" ∧
    (⟨"_"⟩ : Printer).PlainSpelled sharedNames 0 "a_+_a_a,_a" := by
  have h : sharedNames.Acyclic 0 := Forest.Within.acyclic (k := 3) (by decide +kernel)
  obtain ⟨hsome, hplain, -⟩ := print_iff_spelled ⟨"_"⟩ sharedNames 0 h
  refine ⟨h, (hsome (.ofText 0 "a + b") _).1 ?_, (hplain _).1 ?_⟩
  · rw [Printer.print_some _ h]
    exact eq_ok_of_toOption (by decide +kernel)
  · rw [Printer.print_none _ h]
    exact eq_ok_of_toOption (by decide +kernel)

/-! ## Where the two modes agree -/

namespace Printer

variable {p : Printer} {f : Forest}

theorem not_untouched_of_not_parsed {n : NodeId} (h : (f.node n).isParsed = false) :
    ¬ f.Untouched n := by
  intro hu
  have hm := hu n (.refl n)
  unfold Node.isModified at hm
  split at hm
  · cases hm
  · rename_i s hs
    simp only [Bool.not_eq_false', Bool.and_eq_true] at hm
    simp [Node.isParsed, hs, hm.1.1.1, hm.1.1.2] at h

/-- Where no node was parsed, a plain spelling is a spelling over a base text as well. -/
theorem PlainSpelled.spelled {n : NodeId} {s : String} (hs : p.PlainSpelled f n s) :
    (∀ m, f.Below n m → (f.node m).isParsed = false) → p.Spelled f n s := by
  induction hs with
  | @leaf n hl =>
    intro hnew
    have hn := hnew n (.refl n)
    rcases ht : (f.node n).text with _ | t
    · -- a leaf without text has no children either, so that nothing is joined
      have hc : (f.node n).children = [] := by simpa [Node.isLeaf, ht] using hl
      have hj := @Spelled.joined p f n (fun _ => "") (not_untouched_of_not_parsed hn) ht hn
        (by simp [hc])
      rwa [hc] at hj
    · exact .text (not_untouched_of_not_parsed hn) ht
  | @joined n texts hl _ ih =>
    intro hnew
    have hn := hnew n (.refl n)
    have ht : (f.node n).text = none := by simpa using (Bool.or_eq_false_iff.1 hl).1
    exact .joined (not_untouched_of_not_parsed hn) ht hn fun c hc =>
      ih c hc fun m hm => hnew m (.of_child hc hm)

end Printer

/-- Where no node below an acyclic one was parsed, both modes print it and write the same text; and
over any two base texts printing comes to the same, be it a text or a fault. -/
theorem print_modes_agree (p : Printer) (f : Forest) (n : NodeId) (h : f.Acyclic n) :
    ((∀ m, f.Below n m → (f.node m).isParsed = false) → ∀ base,
      ∃ s, p.print f n (some base) = .ok s ∧ p.print f n none = .ok s) ∧
    ∀ base base', p.print f n (some base) = p.print f n (some base') := by
  refine ⟨fun hnew base => ?_, fun base base' => ?_⟩
  · obtain ⟨s, hs⟩ := Printer.exists_plainSpelled (p := p) _ h.within
    refine ⟨s, ?_, ?_⟩
    · rw [p.print_some h]
      exact (hs.spelled hnew).textOf h
    · rw [p.print_none h]
      exact hs.plainTextOf h
  · rw [p.print_some h, p.print_some h]

/-- New nodes of every make: with text and children, with neither, and with a span in a source but
without a snapshot. Two of them are shared. -/
def motleyNodes : Forest where
  nodes :=
    #[.branch "list" [1, 2, 3, 1] [], { Node.branch "call" [4] [] with text := some "f" },
      .branch "empty" [] [],
      { Node.branch "pair" [4, 5, 4] [] with
        span := some (0, 3)
        source := some (.ofText 0 "a, a") },
      .leaf "name" "a" true, .leaf "," "," false]

theorem print_modes_agree_motley : motleyNodes.Acyclic 0 ∧
    (⟨"_"⟩ : Printer).print motleyNodes 0 (some (.ofText 1 "b")) = .ok "f__a,_a_f" ∧
    (⟨"_"⟩ : Printer).print motleyNodes 0 none = .ok "f__a,_a_f" := by
  have h : motleyNodes.Acyclic 0 := Forest.Within.acyclic (k := 3) (by decide +kernel)
  have hnew : ∀ m ∈ motleyNodes.walk 0, (motleyNodes.node m).isParsed = false := by decide +kernel
  obtain ⟨s, hs, hplain⟩ := (print_modes_agree ⟨"_"⟩ motleyNodes 0 h).1
    (fun m hm => hnew m ((Forest.mem_walk h).2 hm)) (.ofText 1 "b")
  have htext : (⟨"_"⟩ : Printer).print motleyNodes 0 none = .ok "f__a,_a_f" := by
    rw [Printer.print_none _ h]
    exact eq_ok_of_toOption (by decide +kernel)
  cases hplain.symm.trans htext
  exact ⟨h, hs, hplain⟩

end Retouch
