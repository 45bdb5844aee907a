import Retouch.Datum.Merge

/-!
# What merging does to the values inside mappings

Where no mapping has a key twice, laying one over another is done key by key (`get?_merge`), so a
value inside the result comes from the upper mapping if it has one that is no mapping, and mappings
that differ at one place only still do so after merging (`SameBut.overlay`). A value of the upper
mapping that is no mapping hides the difference altogether (`overlay_eq_of_blocks`).
-/

namespace Retouch

namespace Assoc

variable {κ α : Type} [BEq κ]

/-- No key stands twice. -/
def Apart (entries : List (κ × α)) : Prop :=
  (keys entries).Pairwise fun a b => (a == b) = false

theorem mem_of_get?_eq_some : ∀ {entries : List (κ × α)} {x : κ} {a : α},
    get? entries x = some a → ∃ k, (k, a) ∈ entries
  | (k, b) :: rest, x, a, h => by
    simp only [get?] at h
    split at h
    · cases h
      exact ⟨k, List.mem_cons_self⟩
    · obtain ⟨k', hm⟩ := mem_of_get?_eq_some h
      exact ⟨k', List.mem_cons_of_mem _ hm⟩

theorem mem_insert : ∀ {entries : List (κ × α)} {x : κ} {b : α} {entry : κ × α},
    entry ∈ insert entries x b → entry.2 = b ∨ entry ∈ entries
  | [], x, b, entry, h => by
    obtain rfl := List.mem_singleton.1 h
    exact .inl rfl
  | (k, a) :: rest, x, b, entry, h => by
    simp only [insert] at h
    split at h
    · rcases List.mem_cons.1 h with rfl | h
      · exact .inl rfl
      · exact .inr (List.mem_cons_of_mem _ h)
    · rcases List.mem_cons.1 h with rfl | h
      · exact .inr List.mem_cons_self
      · exact (mem_insert h).imp_right (List.mem_cons_of_mem _)

/-- Inserting keeps the keys, and a new one goes to the end. -/
theorem keys_insert : ∀ (entries : List (κ × α)) (x : κ) (b : α),
    keys (insert entries x b) =
      if (keys entries).any (· == x) then keys entries else keys entries ++ [x]
  | [], x, b => by simp [insert, keys]
  | (k, a) :: rest, x, b => by
    have ih := keys_insert rest x b
    unfold keys at ih ⊢
    by_cases hk : (k == x) = true
    · simp [insert, hk]
    · simp only [insert, hk, List.map_cons, List.any_cons, Bool.false_or, Bool.false_eq_true,
        if_false, ih]
      split <;> rfl

theorem Apart.insert {entries : List (κ × α)} (h : Apart entries) (x : κ) (b : α) :
    Apart (Assoc.insert entries x b) := by
  unfold Apart at h ⊢
  rw [keys_insert]
  split
  · exact h
  · rename_i hx
    refine List.pairwise_append.2 ⟨h, List.pairwise_singleton _ _, ?_⟩
    intro k hk y hy
    obtain rfl := List.mem_singleton.1 hy
    simpa using fun hkx => hx (List.any_eq_true.2 ⟨k, hk, hkx⟩)

variable [EquivBEq κ]

theorem get?_congr {x y : κ} (h : (x == y) = true) : ∀ entries : List (κ × α),
    get? entries x = get? entries y
  | [] => rfl
  | (k, a) :: rest => by simp only [get?, BEq.congr_right h, get?_congr h rest]

theorem Apart.get?_tail {k : κ} {a : α} {rest : List (κ × α)} (h : Apart ((k, a) :: rest)) {x : κ}
    (hx : (k == x) = true) : get? rest x = none := by
  rw [get?_eq_none_iff]
  intro y hy
  have hky : (k == y) = false := (List.pairwise_cons.1 h).1 y hy
  rw [← hky, BEq.comm, BEq.congr_left hx]

/-- Lists without repeated keys are the same if they have the same keys in the same order and hold
the same under each. -/
theorem Apart.ext : ∀ {entries others : List (κ × α)}, Apart entries → keys entries = keys others →
    (∀ x, get? entries x = get? others x) → entries = others
  | [], [], _, _, _ => rfl
  | (k, a) :: rest, (k', a') :: rest', h, hkeys, hget => by
    obtain ⟨rfl, htail⟩ := List.cons.inj hkeys
    have ha : a = a' := by simpa [get?] using hget k
    have hapart' : Apart ((k, a') :: rest') := by
      unfold Apart at h ⊢
      rw [← hkeys]
      exact h
    have hrest : rest = rest' := by
      refine Apart.ext (List.pairwise_cons.1 h).2 htail fun x => ?_
      by_cases hx : (k == x) = true
      · rw [h.get?_tail hx, hapart'.get?_tail hx]
      · simpa [get?, hx] using hget x
    rw [ha, hrest]

end Assoc

namespace Datum

/-- No mapping that keys lead to has a key twice. -/
inductive Distinct : Datum → Prop
  | scalar (s : Scalar) : Distinct (.scalar s)
  | list (items : List Datum) : Distinct (.list items)
  | mapping {entries : List (Scalar × Datum)} (apart : Assoc.Apart entries)
      (values : ∀ entry ∈ entries, Distinct entry.2) : Distinct (.mapping entries)

namespace Distinct

variable {entries : List (Scalar × Datum)}

theorem apart (h : Distinct (.mapping entries)) : Assoc.Apart entries := by
  cases h
  assumption

theorem values (h : Distinct (.mapping entries)) : ∀ entry ∈ entries, Distinct entry.2 := by
  cases h
  assumption

theorem empty : Distinct (.mapping []) :=
  .mapping List.Pairwise.nil (by simp)

theorem insert (h : Distinct (.mapping entries)) (k : Scalar) {d : Datum} (hd : Distinct d) :
    Distinct (.mapping (Assoc.insert entries k d)) := by
  refine .mapping (h.apart.insert k d) fun entry hm => ?_
  rcases Assoc.mem_insert hm with he | hm
  · rw [he]
    exact hd
  · exact h.values entry hm

theorem get? (h : Distinct (.mapping entries)) (k : Scalar) :
    ∀ d ∈ Assoc.get? entries k, Distinct d := by
  intro d hd
  obtain ⟨k', hm⟩ := Assoc.mem_of_get?_eq_some hd
  exact h.values _ hm

end Distinct

/-! ## Laying values over each other -/

/-- What stands at a place when a mapping is laid over another, by what the two hold there. -/
def overlay : Option Datum → Option Datum → Option Datum
  | lower, none => lower
  | lower, some upper => some (laidOver lower upper)

/-- Whether a value is a mapping. -/
def isMapping : Datum → Bool
  | .mapping _ => true
  | _ => false

theorem laidOver_of_not_mapping {d : Datum} (h : d.isMapping = false) (lower : Option Datum) :
    laidOver lower d = d := by
  cases d with
  | scalar s => rw [laidOver]
  | list items => rw [laidOver]
  | mapping entries => cases h

/-- Only a mapping is still seen below another value. -/
theorem laidOver_eq_upper {lower : Option Datum} (h : ∀ l ∈ lower, l.isMapping = false)
    (d : Datum) : laidOver lower d = d := by
  cases d with
  | scalar s => rw [laidOver]
  | list items => rw [laidOver]
  | mapping entries =>
    rw [laidOver]
    rintro _ rfl
    cases h _ rfl

theorem overlay_of_not_mapping {d : Datum} (h : d.isMapping = false) (lower : Option Datum) :
    overlay lower (some d) = some d := by
  rw [overlay, laidOver_of_not_mapping h]

theorem overlay_eq_upper {lower : Option Datum} (h : ∀ l ∈ lower, l.isMapping = false) (d : Datum) :
    overlay lower (some d) = some d := by
  rw [overlay, laidOver_eq_upper h]

theorem overlay_mapping (lower upper : List (Scalar × Datum)) :
    overlay (some (.mapping lower)) (some (.mapping upper)) =
      some (.mapping (merge lower upper)) := by
  rw [overlay, laidOver]

theorem eq_mapping {d : Datum} (h : d.isMapping = true) : ∃ entries, d = .mapping entries := by
  cases d with
  | mapping entries => exact ⟨entries, rfl⟩
  | scalar s => cases h
  | list items => cases h

/-- A value that may be absent is a mapping or not. -/
theorem mapping_or (o : Option Datum) :
    (∃ entries, o = some (.mapping entries)) ∨ ∀ d ∈ o, d.isMapping = false := by
  rcases o with _ | d
  · exact .inr (by simp)
  · cases h : d.isMapping with
    | true =>
      obtain ⟨entries, rfl⟩ := eq_mapping h
      exact .inl ⟨entries, rfl⟩
    | false => exact .inr (by simpa using h)

theorem isMapping_laidOver (lower : Option Datum) (d : Datum) :
    (laidOver lower d).isMapping = d.isMapping := by
  rcases mapping_or lower with ⟨below, rfl⟩ | hnot
  · cases d with
    | mapping entries => rw [laidOver]; rfl
    | scalar s => rw [laidOver]
    | list items => rw [laidOver]
  · rw [laidOver_eq_upper hnot]

/-- Merging goes key by key. -/
theorem get?_merge (x : Scalar) : ∀ {upper : List (Scalar × Datum)}, Assoc.Apart upper →
    ∀ lower : List (Scalar × Datum),
      Assoc.get? (merge lower upper) x = overlay (Assoc.get? lower x) (Assoc.get? upper x)
  | [], _, lower => by simp [merge, overlay]
  | (k, d) :: rest, h, lower => by
    rw [merge, get?_merge x (List.pairwise_cons.1 h).2, Assoc.get?_insert]
    by_cases hx : (k == x) = true
    · simp only [hx, if_true, h.get?_tail hx, Assoc.get?, overlay, Assoc.get?_congr hx]
    · simp only [hx, Assoc.get?]
      rfl

theorem keys_merge : ∀ {upper upper' lower lower' : List (Scalar × Datum)},
    Assoc.keys lower = Assoc.keys lower' → Assoc.keys upper = Assoc.keys upper' →
    Assoc.keys (merge lower upper) = Assoc.keys (merge lower' upper')
  | [], [], lower, lower', hl, _ => by simpa [merge] using hl
  | (k, d) :: rest, (k', d') :: rest', lower, lower', hl, hu => by
    obtain ⟨rfl, htail⟩ := List.cons.inj hu
    rw [merge, merge]
    refine keys_merge ?_ htail
    rw [Assoc.keys_insert, Assoc.keys_insert, hl]

theorem Distinct.laidOver {upper : Datum} (hu : Distinct upper) :
    ∀ (lower : Option Datum), (∀ d ∈ lower, Distinct d) → Distinct (laidOver lower upper) := by
  induction hu with
  | scalar s =>
    intro lower _
    rw [laidOver_of_not_mapping rfl]
    exact .scalar s
  | list items =>
    intro lower _
    rw [laidOver_of_not_mapping rfl]
    exact .list items
  | @mapping entries apart values ih =>
    -- the entries still to be laid over grow fewer, while the hypothesis is about all of them
    have hmerge : ∀ (upper : List (Scalar × Datum)), (∀ entry ∈ upper, entry ∈ entries) →
        ∀ {lower : List (Scalar × Datum)}, Distinct (.mapping lower) →
          Distinct (.mapping (merge lower upper)) := by
      intro upper
      induction upper with
      | nil =>
        intro _ lower hl
        simpa [merge] using hl
      | cons entry rest ihr =>
        intro hsub lower hl
        rw [merge]
        refine ihr (fun e he => hsub e (List.mem_cons_of_mem _ he)) (hl.insert _ ?_)
        exact ih _ (hsub _ List.mem_cons_self) _ (hl.get? _)
    intro lower hl
    rcases mapping_or lower with ⟨below, rfl⟩ | hnot
    · rw [Datum.laidOver]
      exact hmerge entries (fun _ h => h) (hl _ rfl)
    · rw [laidOver_eq_upper hnot]
      exact .mapping apart values

theorem Distinct.merge {lower upper : List (Scalar × Datum)} (hl : Distinct (.mapping lower))
    (hu : Distinct (.mapping upper)) : Distinct (.mapping (Datum.merge lower upper)) := by
  have h := hu.laidOver (some (.mapping lower)) (by simpa using hl)
  rw [Datum.laidOver] at h
  exact h

/-! ## Values at places -/

/-- What stands where keys lead, if they lead anywhere. -/
def along : Option Datum → List Scalar → Option Datum
  | o, [] => o
  | some (.mapping entries), k :: rest => along (Assoc.get? entries k) rest
  | _, _ :: _ => none

/-- Below a mapping merging goes on key by key. -/
theorem along_overlay_one (lower : Option Datum) {upper : Option Datum} (k : Scalar)
    (hu : ∀ u ∈ upper, Distinct u ∧ u.isMapping = true) :
    along (overlay lower upper) [k] = overlay (along lower [k]) (along upper [k]) := by
  rcases upper with _ | u
  · rfl
  obtain ⟨hdistinct, hm⟩ := hu u rfl
  obtain ⟨entries, rfl⟩ := eq_mapping hm
  rcases mapping_or lower with ⟨below, rfl⟩ | hnot
  · rw [overlay_mapping]
    exact get?_merge k hdistinct.apart below
  · have hnone : along lower [k] = none := by
      rcases lower with _ | l
      · rfl
      · cases l with
        | mapping below => cases hnot _ rfl
        | scalar s => rfl
        | list items => rfl
    rw [overlay_eq_upper hnot, hnone]
    change Assoc.get? entries k = overlay none (Assoc.get? entries k)
    cases Assoc.get? entries k with
    | none => rfl
    | some d => rw [overlay_eq_upper (by simp)]

/-- The value with another in the place where keys lead, or itself if they lead nowhere. -/
def replaced : Datum → List Scalar → Datum → Datum
  | _, [], new => new
  | .mapping entries, k :: rest, new =>
    match Assoc.get? entries k with
    | some d => .mapping (Assoc.insert entries k (replaced d rest new))
    | none => .mapping entries
  | d, _ :: _, _ => d

/-- Mappings with the same keys that differ under one key at most, where they are related. -/
def SameEntries (k : Scalar) (related : Option Datum → Option Datum → Prop)
    (entries others : List (Scalar × Datum)) : Prop :=
  Assoc.keys entries = Assoc.keys others ∧
    (∀ x, (k == x) = false → Assoc.get? entries x = Assoc.get? others x) ∧
      related (Assoc.get? entries k) (Assoc.get? others k)

/-- Values that are the same but for what they hold where keys lead. -/
def SameBut : List Scalar → Option Datum → Option Datum → Prop
  | [], o, o' => o.isSome = o'.isSome
  | k :: rest, o, o' => o = o' ∨ ∃ entries others, o = some (.mapping entries) ∧
      o' = some (.mapping others) ∧ SameEntries k (SameBut rest) entries others

theorem SameBut.refl : ∀ (path : List Scalar) (o : Option Datum), SameBut path o o
  | [], _ => rfl
  | _ :: _, _ => .inl rfl

theorem SameEntries.merge {k : Scalar} {related : Option Datum → Option Datum → Prop}
    {lower lower' upper upper' : List (Scalar × Datum)} (hu : Assoc.Apart upper)
    (hu' : Assoc.Apart upper') (h : SameEntries k related lower lower')
    (h' : SameEntries k related upper upper')
    (hover : related (overlay (Assoc.get? lower k) (Assoc.get? upper k))
      (overlay (Assoc.get? lower' k) (Assoc.get? upper' k))) :
    SameEntries k related (Datum.merge lower upper) (Datum.merge lower' upper') := by
  refine ⟨keys_merge h.1 h'.1, fun x hx => ?_, ?_⟩
  · rw [get?_merge x hu, get?_merge x hu', h.2.1 x hx, h'.2.1 x hx]
  · rw [get?_merge k hu, get?_merge k hu']
    exact hover

/-- Merging keeps differences at one place there. -/
theorem SameBut.overlay : ∀ {path : List Scalar} {lower lower' upper upper' : Option Datum},
    (∀ u ∈ upper, Distinct u) → (∀ u ∈ upper', Distinct u) → SameBut path lower lower' →
    SameBut path upper upper' → SameBut path (overlay lower upper) (overlay lower' upper')
  | [], lower, lower', upper, upper', _, _, h, h' => by
    simp only [SameBut] at h h' ⊢
    cases upper <;> cases upper' <;> simp_all [Datum.overlay]
  | k :: rest, lower, lower', upper, upper', hu, hu', h, h' => by
    -- where both uppers are mappings, so are both lowers or they are not seen
    have hmapping : ∀ {entries others}, SameEntries k (SameBut rest) entries others →
        upper = some (.mapping entries) → upper' = some (.mapping others) →
        SameBut (k :: rest) (Datum.overlay lower upper) (Datum.overlay lower' upper') := by
      rintro entries others hs rfl rfl
      have hu := hu _ rfl
      have hu' := hu' _ rfl
      have hmerge : ∀ {below below'}, SameEntries k (SameBut rest) below below' →
          SameBut (k :: rest) (some (.mapping (Datum.merge below entries)))
            (some (.mapping (Datum.merge below' others))) := fun hb =>
        .inr ⟨_, _, rfl, rfl, hb.merge hu.apart hu'.apart hs
          (SameBut.overlay (hu.get? k) (hu'.get? k) hb.2.2 hs.2.2)⟩
      rcases h with rfl | ⟨below, below', rfl, rfl, hb⟩
      · rcases mapping_or lower with ⟨below, rfl⟩ | hnot
        · rw [overlay_mapping, overlay_mapping]
          exact hmerge ⟨rfl, fun _ _ => rfl, .refl _ _⟩
        · rw [overlay_eq_upper hnot, overlay_eq_upper hnot]
          exact .inr ⟨_, _, rfl, rfl, hs⟩
      · rw [overlay_mapping, overlay_mapping]
        exact hmerge hb
    rcases h' with rfl | ⟨entries, others, rfl, rfl, hs⟩
    · rcases mapping_or upper with ⟨entries, rfl⟩ | hnot
      · exact hmapping ⟨rfl, fun _ _ => rfl, .refl _ _⟩ rfl rfl
      · rcases upper with _ | u
        · exact h
        · rw [overlay_of_not_mapping (hnot u rfl), overlay_of_not_mapping (hnot u rfl)]
          exact .inl rfl
    · exact hmapping hs rfl rfl

section Mappings

variable {path : List Scalar} {lower lower' upper upper' : List (Scalar × Datum)}

theorem SameBut.merge (hu : Distinct (.mapping upper)) (hu' : Distinct (.mapping upper'))
    (h : SameBut path (some (.mapping lower)) (some (.mapping lower')))
    (h' : SameBut path (some (.mapping upper)) (some (.mapping upper'))) :
    SameBut path (some (.mapping (Datum.merge lower upper)))
      (some (.mapping (Datum.merge lower' upper'))) := by
  rw [← overlay_mapping, ← overlay_mapping]
  exact h.overlay (by simpa using hu) (by simpa using hu') h'

end Mappings

end Datum

end Retouch
