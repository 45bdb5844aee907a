import Retouch.Proofs.Merging

/-!
# Merging place by place

What stands at a place of a merged mapping is decided by what the two mappings hold there, and by
whether the upper one lets the lower one be seen: it does as long as keys lead through mappings to
one that does not have the next key (`runsOut`). A value of the upper mapping that is no mapping
hides all that the lower one holds further on.

Laying the same mapping over another twice does nothing the second time (`laidOver_again`), and so
nothing comes of laying a mapping over itself.
-/

namespace Retouch

namespace Assoc

variable {κ α : Type} [BEq κ]

theorem insert_of_get?_eq_some : ∀ {entries : List (κ × α)} {x : κ} {b : α},
    get? entries x = some b → insert entries x b = entries
  | (k, a) :: rest, x, b, h => by
    simp only [get?] at h
    simp only [insert]
    split at h
    · rename_i hk
      cases h
      rw [if_pos hk]
    · rename_i hk
      rw [if_neg hk, insert_of_get?_eq_some h]

theorem insert_of_get?_eq_none : ∀ {entries : List (κ × α)} {x : κ} (b : α),
    get? entries x = none → insert entries x b = entries ++ [(x, b)]
  | [], _, _, _ => rfl
  | (k, a) :: rest, x, b, h => by
    simp only [get?] at h
    simp only [insert]
    split at h
    · cases h
    · rename_i hk
      rw [if_neg hk, insert_of_get?_eq_none b h, List.cons_append]

theorem Apart.get?_eq_some [EquivBEq κ] : ∀ {entries : List (κ × α)}, Apart entries →
    ∀ {k : κ} {a : α}, (k, a) ∈ entries → get? entries k = some a
  | (l, b) :: rest, h, k, a, hm => by
    obtain ⟨hl, hrest⟩ := List.pairwise_cons.1 h
    rcases List.mem_cons.1 hm with he | hm
    · cases he
      simp [get?]
    · have hlk : (l == k) = false := hl k (List.mem_map.2 ⟨_, hm, rfl⟩)
      simpa [get?, hlk] using Apart.get?_eq_some hrest hm

end Assoc

namespace Datum

/-! ## Places -/

/-- Keys lead through mappings to one that does not have the next key. -/
def runsOut : Option Datum → List Scalar → Bool
  | none, _ => true
  | some (.mapping entries), k :: rest => runsOut (Assoc.get? entries k) rest
  | some _, _ => false

/-- What stands at a place when one value is laid over another, by what both hold there. -/
def laidAt (lower upper : Option Datum) (path : List Scalar) : Option Datum :=
  match along upper path with
  | some u => some (laidOver (along lower path) u)
  | none => if runsOut upper path then along lower path else none

theorem along_append : ∀ (path more : List Scalar) (o : Option Datum),
    along o (path ++ more) = along (along o path) more
  | [], _, _ => by simp [along]
  | k :: rest, more, some (.mapping entries) => along_append rest more (Assoc.get? entries k)
  | _ :: _, [], none | _ :: _, [], some (.scalar _) | _ :: _, [], some (.list _) => rfl
  | _ :: _, _ :: _, none | _ :: _, _ :: _, some (.scalar _) | _ :: _, _ :: _, some (.list _) => rfl

theorem runsOut_append (more : List Scalar) : ∀ (path : List Scalar) {o : Option Datum} {d : Datum},
    along o path = some d → runsOut o (path ++ more) = runsOut (some d) more
  | [], o, d, h => by
    rw [along] at h
    rw [h, List.nil_append]
  | _ :: rest, some (.mapping _), _, h => runsOut_append more rest h

theorem along_of_not_mapping {d : Datum} (h : d.isMapping = false) (k : Scalar)
    (rest : List Scalar) : along (some d) (k :: rest) = none := by
  cases d with
  | mapping entries => cases h
  | scalar s => rfl
  | list items => rfl

theorem runsOut_of_not_mapping {d : Datum} (h : d.isMapping = false) (path : List Scalar) :
    runsOut (some d) path = false := by
  cases d with
  | mapping entries => cases h
  | scalar s => cases path <;> rfl
  | list items => cases path <;> rfl

theorem laidAt_mapping (lower : Option Datum) (entries : List (Scalar × Datum)) (k : Scalar)
    (rest : List Scalar) : laidAt lower (some (.mapping entries)) (k :: rest) =
      laidAt (along lower [k]) (Assoc.get? entries k) rest := by
  have hlower : along lower (k :: rest) = along (along lower [k]) rest := along_append [k] rest lower
  rw [laidAt, hlower]
  rfl

theorem along_overlay_eq_laidAt : ∀ (path : List Scalar) (lower : Option Datum)
    {upper : Option Datum}, (∀ u ∈ upper, Distinct u) →
    along (overlay lower upper) path = laidAt lower upper path
  | [], _, none, _ | [], _, some _, _ | _ :: _, _, none, _ => rfl
  | k :: rest, lower, some u, hu => by
    rcases mapping_or (some u) with ⟨entries, he⟩ | hnot
    · cases he
      have hone : along (overlay lower (some (.mapping entries))) [k] =
          overlay (along lower [k]) (Assoc.get? entries k) := by
        refine along_overlay_one lower k ?_
        rintro _ ⟨⟩
        exact ⟨hu _ rfl, rfl⟩
      rw [laidAt_mapping, ← along_overlay_eq_laidAt rest (along lower [k]) ((hu _ rfl).get? k)]
      calc along (overlay lower (some (.mapping entries))) (k :: rest)
          = along (along (overlay lower (some (.mapping entries))) [k]) rest :=
            along_append [k] rest _
        _ = along (overlay (along lower [k]) (Assoc.get? entries k)) rest := by rw [hone]
    · have hu := hnot u rfl
      rw [overlay_of_not_mapping hu, laidAt, along_of_not_mapping hu, runsOut_of_not_mapping hu]
      rfl

/-! ## Merging again -/

theorem laidOver_none (d : Datum) : laidOver none d = d :=
  laidOver_eq_upper (by simp) d

/-- Nothing comes of merging where every value that is laid over another leaves it as it is. -/
theorem merge_eq_lower : ∀ {upper lower : List (Scalar × Datum)},
    (∀ k d, (k, d) ∈ upper → ∃ v, Assoc.get? lower k = some v ∧ laidOver (some v) d = v) →
    merge lower upper = lower
  | [], lower, _ => by rw [merge]
  | (k, d) :: rest, lower, h => by
    obtain ⟨v, hv, hsame⟩ := h k d List.mem_cons_self
    rw [merge, hv, hsame, Assoc.insert_of_get?_eq_some hv]
    exact merge_eq_lower fun l e hm => h l e (List.mem_cons_of_mem _ hm)

/-- Entries under new keys follow those that are there. -/
theorem merge_eq_append : ∀ {upper lower : List (Scalar × Datum)}, Assoc.Apart upper →
    (∀ k ∈ Assoc.keys upper, Assoc.get? lower k = none) → merge lower upper = lower ++ upper
  | [], lower, _, _ => by rw [merge, List.append_nil]
  | (k, d) :: rest, lower, hu, h => by
    obtain ⟨hk, hrest⟩ := List.pairwise_cons.1 hu
    have hnone : Assoc.get? lower k = none := h k List.mem_cons_self
    rw [merge, hnone, laidOver_none, Assoc.insert_of_get?_eq_none d hnone]
    have hnew : ∀ l ∈ Assoc.keys rest, Assoc.get? (lower ++ [(k, d)]) l = none := by
      intro l hl
      have hkl : (k == l) = false := hk l hl
      rw [Assoc.get?_append, h l (List.mem_cons_of_mem _ hl)]
      simp [Assoc.get?, hkl]
    rw [merge_eq_append hrest hnew, List.append_assoc, List.singleton_append]

theorem laidOver_again {upper : Datum} (hu : Distinct upper) :
    ∀ lower : Option Datum, laidOver (some (laidOver lower upper)) upper = laidOver lower upper := by
  induction hu with
  | scalar s =>
    intro lower
    rw [laidOver_of_not_mapping rfl, laidOver_of_not_mapping rfl]
  | list items =>
    intro lower
    rw [laidOver_of_not_mapping rfl, laidOver_of_not_mapping rfl]
  | @mapping entries apart values ih =>
    intro lower
    -- over a mapping every key is laid over once more, over anything else the mapping over itself
    rcases mapping_or lower with ⟨below, rfl⟩ | hnot
    · have hmerge : merge (merge below entries) entries = merge below entries := by
        refine merge_eq_lower fun k d hm => ⟨laidOver (Assoc.get? below k) d, ?_, ih _ hm _⟩
        rw [get?_merge k apart, apart.get?_eq_some hm, overlay]
      rw [laidOver, laidOver, hmerge]
    · have hself : merge entries entries = entries := by
        refine merge_eq_lower fun k d hm => ⟨d, apart.get?_eq_some hm, ?_⟩
        have hd := ih _ hm none
        rwa [laidOver_none] at hd
      rw [laidOver_eq_upper hnot, laidOver, hself]

section Mappings

variable {lower upper : List (Scalar × Datum)}

theorem merge_again (hu : Distinct (.mapping upper)) :
    merge (merge lower upper) upper = merge lower upper := by
  have hagain := laidOver_again hu (some (.mapping lower))
  rw [laidOver, laidOver] at hagain
  exact Datum.mapping.inj hagain

theorem merge_self (hu : Distinct (.mapping upper)) : merge upper upper = upper := by
  have hagain := laidOver_again hu none
  rw [laidOver_none, laidOver] at hagain
  exact Datum.mapping.inj hagain

theorem along_merge (hu : Distinct (.mapping upper)) (path : List Scalar) :
    along (some (.mapping (merge lower upper))) path =
      laidAt (some (.mapping lower)) (some (.mapping upper)) path := by
  rw [← overlay_mapping]
  exact along_overlay_eq_laidAt path (some (.mapping lower)) (by simpa using hu)

end Mappings

/-- A place of a merged mapping holds the merged mappings if both have a mapping there; else what the
upper one has there; else what the lower one has there, if the upper one runs out of keys on the way;
and else nothing, as where the upper one has a value that is no mapping on the way. So the empty
mapping changes nothing on either side, nor does a mapping laid over itself or laid over twice. -/
theorem merge_overrides_by_place (lower upper : List (Scalar × Datum))
    (hl : Distinct (.mapping lower)) (hu : Distinct (.mapping upper)) :
    (∀ path below above, along (some (.mapping lower)) path = some (.mapping below) →
      along (some (.mapping upper)) path = some (.mapping above) →
      along (some (.mapping (merge lower upper))) path = some (.mapping (merge below above))) ∧
    (∀ path d, along (some (.mapping upper)) path = some d →
      (d.isMapping = false ∨
        ∀ below, along (some (.mapping lower)) path ≠ some (.mapping below)) →
      along (some (.mapping (merge lower upper))) path = some d) ∧
    (∀ path, along (some (.mapping upper)) path = none →
      along (some (.mapping (merge lower upper))) path =
        if runsOut (some (.mapping upper)) path then along (some (.mapping lower)) path
        else none) ∧
    (∀ path k rest d, along (some (.mapping upper)) path = some d → d.isMapping = false →
      along (some (.mapping (merge lower upper))) (path ++ k :: rest) = none) ∧
    merge [] upper = upper ∧ merge lower [] = lower ∧ merge lower lower = lower ∧
    merge (merge lower upper) upper = merge lower upper := by
  refine ⟨fun path below above hb ha => ?_, fun path d hd hone => ?_, fun path hnone => ?_,
    fun path k rest d hd hnot => ?_, merge_eq_append hu.apart (by simp), by rw [merge],
    merge_self hl, merge_again hu⟩
  · rw [along_merge hu, laidAt, ha, hb]
    exact overlay_mapping below above
  · rw [along_merge hu, laidAt, hd]
    rcases hone with hnot | hlower
    · exact congrArg some (laidOver_of_not_mapping hnot _)
    · rcases mapping_or (along (some (.mapping lower)) path) with ⟨below, hb⟩ | hnot
      · exact absurd hb (hlower below)
      · exact congrArg some (laidOver_eq_upper hnot d)
  · rw [along_merge hu, laidAt, hnone]
  · have hgone : along (some (.mapping upper)) (path ++ k :: rest) = none := by
      rw [along_append, hd, along_of_not_mapping hnot]
    rw [along_merge hu, laidAt, hgone, runsOut_append _ _ hd, runsOut_of_not_mapping hnot]
    rfl

/-- A language and a separator. -/
def lowerEntries : List (Scalar × Datum) :=
  [(.text "parser", .mapping [(.text "language", .text "python"), (.text "tolerant", .bool true)]),
   (.text "printer", .mapping [(.text "separator", .text "")])]

/-- Another language, and something else than a mapping for the separator's section. -/
def upperEntries : List (Scalar × Datum) :=
  [(.text "printer", .null), (.text "parser", .mapping [(.text "language", .text "tsx")])]

theorem merge_overrides_by_place_sections : Distinct (.mapping lowerEntries) ∧
    Distinct (.mapping upperEntries) ∧
    along (some (.mapping (merge lowerEntries upperEntries))) [.text "parser"] =
      some (.mapping [(.text "language", .text "tsx"), (.text "tolerant", .bool true)]) ∧
    along (some (.mapping (merge lowerEntries upperEntries))) [.text "printer"] = some .null ∧
    along (some (.mapping (merge lowerEntries upperEntries))) [.text "parser", .text "tolerant"] =
      some (.bool true) ∧
    along (some (.mapping (merge lowerEntries upperEntries))) [.text "printer", .text "separator"] =
      none ∧
    merge (merge lowerEntries upperEntries) upperEntries = merge lowerEntries upperEntries := by
  have hl : Distinct (.mapping lowerEntries) :=
    (Distinct.empty.insert (.text "parser") ((Distinct.empty.insert (.text "language")
      (.scalar _)).insert (.text "tolerant") (.scalar _))).insert (.text "printer")
        (Distinct.empty.insert (.text "separator") (.scalar _))
  have hu : Distinct (.mapping upperEntries) :=
    (Distinct.empty.insert (.text "printer") (.scalar _)).insert (.text "parser")
      (Distinct.empty.insert (.text "language") (.scalar _))
  obtain ⟨hboth, hupper, hlower, hhidden, -, -, -, hagain⟩ :=
    merge_overrides_by_place lowerEntries upperEntries hl hu
  refine ⟨hl, hu, (hboth _ _ _ rfl rfl).trans (by decide +kernel), hupper _ _ rfl (.inl rfl),
    hlower _ rfl, hhidden [.text "printer"] _ [] .null rfl rfl, hagain⟩

end Datum

end Retouch
