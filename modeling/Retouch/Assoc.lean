/-!
# Association lists in insertion order

A list of pairs read as a finite map. Inserting under a key that is already there keeps the place
and the spelling of the key and changes what it holds; a new key goes to the end. So the keys stand
in the order in which they were first inserted, and `get?_insert` says that nothing else changes.
Keys are compared by `==`, which may be coarser than equality.
-/

namespace Retouch.Assoc

variable {κ α : Type} [BEq κ]

/-- What stands under a key. -/
def get? : List (κ × α) → κ → Option α
  | [], _ => none
  | (k, a) :: rest, x => if k == x then some a else get? rest x

/-- Puts a value under a key, in the place of the key if there is one and at the end otherwise. -/
def insert : List (κ × α) → κ → α → List (κ × α)
  | [], x, b => [(x, b)]
  | (k, a) :: rest, x, b => if k == x then (k, b) :: rest else (k, a) :: insert rest x b

/-- Whether a key is there. -/
def contains (entries : List (κ × α)) (x : κ) : Bool :=
  (get? entries x).isSome

/-- The keys in order. -/
def keys (entries : List (κ × α)) : List κ :=
  entries.map Prod.fst

/-- Later pairs overwrite earlier ones of the same key, which keep their place. -/
def ofList (pairs : List (κ × α)) : List (κ × α) :=
  pairs.foldl (fun entries pair => insert entries pair.1 pair.2) []

@[simp]
theorem get?_nil (x : κ) : get? ([] : List (κ × α)) x = none := rfl

theorem get?_append (x : κ) : ∀ entries more : List (κ × α),
    get? (entries ++ more) x = (get? entries x).or (get? more x)
  | [], _ => rfl
  | (k, a) :: rest, more => by
    have ih := get?_append x rest more
    by_cases hk : (k == x) = true <;> simp [get?, hk, ih]

theorem get?_insert [PartialEquivBEq κ] : ∀ (entries : List (κ × α)) (x y : κ) (b : α),
    get? (insert entries x b) y = if x == y then some b else get? entries y
  | [], x, y, b => by simp [insert, get?]
  | (k, a) :: rest, x, y, b => by
    have ih := get?_insert rest x y b
    by_cases hk : (k == x) = true
    · simp only [insert, hk, if_true, get?, BEq.congr_left hk]
      split <;> rfl
    · by_cases hy : (k == y) = true
      · have hx : ¬ (x == y) = true := fun h => hk (BEq.trans hy (BEq.symm h))
        simp [insert, get?, hk, hy, hx]
      · simp [insert, get?, hk, hy, ih]

theorem get?_eq_none_iff : ∀ (entries : List (κ × α)) (x : κ),
    get? entries x = none ↔ ∀ k ∈ keys entries, (k == x) = false
  | [], x => by simp [keys]
  | (k, a) :: rest, x => by
    have ih := get?_eq_none_iff rest x
    by_cases hk : (k == x) = true
    · simp [get?, keys, hk]
    · simpa [get?, keys, hk] using ih

theorem mem_keys_insert : ∀ {entries : List (κ × α)} {x y : κ} {b : α},
    y ∈ keys (insert entries x b) → y = x ∨ y ∈ keys entries
  | [], x, y, b, h => .inl (by simpa [insert, keys] using h)
  | (k, a) :: rest, x, y, b, h => by
    simp only [insert] at h
    split at h
    · exact .inr h
    · rcases List.mem_cons.1 h with rfl | h
      · exact .inr List.mem_cons_self
      · exact (mem_keys_insert h).imp_right (List.mem_cons_of_mem k)

section Lawful

variable [LawfulBEq κ]

theorem mem_of_get? : ∀ {entries : List (κ × α)} {x : κ} {a : α}, get? entries x = some a →
    (x, a) ∈ entries
  | (k, b) :: rest, x, a, h => by
    simp only [get?] at h
    split at h
    · rename_i hk
      cases h
      rw [beq_iff_eq.1 hk]
      exact List.mem_cons_self
    · exact List.mem_cons_of_mem _ (mem_of_get? h)

/-- Where no key stands twice, every entry is found under its key. -/
theorem get?_eq_some_iff : ∀ {entries : List (κ × α)}, (keys entries).Nodup → ∀ {x : κ} {a : α},
    get? entries x = some a ↔ (x, a) ∈ entries
  | [], _, _, _ => by simp
  | (k, b) :: rest, hn, x, a => by
    simp only [keys, List.map_cons, List.nodup_cons] at hn
    have ih := get?_eq_some_iff hn.2 (x := x) (a := a)
    by_cases hk : k = x
    · subst hk
      have hnot : (k, a) ∉ rest := fun h => hn.1 (List.mem_map_of_mem h)
      simp [get?, hnot, eq_comm]
    · have hx : ¬ x = k := fun h => hk h.symm
      simp [get?, hk, hx, ih]

theorem get?_eq_none_iff_not_mem {entries : List (κ × α)} {x : κ} :
    get? entries x = none ↔ x ∉ keys entries := by
  simp only [get?_eq_none_iff, beq_eq_false_iff_ne]
  constructor
  · intro h hx
    exact h x hx rfl
  · rintro h k hk rfl
    exact h hk

theorem nodup_keys_insert : ∀ {entries : List (κ × α)}, (keys entries).Nodup → ∀ (x : κ) (b : α),
    (keys (insert entries x b)).Nodup
  | [], _, x, b => by simp [insert, keys]
  | (k, a) :: rest, h, x, b => by
    obtain ⟨hk, hrest⟩ := List.nodup_cons.1 h
    simp only [insert]
    split
    · exact h
    · rename_i hkx
      refine List.nodup_cons.2 ⟨fun hm => ?_, nodup_keys_insert hrest x b⟩
      rcases mem_keys_insert hm with rfl | hm
      · simp at hkx
      · exact hk hm

/-- Without repetitions every item is there once. -/
theorem nodup_eraseDups : ∀ items : List κ, items.eraseDups.Nodup
  | [] => List.nodup_nil
  | a :: rest => by
    rw [List.eraseDups_cons, List.nodup_cons]
    refine ⟨?_, nodup_eraseDups _⟩
    rw [List.mem_eraseDups, List.mem_filter]
    simp
termination_by items => items.length
decreasing_by exact Nat.lt_succ_of_le (List.length_filter_le _ _)

end Lawful

end Retouch.Assoc
