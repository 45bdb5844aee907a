import Retouch.Proofs.Keyed

/-!
# The way up from a path

Following parents passes through every path at most once if it ends (`Way.nodup`), so the loops that
go up have fuel enough: they list the paths on the way and find the one at its end
(`Way.ancestors_eq`, `Way.root_eq`). Where parents are older than their children every way up ends
(`Keyed.exists_way`).
-/

namespace Retouch.Document

/-- Following parents from a path leads through the paths of the list and ends there. -/
inductive Way (d : Document) : PathId → List PathId → Prop
  | top {p : PathId} : (d.path p).parent = none → Way d p []
  | up {p q : PathId} {above : List PathId} : (d.path p).parent = some q → Way d q above →
      Way d p (q :: above)

variable {d : Document} {p q : PathId} {above : List PathId}

theorem lt_size_of_parent {x y : Nat} (hx : (d.path x).parent = some y) : x < d.paths.size := by
  by_contra hge
  rw [path_eq_blank (Nat.le_of_not_lt hge)] at hx
  cases hx

namespace Way

theorem unique (h : d.Way p above) : ∀ {above' : List PathId}, d.Way p above' → above' = above := by
  induction h with
  | top hp =>
    rintro _ (hp' | ⟨hp', -⟩)
    · rfl
    · cases hp.symm.trans hp'
  | up hp _ ih =>
    rintro _ (hp' | ⟨hp', hq'⟩)
    · cases hp.symm.trans hp'
    · cases hp.symm.trans hp'
      rw [ih hq']

/-- From every path on the way there is a way up, and it is no longer. -/
theorem of_mem (h : d.Way p above) (hq : q ∈ p :: above) :
    ∃ above', d.Way q above' ∧ above'.length ≤ above.length := by
  induction h with
  | top hp =>
    rw [List.mem_singleton.1 hq]
    exact ⟨[], .top hp, le_rfl⟩
  | up hp h ih =>
    rcases List.mem_cons.1 hq with rfl | hq
    · exact ⟨_, .up hp h, le_rfl⟩
    · obtain ⟨above', hway, hlen⟩ := ih hq
      exact ⟨above', hway, hlen.trans (Nat.le_succ _)⟩

theorem nodup (h : d.Way p above) : (p :: above).Nodup := by
  induction h with
  | top => exact List.nodup_singleton _
  | up hp h ih =>
    refine List.nodup_cons.2 ⟨fun hm => ?_, ih⟩
    obtain ⟨above', hway, hlen⟩ := h.of_mem hm
    rw [(Way.up hp h).unique hway] at hlen
    exact absurd hlen (Nat.not_succ_le_self _)

theorem length_le (h : d.Way p above) : above.length ≤ d.paths.size := by
  -- all paths on the way but the last have a parent, so they are paths of the document
  have hin : ∀ x ∈ (p :: above).dropLast, x < d.paths.size := by
    induction h with
    | top => simp
    | up hp _ ih =>
      rw [List.dropLast_cons_cons]
      exact List.forall_mem_cons.2 ⟨lt_size_of_parent hp, ih⟩
  have hsub : (p :: above).dropLast ⊆ List.range d.paths.size :=
    fun x hx => List.mem_range.2 (hin x hx)
  have hlen := (List.subperm_of_subset (h.nodup.sublist (List.dropLast_sublist _)) hsub).length_le
  simpa using hlen

theorem ancestorsFrom_eq (h : d.Way p above) :
    ∀ {fuel : Nat}, above.length ≤ fuel → d.ancestorsFrom fuel p = above := by
  induction h with
  | top hp => rintro (_ | fuel) _ <;> simp only [ancestorsFrom, hp]
  | up hp _ ih =>
    rintro (_ | fuel) hfuel
    · cases hfuel
    · simp only [ancestorsFrom, hp, ih (Nat.le_of_succ_le_succ hfuel)]

theorem rootFrom_eq (h : d.Way p above) :
    ∀ {fuel : Nat}, above.length ≤ fuel → d.rootFrom fuel p = above.getLastD p := by
  induction h with
  | top hp => rintro (_ | fuel) _ <;> simp [rootFrom, hp]
  | up hp _ ih =>
    rintro (_ | fuel) hfuel
    · cases hfuel
    · simp only [rootFrom, hp, ih (Nat.le_of_succ_le_succ hfuel), List.getLastD_cons]

/-- The paths above a path are those on the way up. -/
theorem ancestors_eq (h : d.Way p above) : d.ancestors p = above :=
  h.ancestorsFrom_eq h.length_le

/-- The path at the top is the last one on the way up. -/
theorem root_eq (h : d.Way p above) : d.root p = above.getLastD p :=
  h.rootFrom_eq h.length_le

end Way

namespace Keyed

/-- Parents are older, so every way up ends. -/
theorem exists_way (h : d.Keyed) (x : Nat) : ∃ above, d.Way x above := by
  induction x using Nat.strong_induction_on with
  | _ x ih =>
    rcases hx : (d.path x).parent with _ | y
    · exact ⟨[], .top hx⟩
    · obtain ⟨above, hway⟩ := ih y (h.older x y hx)
      exact ⟨y :: above, .up hx hway⟩

/-- What is above a path has its own parent there as well. -/
theorem parent_mem_ancestors (h : d.Keyed) {x y z : Nat} (hy : (d.path y).parent = some z)
    (hm : y ∈ x :: d.ancestors x) : z ∈ d.ancestors x := by
  obtain ⟨above, hway⟩ := h.exists_way x
  rw [hway.ancestors_eq] at hm ⊢
  induction hway with
  | top hp =>
    cases List.mem_singleton.1 hm
    cases hp.symm.trans hy
  | up hp _ ih =>
    rcases List.mem_cons.1 hm with rfl | hm
    · cases hp.symm.trans hy
      exact List.mem_cons_self
    · exact List.mem_cons_of_mem _ (ih hm)

end Keyed

end Retouch.Document
