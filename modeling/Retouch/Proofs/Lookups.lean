import Retouch.Proofs.Rendering

/-!
# No lookup misses

The printer looks up flags by node: those of the children of a node that is being settled, while
the pristine map is made, and then that of every node it writes. `Printer.checkedPrint` is the
printer with a fault wherever there is no entry. Making the map never meets one, with cycles or
without: a node waits on the stack below those of its children that have no entry yet
(`checkedMapFrom_eq`). So below an acyclic node both printers write the same (`checkedPrint_eq`).
-/

namespace Retouch

namespace Forest

/-- The flag of a node, which must be there. -/
def flagIn (memo : Std.HashMap NodeId Bool) (n : NodeId) : Except Fault Bool :=
  match memo[n]? with
  | some flag => .ok flag
  | none => .error (.noKey (.int n))

/-- Settles the nodes on the stack as `pristineMapFrom` does, looking up every child. -/
def checkedMapFrom (f : Forest) :
    Nat → List (NodeId × Bool) → Std.HashMap NodeId Bool → Except Fault (Std.HashMap NodeId Bool)
  | _, [], memo => .ok memo
  | 0, _ :: _, memo => .ok memo
  | fuel + 1, (n, settled) :: rest, memo =>
    if memo.contains n then checkedMapFrom f fuel rest memo
    else if settled then do
      let flags ← (f.node n).children.mapM (flagIn memo)
      checkedMapFrom f fuel rest (memo.insert n (!(f.node n).isModified && flags.all id))
    else
      let fresh := (f.node n).children.filter fun c => !memo.contains c
      checkedMapFrom f fuel (fresh.reverse.map (·, false) ++ (n, true) :: rest) memo

theorem flagIn_of_mem {memo : Std.HashMap NodeId Bool} {n : NodeId} (h : n ∈ memo) :
    flagIn memo n = .ok (memo.getD n false) := by
  rw [flagIn, Std.HashMap.getElem?_eq_some_getElem h, Std.HashMap.getD_eq_getD_getElem?,
    Std.HashMap.getElem?_eq_some_getElem h]
  rfl

theorem mapM_flagIn {memo : Std.HashMap NodeId Bool} : ∀ {cs : List NodeId}, (∀ c ∈ cs, c ∈ memo) →
    cs.mapM (flagIn memo) = .ok (cs.map fun c => memo.getD c false)
  | [], _ => rfl
  | c :: cs, h => by
    rw [List.mapM_cons, flagIn_of_mem (h c List.mem_cons_self),
      mapM_flagIn fun d hd => h d (List.mem_cons_of_mem _ hd)]
    rfl

/-! ## The stack -/

variable {f : Forest}

/-- The children of every node that waits to be settled are known, or stand further up. -/
def Ready (f : Forest) : (NodeId → Prop) → List (NodeId × Bool) → Prop
  | _, [] => True
  | known, (n, settled) :: rest =>
    (settled = true → ∀ c ∈ (f.node n).children, known c) ∧
      Ready f (fun c => known c ∨ c = n) rest

theorem Ready.mono : ∀ {stack : List (NodeId × Bool)} {known known' : NodeId → Prop},
    (∀ c, known c → known' c) → f.Ready known stack → f.Ready known' stack
  | [], _, _, _, _ => trivial
  | (_, _) :: _, _, _, hk, h =>
    ⟨fun hs c hc => hk c (h.1 hs c hc), h.2.mono fun c => Or.imp_left (hk c)⟩

theorem Ready.push : ∀ {cs : List NodeId} {known : NodeId → Prop} {stack : List (NodeId × Bool)},
    f.Ready (fun c => known c ∨ c ∈ cs) stack → f.Ready known (cs.map (·, false) ++ stack)
  | [], _, _, h => h.mono fun c hc => by simpa using hc
  | c :: cs, known, stack, h => by
    refine ⟨by simp, Ready.push (h.mono fun d hd => ?_)⟩
    simpa [or_assoc] using hd

theorem checkedMapFrom_eq : ∀ (fuel : Nat) {stack : List (NodeId × Bool)}
    {memo : Std.HashMap NodeId Bool}, f.Ready (· ∈ memo) stack →
    f.checkedMapFrom fuel stack memo = .ok (f.pristineMapFrom fuel stack memo)
  | 0, [], _, _ => rfl
  | _ + 1, [], _, _ => rfl
  | 0, _ :: _, _, _ => rfl
  | fuel + 1, (n, settled) :: rest, memo, ⟨hc, hrest⟩ => by
    rw [checkedMapFrom, pristineMapFrom]
    split_ifs with hn hs
    · refine checkedMapFrom_eq fuel (hrest.mono fun c hc => ?_)
      rcases hc with hc | rfl
      · exact hc
      · exact Std.HashMap.mem_iff_contains.2 hn
    · rw [mapM_flagIn (hc hs), ok_bind, List.all_map]
      refine checkedMapFrom_eq fuel (hrest.mono fun c hc => ?_)
      rw [Std.HashMap.mem_insert, beq_iff_eq]
      exact hc.symm.imp_left Eq.symm
    · -- the children without an entry go above the node, so all have one when it is met again
      refine checkedMapFrom_eq fuel (Ready.push ⟨fun _ c hc => ?_, hrest.mono fun c hc => ?_⟩)
      · by_cases hm : c ∈ memo
        · exact Or.inl hm
        · exact Or.inr (by simp [hc, hm])
      · exact hc.imp_left Or.inl

end Forest

namespace Printer

/-- The pieces of a node whose flag is looked up. -/
def checkedExpand (p : Printer) (f : Forest) (memo : Std.HashMap NodeId Bool) (n : NodeId) :
    Except Fault (List Piece) := do
  let flag ← Forest.flagIn memo n
  p.expand f (fun _ => flag) n

/-- As `print` over a base text, with a fault wherever a flag is looked up and not there. -/
def checkedPrint (p : Printer) (f : Forest) (n : NodeId) : Except Fault String := do
  let memo ← f.checkedMapFrom f.budget [(n, false)] ∅
  emit (p.checkedExpand f memo) f.budget [.node n] ""

theorem checkedPrint_eq (p : Printer) {f : Forest} {n : NodeId} (h : f.Acyclic n)
    (base : Source) : p.checkedPrint f n = p.print f n (some base) := by
  have hd : Descends f (p.checkedExpand f (f.pristineMap n)) := by
    intro m pieces hp
    obtain ⟨flag, -, hp⟩ := bind_eq_ok.1 hp
    exact p.descends_expand _ m pieces hp
  have hprint : p.print f n (some base) = renderTo
      (p.expand f fun m => (f.pristineMap n).getD m false) (f.size + 1) n :=
    emit_budget (p.descends_expand _) h
  have hchecked : p.checkedPrint f n = renderTo
      (p.checkedExpand f (f.pristineMap n)) (f.size + 1) n := by
    have hready : f.Ready (· ∈ (∅ : Std.HashMap NodeId Bool)) [(n, false)] := ⟨by simp, trivial⟩
    unfold checkedPrint
    rw [Forest.checkedMapFrom_eq _ hready, ok_bind]
    exact emit_budget hd h
  rw [hprint, hchecked]
  refine renderTo_congr hd _ fun m hm => ?_
  rw [checkedExpand, Forest.flagIn_of_mem ((Forest.mem_pristineMap h).2 hm)]
  rfl

end Printer

end Retouch
