import Mathlib.Data.Nat.Basic

/-!
# Patches on bytes

A patch gives the bytes for a stretch of the data. `patched` lays patches over the data between two
offsets and keeps every other byte. Patches that are in order may be laid over in parts
(`patched_append`), a patch whose bytes are patched data may be resolved into the patches there
(`patched_resolve`), and patches with the data's own bytes change nothing (`patched_own`).
-/

namespace Retouch

/-- New bytes in the place of those from `start` up to `stop`. -/
structure Patch where
  start : Nat
  stop : Nat
  bytes : ByteArray

variable (data : ByteArray)

/-- The data from `a` up to `b` with patches laid over it. -/
def patched : Nat → Nat → List Patch → ByteArray
  | a, b, [] => data.extract a b
  | a, b, e :: es => data.extract a e.start ++ e.bytes ++ patched e.stop b es

/-- The patches follow each other between `a` and `b`. -/
def InOrder : Nat → Nat → List Patch → Prop
  | a, b, [] => a ≤ b
  | a, b, e :: es => a ≤ e.start ∧ e.start ≤ e.stop ∧ InOrder e.stop b es

variable {data}

theorem InOrder.le : ∀ {es : List Patch} {a b : Nat}, InOrder a b es → a ≤ b
  | [], _, _, h => h
  | _ :: _, _, _, ⟨h1, h2, h3⟩ => Nat.le_trans (Nat.le_trans h1 h2) h3.le

theorem InOrder.append : ∀ {es es' : List Patch} {a b c : Nat}, InOrder a b es →
    InOrder b c es' → InOrder a c (es ++ es')
  | [], [], _, _, _, h, h' => Nat.le_trans h h'
  | [], _ :: _, _, _, _, h, ⟨h1, h2⟩ => ⟨Nat.le_trans h h1, h2⟩
  | _ :: _, _, _, _, _, ⟨h1, h2, h3⟩, h' => ⟨h1, h2, h3.append h'⟩

theorem InOrder.mono_left {es : List Patch} {a a' b : Nat} (ha : a' ≤ a) (h : InOrder a b es) :
    InOrder a' b es :=
  InOrder.append (show InOrder a' a [] from ha) h

/-- What lies before the patches is kept. -/
theorem extract_append_patched {a i : Nat} (ha : a ≤ i) : ∀ {es : List Patch} {b : Nat},
    InOrder i b es → data.extract a i ++ patched data i b es = patched data a b es
  | [], b, h => (ByteArray.extract_eq_extract_append_extract i ha h).symm
  | e :: es, b, ⟨h1, _, _⟩ => by
    simp only [patched]
    rw [ByteArray.extract_eq_extract_append_extract i ha h1]
    simp only [ByteArray.append_assoc]

theorem patched_append : ∀ {es es' : List Patch} {a j b : Nat}, InOrder a j es →
    InOrder j b es' → patched data a b (es ++ es') = patched data a j es ++ patched data j b es'
  | [], _, _, _, _, h, h' => (extract_append_patched h h').symm
  | e :: es, es', a, j, b, ⟨_, _, h3⟩, h' => by
    simp only [patched, List.cons_append, patched_append h3 h', ByteArray.append_assoc]

/-- A patch with patched bytes stands for the patches in it. -/
theorem patched_resolve {es rest : List Patch} {a i j b : Nat} (ha : a ≤ i)
    (hes : InOrder i j es) (hrest : InOrder j b rest) :
    patched data a b (⟨i, j, patched data i j es⟩ :: rest) = patched data a b (es ++ rest) := by
  rw [patched_append (hes.mono_left ha) hrest, ← extract_append_patched ha hes]
  rfl

/-- Patches with the data's own bytes change nothing. -/
theorem patched_own : ∀ {es : List Patch} {a b : Nat}, InOrder a b es →
    (∀ e ∈ es, e.bytes = data.extract e.start e.stop) → patched data a b es = data.extract a b
  | [], _, _, _, _ => rfl
  | e :: es, a, b, ⟨h1, h2, h3⟩, hown => by
    obtain ⟨he, hown⟩ := List.forall_mem_cons.1 hown
    rw [patched, patched_own h3 hown, he, ← ByteArray.extract_eq_extract_append_extract _ h1 h2,
      ← ByteArray.extract_eq_extract_append_extract _ (Nat.le_trans h1 h2) h3.le]

/-- One patch over all of the data leaves its bytes. -/
theorem patched_whole (a b : Nat) (bytes : ByteArray) :
    patched data a b [⟨a, b, bytes⟩] = bytes := by
  simp [patched]

end Retouch
