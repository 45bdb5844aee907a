import Retouch.Script.Session

/-!
# Values as sequences

Which values have a length, items and stretches, and what is wrong with the others.
-/

namespace Retouch.Script

variable {η : Type}

/-- The characters of a text as values. -/
def characters (s : String) : List Value :=
  s.toList.map fun c => .text (String.singleton c)

/-- The text of characters. -/
def ofCharacters (items : List Value) : String :=
  String.join (items.map fun
    | .scalar (.text s) _ => s
    | _ => "")

/-- The number of items. -/
def length (v : Value) : Script η Nat := do
  match v with
  | .sequence .generator _ _ => misuse (.noLength v.typeName)
  | .sequence _ _ items => return items.length
  | .mapping _ entries => return entries.length
  | .scalar (.text s) _ => return s.length
  | .collection c => return (← held c).value.paths.length
  | .plugins r => return (← work (Work.plugins r)).length
  | v => misuse (.noLength v.typeName)

/-- The items in order; those of a mapping are its keys. -/
def iterate (v : Value) : Script η (List Value) := do
  match v with
  | .sequence _ _ items => return items
  | .mapping _ entries => return entries.map fun entry => .scalar entry.1 0
  | .scalar (.text s) _ => return characters s
  | .collection c => return (← held c).value.paths.map Value.path
  | v => misuse (.notIterable v.typeName)

/-- The item at a slot, and the fault of having none there. -/
def atSlot (items : List Value) (slot : Int) (fault : Fault) : Script η Value :=
  match Slot.get? items slot with
  | some v => return v
  | none => throw (.outside slot fault)

/-- What a value has at a slot. -/
def itemAt (v : Value) (slot : Int) : Script η Value := do
  match v with
  | .sequence .list _ items => atSlot items slot .slotOutOfRange
  | .sequence .tuple _ items => atSlot items slot .elementOutOfRange
  | .scalar (.text s) _ => atSlot (characters s) slot .characterOutOfRange
  | .collection c => return .path (← ofExcept ((← held c).value.pathAt slot))
  | .mapping _ entries =>
    match Assoc.get? entries (.int slot) with
    | some v => return v
    | none => throw (.noKey (.int slot))
  | v => misuse (.notSubscriptable v.typeName)

/-- A stretch of a value, with a step. -/
def stretch (v : Value) (start stop step : Option Int) : Script η Value := do
  let select (items : List Value) : Script η (List Value) :=
    if step = some 0 then throw .zeroStep
    else return Slot.select items start stop (step.getD 1)
  match v with
  | .sequence .list _ items => return .list (← select items)
  | .sequence .tuple _ items => return .tuple (← select items)
  | .scalar (.text s) _ => return .text (ofCharacters (← select (characters s)))
  | .collection c =>
    keep c (← ofExcept ((← held c).value.slice (← document) start stop step))
  | .mapping _ _ => misuse (.unhashable "slice")
  | v => misuse (.notSubscriptable v.typeName)

end Retouch.Script
