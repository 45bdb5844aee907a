import Retouch.Assoc
import Retouch.Datum

/-!
# Laying one mapping over another

Where both sides hold a mapping under a key the two are merged in turn; anything else in the upper
mapping replaces what the lower one holds. Keys of the lower mapping keep their places and new ones
follow.
-/

namespace Retouch.Datum

mutual

/-- What stands under a key when `upper` is laid over what the lower mapping holds there. -/
def laidOver : Option Datum → Datum → Datum
  | some (.mapping lower), .mapping upper => .mapping (merge lower upper)
  | _, .mapping upper => .mapping upper
  | _, .list items => .list items
  | _, .scalar s => .scalar s

/-- The lower mapping with the upper one laid over it. -/
def merge : List (Scalar × Datum) → List (Scalar × Datum) → List (Scalar × Datum)
  | lower, [] => lower
  | lower, (k, d) :: rest => merge (Assoc.insert lower k (laidOver (Assoc.get? lower k) d)) rest

end

end Retouch.Datum
