import Retouch.Slot
import Retouch.Text.Quoted

/-!
# Sources

The text of one parse together with its bytes, shared by the nodes of that parse. Spans count
bytes. A slice reads the bytes between two offsets back as text, and fails where it cuts a
character in two.
-/

namespace Retouch

/-- A text and the bytes that spans refer to. The stamp tells apart sources with equal contents. -/
structure Source where
  stamp : Nat
  text : String
  data : ByteArray
deriving Inhabited

namespace Source

/-- The source of a text, with the text's own bytes. -/
def ofText (stamp : Nat) (text : String) : Source :=
  ⟨stamp, text, text.toUTF8⟩

/-- The source of a text with given bytes; without bytes the text's own are taken. -/
def withData (stamp : Nat) (text : String) (data : ByteArray) : Source :=
  if data.isEmpty then ofText stamp text else ⟨stamp, text, data⟩

/-- The number of bytes. -/
def size (s : Source) : Nat :=
  s.data.size

/-- The bytes from `start` up to `stop`, offsets from the end being negative. -/
def bytes (s : Source) (start stop : Int) : ByteArray :=
  s.data.extract (Slot.bound s.size start) (Slot.bound s.size stop)

/-- The text between two offsets. -/
def slice? (s : Source) (start stop : Int) : Option String :=
  String.fromUTF8? (s.bytes start stop)

/-- A source in words. -/
def describe (s : Source) : String :=
  "SourceText(text=" ++ Text.quoted s.text ++ ")"

end Source

end Retouch
