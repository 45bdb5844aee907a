import Retouch.FileTree
import Retouch.Logging.Line

/-!
# Routings

A routing says what is written of events, and where: it has a level of its own and outputs, each
with a format, a destination and possibly a level.
-/

namespace Retouch

/-- How an output writes events. -/
inductive LogFormat where
  | json
  | console
deriving DecidableEq, Repr, Inhabited

/-- Where events go; without a level the one of the routing holds. -/
structure LogOutput where
  format : LogFormat
  destination : String
  level : Option Level
deriving DecidableEq, Repr, Inhabited

/-- What is written, and where. -/
structure Routing where
  level : Level
  outputs : List LogOutput
deriving DecidableEq, Repr, Inhabited

namespace Destination

/-- The two streams; every other destination is a file. -/
def isStream (destination : String) : Bool :=
  destination == "stderr" || destination == "stdout"

/-- Where lines for a destination end up: a stream, or a file whichever way its path is written. -/
def target (destination : String) : String :=
  if isStream destination then destination
  else FileTree.pathOf (FilePath.ofString destination).settled.parts

end Destination

/-- An event in a format, or why it cannot be written in it. -/
def LogFormat.line (format : LogFormat) (e : Event) (stamp : String) : Except Fault String :=
  match format with
  | .json => e.jsonLine stamp
  | .console => e.consoleLine stamp

end Retouch
