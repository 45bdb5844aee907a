import Retouch.Logging.Routing
import Retouch.Outcome
import Retouch.Text.Lines

/-!
# The journal

Events pass through loggers. The program's own logger drops what is below its level and hands the
rest to the root logger, which also takes plain events. The root logger drops what is below its
level and hands the rest to its handlers, and each of them writes what reaches its level. A routing
is put in force by setting the levels of both loggers, taking away the handlers there are and adding
one for each output. Outputs are opened one after the other, and if one cannot be opened, the
handlers of those before it stay. Lines that were written are never taken back.
-/

namespace Retouch

/-- What writes events to one place, in one format and from one level on. Handlers that agree in all
this are still told apart, by number. -/
structure Handler where
  number : Nat
  format : LogFormat
  target : String
  level : Level
deriving DecidableEq, Repr, Inhabited

/-- What is written of a line, and where: a line that cannot be written is told of on the error
stream. -/
def Handler.emitted (target : String) : Except Fault String → String × String
  | .ok line => (target, line)
  | .error f => ("stderr", Event.mishap f)

/-- What a handler writes of an event, and where. -/
def Handler.entry (h : Handler) (e : Event) (stamp : String) : String × String :=
  emitted h.target (h.format.line e stamp)

/-- The logger in which all events meet. -/
structure RootLogger where
  level : Level
  handlers : List Handler
deriving DecidableEq, Repr, Inhabited

namespace RootLogger

/-- Adds a handler that is not there yet. -/
def add (r : RootLogger) (h : Handler) : RootLogger :=
  if r.handlers.contains h then r else { r with handlers := r.handlers ++ [h] }

/-- Takes a handler away if it is there. -/
def remove (r : RootLogger) (h : Handler) : RootLogger :=
  if r.handlers.contains h then { r with handlers := r.handlers.erase h } else r

/-- Takes the handlers away that are there at the start, one after the other. -/
def clear (r : RootLogger) : RootLogger :=
  r.handlers.foldl remove r

/-- What is written of an event, and where. Without any handler, weighty events are still shown on
the error stream. -/
def entries (r : RootLogger) (e : Event) (stamp : String) : List (String × String) :=
  if !e.level.reaches r.level then []
  else if r.handlers.isEmpty then
    if e.level.reaches .warning then [Handler.emitted "stderr" (e.lastResort stamp)] else []
  else
    (r.handlers.filter fun h => e.level.reaches h.level).map fun h => h.entry e stamp

end RootLogger

/-- The loggers, the lines written with their targets, and the files there are. The stamp is the
time put on lines. The program's own logger has no level before a routing was put in force, and
`made` counts the handlers made so far. -/
structure Journal where
  stamp : String
  bound : Option Level
  root : RootLogger
  made : Nat
  written : Array (String × String)
  disk : FileTree
deriving Inhabited

/-- Changing the journal, which may fail. -/
abbrev Journaling := ExceptT Fault (StateM Journal)

namespace Journal

/-- Nothing written and no routing. -/
def start (stamp : String) (disk : FileTree) : Journal :=
  ⟨stamp, none, ⟨.warning, []⟩, 0, #[], disk⟩

/-- Opens the destination of an output. Streams are always open. -/
def openOutput (o : LogOutput) : Journaling Unit := do
  if !Destination.isStream o.destination then
    let j ← get
    let opened := perform (FileTree.openFile (.ofString o.destination)) j.disk
    set { j with disk := opened.2 }
    match opened.1 with
    | .ok _ => return ()
    | .error f => throw f

/-- Adds a handler for an output of a routing. -/
def attach (r : Routing) (o : LogOutput) : Journaling Unit := do
  openOutput o
  modify fun j =>
    let h := ⟨j.made, o.format, Destination.target o.destination, o.level.getD r.level⟩
    { j with root := j.root.add h, made := j.made + 1 }

/-- Puts a routing in force, up to the first output that cannot be opened. -/
def configure (r : Routing) : Journaling Unit := do
  modify fun j => { j with bound := some r.level }
  modify fun j => { j with root := { j.root.clear with level := r.level } }
  r.outputs.forM (attach r)

/-- The files that were opened. -/
def files (j : Journal) : List String :=
  j.disk.files.map FileTree.pathOf

/-- What is written of an event now, and where. Before a routing was put in force, the program's own
weighty events are shown on the output stream. -/
def entriesOf (j : Journal) (e : Event) : List (String × String) :=
  if e.plain then j.root.entries e j.stamp
  else
    match j.bound with
    | some level => if e.level.reaches level then j.root.entries e j.stamp else []
    | none => if e.level.reaches .warning then [("stdout", e.bareLine j.stamp)] else []

/-- Why an event cannot be logged. -/
def refusal? (j : Journal) (e : Event) : Option Fault :=
  let passes := e.level.reaches (j.bound.getD .warning)
  match e.callFault? passes with
  | some f => some f
  | none =>
    if !passes then none
    else if j.bound.isSome then e.routedFault?
    else e.bareFault?

/-- Logs an event. -/
def log (j : Journal) (e : Event) : Journal :=
  { j with written := j.written ++ (j.entriesOf e).toArray }

/-- What was written to one target after the first so many entries of all, line by line. Every entry
ends with a line feed. -/
def since (j : Journal) (seen : Nat) (target : String) : List String :=
  let entries := (j.written.toList.drop seen).filter fun entry => entry.1 == target
  Text.lines (String.join (entries.map fun entry => entry.2 ++ "\n"))

/-- All that was written to one target. -/
def content (j : Journal) (target : String) : List String :=
  j.since 0 target

end Journal

end Retouch
