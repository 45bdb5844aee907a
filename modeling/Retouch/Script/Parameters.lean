import Retouch.Script.Value

/-!
# Parameters

How what values have under a name is called.
-/

namespace Retouch

namespace Names

/-- The parameters of what a type offers to be called: those that have to be given, those that may
be left out, and those that are given by name only. -/
def parameters? : String → String →
    Option (List String × List (String × Value) × List (String × Option Value))
  | "Node", "branch" => some (["cls", "type", "children"], [("fields", .null)], [])
  | "Node", "leaf" => some (["cls", "type", "text"], [], [("named", some (.bool true))])
  | "Node", "child_by_field" => some (["self", "name"], [], [])
  | "Node", "is_modified" | "Node", "is_pristine" | "Node", "mark_original" | "Node", "walk" =>
    some (["self"], [], [])
  | "NodePath", "get" => some (["self", "index"], [], [])
  | "NodePath", "same_element" => some (["self", "other"], [], [])
  | "NodePath", "ancestors" | "NodePath", "child_paths" | "NodePath", "prune"
  | "NodePath", "replace" | "NodePath", "root" | "NodePath", "walk" | "NodePath", "__repr__" =>
    some (["self"], [], [])
  | "SourceText", "slice" => some (["self", "start", "end"], [], [])
  | "Collection", "at" | "Collection", "__getitem__" => some (["self", "index"], [], [])
  | "Collection", "derive" => some (["self", "paths"], [("kind", .null)], [])
  | "Collection", "filter" => some (["self", "predicate"], [], [])
  | "Collection", "map" => some (["self", "fn"], [("kind", .null)], [])
  | "Collection", "for_each" => some (["self", "fn"], [], [])
  | "Collection", "is_of_type" => some (["self", "node_type"], [], [])
  | "Collection", "_infer_kind" => some (["self", "kind"], [], [])
  | "Collection", "__getattr__" => some (["self", "name"], [], [])
  | "Collection", "__init__" | "Collection", "__class__" =>
    some (["self", "paths"], [],
      [("methods", none), ("printer", none), ("parent", some .null), ("kind", some .null)])
  | "Collection", "get_types" | "Collection", "nodes" | "Collection", "paths"
  | "Collection", "size" | "Collection", "to_source" | "Collection", "__iter__"
  | "Collection", "__len__" | "Collection", "__repr__" => some (["self"], [], [])
  | "Core", "use" => some (["self", "plugin"], [], [])
  | "Core", "register_methods" => some (["self", "methods"], [("node_type", .null)], [])
  | "Core", "with_parser" => some (["self", "parser"], [], [])
  | "Core", "__call__" => some (["self", "source"], [], [])
  | "Core", "__repr__" => some (["self"], [], [])
  | "TreeSitterParser", "parse" => some (["self", "source"], [], [])
  | "DiffPrinter", "print" => some (["self", "node"], [("original", .null)], [])
  | "MethodRegistry", "register" => some (["self", "methods"], [("node_type", .null)], [])
  | "MethodRegistry", "lookup" => some (["self", "name", "kind"], [], [])
  | "MethodRegistry", "names" => some (["self", "kind"], [], [])
  | "MethodRegistry", "reset" => some (["self"], [], [])
  | "PluginRegistry", "register" => some (["self", "plugin", "entry"], [], [])
  | "PluginRegistry", "is_registered" => some (["self", "plugin"], [], [])
  | "PluginRegistry", "plugins" | "PluginRegistry", "reset" | "PluginRegistry", "__len__" =>
    some (["self"], [], [])
  | _, _ => none

/-- How what a type offers under a name is called. Making a collection is called as the making. -/
def signature? (typeName name : String) : Option (Signature Value) :=
  (parameters? typeName name).map fun (required, optional, named) =>
    { callee := typeName ++ "." ++ (if name = "__class__" then "__init__" else name)
      required, optional, named
      rest := name == "replace" }

end Names

end Retouch
