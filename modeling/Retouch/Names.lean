/-!
# Names that values answer to

Under which names a value of a type has something.
-/

namespace Retouch.Names

/-- Names of what the language itself asks values for, written without their underscores. -/
def special (names : List String) : List String :=
  names.map fun name => "__" ++ name ++ "__"

/-- The names under which values are compared with others. -/
def comparisons : List String :=
  special ["eq", "ge", "gt", "le", "lt", "ne"]

/-- What every value has. -/
def common : List String :=
  comparisons ++ special ["class", "delattr", "dir", "doc", "format", "getattribute", "getstate",
      "hash", "init", "init_subclass", "new", "reduce", "reduce_ex", "repr", "setattr", "sizeof",
      "str", "subclasshook"]

/-- What values have that were declared by their fields. -/
def declared : List String :=
  special ["annotations", "dataclass_fields", "dataclass_params", "dict", "match_args", "module",
      "weakref"]

/-- What numbers have. -/
def numeric : List String :=
  special ["abs", "add", "and", "bool", "ceil", "divmod", "float", "floor", "floordiv",
      "getnewargs", "index", "int", "invert", "lshift", "mod", "mul", "neg", "or", "pos", "pow",
      "radd", "rand", "rdivmod", "rfloordiv", "rlshift", "rmod", "rmul", "ror", "round", "rpow",
      "rrshift", "rshift", "rsub", "rtruediv", "rxor", "sub", "truediv", "trunc", "xor"] ++
  ["as_integer_ratio", "bit_count", "bit_length", "conjugate", "denominator", "from_bytes", "imag",
      "numerator", "real", "to_bytes"]

/-- What the values of a type have besides. -/
def own : String → List String
  | "Node" => declared ++ special ["post_init"] ++ ["_original_children", "_original_text",
      "branch", "child_by_field", "children", "fields", "is_leaf", "is_modified", "is_parsed",
      "is_pristine", "leaf", "mark_original", "named", "original_children", "source", "span",
      "text", "type", "walk"]
  | "NodePath" => special ["module", "slots"] ++ ["_children", "_reindex", "ancestors",
      "child_paths", "field", "get", "is_root", "name", "node", "parent", "prune", "replace",
      "root", "same_element", "value", "walk"]
  | "SourceText" => declared ++ special ["post_init"] ++ ["data", "slice", "text"]
  | "Collection" => special ["dict", "getattr", "getitem", "iter", "len", "module", "weakref"] ++
    ["_infer_kind", "_kind", "_methods", "_parent", "_paths", "_printer", "at", "derive", "filter",
      "for_each", "get_types", "is_of_type", "kind", "map", "nodes", "parent", "paths", "size",
      "to_source"]
  | "Core" => special ["call", "dict", "module", "weakref"] ++ ["from_config", "methods", "parser",
      "plugins", "printer", "register_methods", "use", "with_parser"]
  | "TreeSitterParser" => declared ++ special ["post_init"] ++ ["_get_language", "_languages",
      "_parser", "language", "parse", "tolerant"]
  | "DiffPrinter" => declared ++ ["_emit", "_emit_full", "_gap", "_joined", "_modified_parts",
      "_pristine_map", "_spaced", "print", "separator"]
  | "MethodRegistry" => special ["dict", "module", "weakref"] ++ ["_conflicts", "_generic",
      "_typed", "lookup", "names", "register", "reset"]
  | "PluginRegistry" => special ["dict", "len", "module", "weakref"] ++ ["_plugins",
      "is_registered", "plugins", "register", "reset"]
  | "MethodSpec" => declared ++ ["handler", "name", "node_type"]
  | "LanguageSpec" => declared ++ ["grammar_module", "grammar_package", "language_func", "name"]
  | "function" => special ["annotations", "builtins", "call", "closure", "code", "defaults", "dict",
      "get", "globals", "kwdefaults", "module", "name", "qualname"]
  | "functools.partial" => special ["call", "class_getitem", "dict", "module", "setstate",
      "vectorcalloffset"] ++ ["args", "func", "keywords"]
  | "method" => special ["call", "dict", "func", "name", "qualname", "self"]
  | "list" => special ["add", "class_getitem", "contains", "delitem", "getitem", "iadd", "imul",
      "iter", "len", "mul", "reversed", "rmul", "setitem"] ++ ["append", "clear", "copy", "count",
      "extend", "index", "insert", "pop", "remove", "reverse", "sort"]
  | "tuple" => special ["add", "class_getitem", "contains", "getitem", "getnewargs", "iter", "len",
      "mul", "rmul"] ++ ["count", "index"]
  | "frozenset" => special ["and", "class_getitem", "contains", "iter", "len", "or", "rand", "ror",
      "rsub", "rxor", "sub", "xor"] ++ ["copy", "difference", "intersection", "isdisjoint",
      "issubset", "issuperset", "symmetric_difference", "union"]
  | "dict" => special ["class_getitem", "contains", "delitem", "getitem", "ior", "iter", "len",
      "or", "reversed", "ror", "setitem"] ++ ["clear", "copy", "fromkeys", "get", "items", "keys",
      "pop", "popitem", "setdefault", "update", "values"]
  | "str" => special ["add", "contains", "getitem", "getnewargs", "iter", "len", "mod", "mul",
      "rmod", "rmul"] ++ ["capitalize", "casefold", "center", "count", "encode", "endswith",
      "expandtabs", "find", "format", "format_map", "index", "isalnum", "isalpha", "isascii",
      "isdecimal", "isdigit", "isidentifier", "islower", "isnumeric", "isprintable", "isspace",
      "istitle", "isupper", "join", "ljust", "lower", "lstrip", "maketrans", "partition",
      "removeprefix", "removesuffix", "replace", "rfind", "rindex", "rjust", "rpartition", "rsplit",
      "rstrip", "split", "splitlines", "startswith", "strip", "swapcase", "title", "translate",
      "upper", "zfill"]
  | "int" | "bool" => numeric
  | "NoneType" => special ["bool"]
  | _ => []

/-- What a type itself brings, in the order in which it is listed. -/
def listed : String → List String
  | "Collection" => special ["module", "doc", "init"] ++ ["_infer_kind", "kind", "parent"] ++
    special ["len"] ++ ["size"] ++ special ["getitem", "iter"] ++ ["paths", "nodes", "derive", "at",
      "filter", "map", "for_each", "get_types", "is_of_type", "to_source"] ++ special ["getattr",
      "repr", "dict", "weakref"]
  | typeName => own typeName

/-- What every type has, in the order in which it is listed. -/
def universal : List String :=
  special ["new", "repr", "hash", "str", "getattribute", "setattr", "delattr", "lt", "le", "eq",
      "ne", "gt", "ge", "init", "reduce_ex", "reduce", "getstate", "subclasshook", "init_subclass",
      "format", "sizeof", "dir", "class", "doc"]

/-- Whether values of a type have something under a name. -/
def has (typeName name : String) : Bool :=
  common.contains name || (own typeName).contains name

end Retouch.Names
