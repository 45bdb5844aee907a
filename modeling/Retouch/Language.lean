import Retouch.Assoc
import Retouch.SyntaxTree
import Retouch.Text.Lowercase

/-!
# Languages

The table of languages by lower-case name: where the grammar of each is to be found, and whether it
can be loaded here.
-/

namespace Retouch

/-- Where to find a grammar. -/
structure Language where
  name : String
  grammarPackage : String
  grammarModule : String
  entry : String
  available : Bool
deriving DecidableEq, Repr, Inhabited

/-- What a grammar makes of a source. -/
structure Parsed where
  root : SyntaxTree
  hasError : Bool
deriving Inhabited

/-- The languages known, and the trees their grammars give for sources. -/
structure Grammars where
  table : List (String × Language)
  tree : String → String → Option Parsed

namespace Language

/-- The languages known from the start. -/
def builtin : List (String × Language) :=
  [("javascript",
    ⟨"javascript", "tree-sitter-javascript", "tree_sitter_javascript", "language", true⟩),
   ("typescript",
    ⟨"typescript", "tree-sitter-typescript", "tree_sitter_typescript", "language_typescript",
      true⟩),
   ("tsx", ⟨"tsx", "tree-sitter-typescript", "tree_sitter_typescript", "language_tsx", true⟩),
   ("python", ⟨"python", "tree-sitter-python", "tree_sitter_python", "language", true⟩)]

/-- The language of a name in any case. -/
def find? (table : List (String × Language)) (name : String) : Option Language :=
  Assoc.get? table (Text.lower name)

/-- A language in words. -/
def describe (l : Language) : String :=
  "LanguageSpec(name=" ++ Text.quoted l.name ++ ", grammar_package=" ++
    Text.quoted l.grammarPackage ++ ", grammar_module=" ++ Text.quoted l.grammarModule ++
    ", language_func=" ++ Text.quoted l.entry ++ ")"

/-- The names in order. -/
def names (table : List (String × Language)) : List String :=
  (Assoc.keys table).mergeSort fun a b => !decide (b < a)

end Language

end Retouch
