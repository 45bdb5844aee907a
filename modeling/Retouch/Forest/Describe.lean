import Retouch.Forest
import Retouch.Text.Quoted

/-!
# Nodes in words

A node with all its parts on one line. A node that contains itself is cut short with points. What
stands in the place of a node without being one may be worded otherwise.
-/

namespace Retouch.Forest

/-- A text in quotes, or the word for nothing. -/
def describeText : Option String → String
  | some s => Text.quoted s
  | none => "None"

/-- A span in words. -/
def describeSpan : Option (Int × Int) → String
  | some (start, stop) => "(" ++ toString start ++ ", " ++ toString stop ++ ")"
  | none => "None"

/-- Texts in brackets. -/
def describeList (texts : List String) : String :=
  "[" ++ String.intercalate ", " texts ++ "]"

/-- A node below the nodes `above`, unless it has a wording of its own. -/
def describeBelow (f : Forest) (wording : NodeId → Option String) :
    Nat → List NodeId → NodeId → String
  | 0, _, _ => "..."
  | fuel + 1, above, n =>
    if let some text := wording n then text
    else if above.contains n then "..."
    else
      let node := f.node n
      "Node(type=" ++ Text.quoted node.kind ++ ", text=" ++ describeText node.text ++
        ", children=" ++
        describeList (node.children.map (describeBelow f wording fuel (n :: above))) ++
        ", fields=" ++ describeList (node.fields.map describeText) ++
        ", named=" ++ (if node.named then "True" else "False") ++
        ", span=" ++ describeSpan node.span ++ ")"

/-- A node in words, some of those below it in words of their own. -/
def describeWith (f : Forest) (wording : NodeId → Option String) (n : NodeId) : String :=
  f.describeBelow wording (f.size + 2) [] n

/-- A node in words. -/
def describe (f : Forest) (n : NodeId) : String :=
  f.describeWith (fun _ => none) n

end Retouch.Forest
