import RubyTree.Canonical.Tree
import RubyTree.Json.Text

/-! A canonical tree as indented text, one field to a line. -/

namespace RubyTree

namespace Canonical

namespace Tree

def indent (depth : Nat) : String := String.join (List.replicate depth "  ")

def namesText (names : List Name) : String :=
  "[" ++ ", ".intercalate (names.map fun n => Json.quote n.text) ++ "]"

mutual

/-- The header of a node and, below it, its fields. -/
def lines (depth : Nat) : Tree → String
  | .mk kind fields location =>
    kind.typeName ++ " " ++ location.text ++ "\n" ++ fieldLines (depth + 1) fields

def fieldLines (depth : Nat) : {fields : List Field} → Fields fields → String
  | _, .nil => ""
  | field :: _, .cons value values =>
    indent depth ++ field.label ++ ":" ++ valueLines depth value ++ fieldLines depth values

def valueLines (depth : Nat) : {sort : FieldSort} → Value sort → String
  | _, .span s => " " ++ s.text ++ "\n"
  | _, .name n => " " ++ Json.quote n.text ++ "\n"
  | _, .optName none => " (none)\n"
  | _, .optName (some n) => " " ++ Json.quote n.text ++ "\n"
  | _, .names ns => " " ++ namesText ns ++ "\n"
  | _, .flags f => " " ++ Nat.repr f.toNat ++ "\n"
  | _, .nat n => " " ++ Nat.repr n ++ "\n"
  | _, .int i => " " ++ Json.intText i ++ "\n"
  | _, .float x => if x.isFinite then " " ++ x.text Json.floatLayout ++ "\n" else " (none)\n"
  | _, .text s => " " ++ Json.quote s ++ "\n"
  | _, .tree t => " " ++ lines depth t
  | _, .optTree none => " (none)\n"
  | _, .optTree (some t) => " " ++ lines depth t
  | _, .trees [] => " []\n"
  | _, .trees (t :: ts) => "\n" ++ itemLines (depth + 1) (t :: ts)

def itemLines (depth : Nat) : List Tree → String
  | [] => ""
  | t :: ts => indent depth ++ "- " ++ lines depth t ++ itemLines depth ts

end

def render (t : Tree) : String := lines 0 t

end Tree

end Canonical

end RubyTree
