import RubyTree.Json.Basic

/-! What a caller can choose about a conversion. -/

namespace RubyTree

structure Options where
  /-- Plain string literals are frozen. -/
  frozenStringLiteral : Bool := false
  /-- An integer bound of a flip-flop, which the legacy parser compares with the current line
  number, is turned back into the integer. -/
  unwrapIntegerFlipFlop : Bool := true
deriving DecidableEq

namespace Options

def labels : List String := ["frozen_string_literal", "unwrap_integer_flip_flop"]

/-- A choice that is left out keeps its default. -/
def choice? (default : Bool) : Option Json → Option Bool
  | none => some default
  | some value => value.bool?

def ofJson? (value : Json) : Option Options := do
  match ← value.recordFields? labels with
  | [frozen, unwrap] => some ⟨← choice? false frozen, ← choice? true unwrap⟩
  | _ => none

def toJson (o : Options) : Json :=
  .object [("frozen_string_literal", .bool o.frozenStringLiteral),
    ("unwrap_integer_flip_flop", .bool o.unwrapIntegerFlipFlop)]

end Options

end RubyTree
