import RubyTree.Legacy.Node
import RubyTree.LineTable

/-! The span of the source that a legacy node covers. -/

namespace RubyTree

open Legacy (Node)

namespace LineTable

/-- The span between two points of the source, if they lie in it and in this order. -/
def span? (table : LineTable) (p : Position) : Option Span := do
  let start ← table.resolve? p.firstLine p.firstColumn
  let stop ← table.resolve? p.lastLine p.lastColumn
  if start ≤ stop ∧ stop ≤ table.length then some (.ofBounds start stop) else none

/-- The span of a node. Bounds that meet tell nothing, and their span is null. -/
def span (table : LineTable) (n : Node) : Result Span :=
  if n.position.isDegenerate then pure .null
  else match table.span? n.position with
    | some span => pure span
    | none => throw (n.unexpected .positionInSource)

end LineTable

end RubyTree
