import RubyTree.Conversion.Context

/-! Bodies: what stands where statements may stand. -/

namespace RubyTree

open Canonical (Tree)
open Legacy (Node)

namespace Context

/-- A body is absent, an empty `BEGIN`, a `BLOCK` of statements or one statement. -/
def statements (c : Context) : Option Node → Result (Option Tree)
  | none => pure none
  | some body => do
    match ← body.shape with
    | .begin none => pure none
    | .block _ => do pure (some (← c.node body))
    | _ => do
      let statement ← c.node body
      let location ← c.span body
      pure (some (.statements [statement] location))

def elseClause (c : Context) (body : Node) : Result Tree := do
  let statements ← c.statements (some body)
  let location ← c.span body
  pure (.elseClause statements location)

def elseClause? (c : Context) : Option Node → Result (Option Tree)
  | none => pure none
  | some body => do pure (some (← c.elseClause body))

end Context

end RubyTree
