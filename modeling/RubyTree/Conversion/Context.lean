import RubyTree.Canonical.Forms
import RubyTree.Legacy.Shape
import RubyTree.Location
import RubyTree.Options
import RubyTree.Scope

/-! What the conversion of a node can see: the lines of the source, the options, the local tables
around the node and the conversion of the nodes below it. -/

namespace RubyTree

open Canonical (Tree)
open Legacy (Node Table)

structure Context where
  lines : LineTable
  options : Options
  scope : Scope
  /-- The conversion of a node below the present one, with the block literal to attach to it. -/
  convert : Scope → Node → Option Tree → Result Tree

namespace Context

def span (c : Context) (n : Node) : Result Span := c.lines.span n

def spanOf? (c : Context) : Option Node → Result Span
  | none => pure .null
  | some n => c.span n

def depth (c : Context) (name : Name) : Nat := c.scope.depth name

def nested (c : Context) (table : Table) : Context := { c with scope := table :: c.scope }

/-- The context inside a method, class or module. -/
def fresh (c : Context) (table : Table) : Context := { c with scope := [table] }

def node (c : Context) (n : Node) : Result Tree := c.convert c.scope n none

def node? (c : Context) : Option Node → Result (Option Tree)
  | none => pure none
  | some n => do pure (some (← c.node n))

def required (c : Context) (parent : Node) (expected : Expectation) : Option Node → Result Tree
  | none => throw (parent.unexpected expected)
  | some n => c.node n

end Context

namespace Legacy.Node

def scopeParts (n : Node) : Result (Table × Option Node × Option Node) := do
  let n ← n.expectKind [.SCOPE]
  match ← n.shape with
  | .scope table args body => pure (table, args, body)
  | _ => throw (n.unexpected (.kinds [.SCOPE]))

/-- The statements of a `BLOCK`; any other node is a statement by itself. -/
def sequence (n : Node) : Result (List Node) := do
  match ← n.shape with
  | .block statements => pure statements
  | _ => pure [n]

end Legacy.Node

end RubyTree
