import RubyTree.Conversion.Statements
import RubyTree.Conversion.Variables

/-! Exceptions. A legacy tree nests an `ENSURE` around a `RESCUE` around the protected body; the
nest is flattened here into one `begin`. -/

namespace RubyTree

open Canonical (Tree)
open Legacy (Node)

structure BeginParts where
  statements : Option Tree
  rescueClause : Option Tree := none
  elseClause : Option Tree := none
  ensureClause : Option Tree := none

namespace BeginParts

def tree (parts : BeginParts) (location : Span) : Tree :=
  .begin parts.statements parts.rescueClause parts.elseClause parts.ensureClause location

end BeginParts

namespace Context

/-- Whether a statement stores the current exception in a variable. -/
def bindsException (statement : Node) : Bool :=
  statement.kind.isSimpleAssignment &&
    match statement.child 1 with
    | .node value => value.kind == .ERRINFO
    | _ => false

/-- The reference and the statements of a clause. `rescue E => e` puts an assignment to `e` in front
of the body, which becomes the reference. -/
def rescueBody (c : Context) : Option Node → Result (Option Tree × Option Tree)
  | none => pure (none, none)
  | some body => do
    match ← body.sequence with
    | first :: rest =>
      if bindsException first then do
        let reference ← c.assignmentTarget first
        if rest.isEmpty then pure (some reference, none)
        else do
          let retained ← rest.mapM c.node
          let location ← c.span body
          pure (some reference, some (.statements retained location))
      else do
        let statements ← c.statements (some body)
        pure (none, statements)
    | [] => do
      let statements ← c.statements (some body)
      pure (none, statements)

/-- The first of a chain of clauses no higher than the bound, holding the next ones. -/
def rescueClauseWithin (c : Context) : Nat → Option Node → Result (Option Tree)
  | _, none => pure none
  | 0, some n => throw (n.unexpected .shallowerTree)
  | bound + 1, some n => do
    let n ← n.expectKind [.RESBODY]
    match ← n.shape with
    | .rescueClause exceptions body next => do
      let exceptions ← c.elements? exceptions
      let (reference, statements) ← c.rescueBody body
      let consequent ← c.rescueClauseWithin bound next
      let location ← c.span n
      pure (some (.rescue exceptions reference statements consequent location))
    | _ => throw (n.unexpected (.kinds [.RESBODY]))

def rescueClause? (c : Context) : Option Node → Result (Option Tree)
  | none => pure none
  | some n => c.rescueClauseWithin n.height (some n)

def rescueParts (c : Context) (n : Node) : Result BeginParts := do
  match ← n.shape with
  | .rescue body clause otherwise => do
    let statements ← c.statements body
    let rescueClause ← c.rescueClause? clause
    let elseClause ← c.elseClause? otherwise
    pure { statements, rescueClause, elseClause }
  | _ => throw (n.unexpected (.kinds [.RESCUE]))

def ensuredParts (c : Context) : Option Node → Result BeginParts
  | none => pure { statements := none }
  | some body =>
    if body.kind = .RESCUE then c.rescueParts body
    else do pure { statements := ← c.statements (some body) }

def ensureClause (c : Context) (ensured : Option Node) : Result Tree := do
  let location ← c.spanOf? ensured
  let statements ← c.statements ensured
  pure (.ensureClause statements location)

def beginParts (c : Context) (n : Node) : Result BeginParts := do
  match ← n.shape with
  | .ensure body ensured => do
    let parts ← c.ensuredParts body
    let ensureClause ← c.ensureClause ensured
    pure { parts with ensureClause := some ensureClause }
  | .rescue .. => c.rescueParts n
  | _ => throw (n.unexpected (.kinds [.RESCUE, .ENSURE]))

/-- Whether a node protects its body. -/
def handlesExceptions (n : Node) : Bool := n.kind == .RESCUE || n.kind == .ENSURE

def beginBody (c : Context) (body : Option Node) : Result BeginParts := do
  match body with
  | none => pure { statements := none }
  | some inner =>
    if handlesExceptions inner then c.beginParts inner
    else do pure { statements := ← c.statements (some inner) }

/-- The body of a method, block, class or module. A protected body is a `begin` by itself. -/
def scopeBody (c : Context) : Option Node → Result (Option Tree)
  | none => pure none
  | some body =>
    if handlesExceptions body then do
      let parts ← c.beginParts body
      let location ← c.span body
      pure (some (parts.tree location))
    else c.statements (some body)

end Context

end RubyTree
