import RubyTree.Conversion.Statements
import RubyTree.Conversion.Variables

/-! Conditionals, loops and jumps. -/

namespace RubyTree

open Canonical (Tree Flags)
open Legacy (Node)

namespace Context

/-- What an `if` goes on with: an `elsif`, or an `else`. -/
def consequent (c : Context) : Option Node → Result (Option Tree)
  | none => pure none
  | some otherwise =>
    if otherwise.kind = .IF then do pure (some (← c.node otherwise))
    else do pure (some (← c.elseClause otherwise))

def conditional (c : Context) (n condition : Node) (body otherwise : Option Node)
    (location : Span) : Result Tree := do
  let predicate ← c.node condition
  let statements ← c.statements body
  if n.kind = .IF then do
    let consequent ← c.consequent otherwise
    pure (.ifElse predicate statements consequent location)
  else do
    let consequent ← c.elseClause? otherwise
    pure (.unlessElse predicate statements consequent location)

/-- The `when` clauses of a chain no higher than the bound, and the `else` that ends it. -/
def clausesWithin (c : Context) : Nat → Option Node → Result (List Tree × Option Tree)
  | _, none => pure ([], none)
  | 0, some n => throw (n.unexpected .shallowerTree)
  | bound + 1, some n =>
    if n.kind = .WHEN then do
      match ← n.shape with
      | .when conditions body next => do
        let conditions ← c.elements? conditions
        let statements ← c.statements body
        let location ← c.span n
        let (clauses, otherwise) ← c.clausesWithin bound next
        pure (.whenClause conditions statements location :: clauses, otherwise)
      | _ => throw (n.unexpected (.kinds [.WHEN]))
    else do
      let statements ← c.statements (some n)
      pure ([], some (.elseClause statements .null))

def clauses (c : Context) : Option Node → Result (List Tree × Option Tree)
  | none => pure ([], none)
  | some n => c.clausesWithin n.height (some n)

/-- A `case`. The clauses are converted before the subject. -/
def caseWhen (c : Context) (subject clauses : Option Node) (location : Span) : Result Tree := do
  let (conditions, consequent) ← c.clauses clauses
  let predicate ← c.node? subject
  pure (.caseWhen predicate conditions consequent location)

def loop (c : Context) (n condition : Node) (body : Option Node) (postCondition : Bool)
    (location : Span) : Result Tree := do
  let predicate ← c.node condition
  let statements ← c.statements body
  let flags := if postCondition then Flags.beginModifier else Flags.empty
  if n.kind = .WHILE then pure (.whileLoop flags predicate statements location)
  else pure (.untilLoop flags predicate statements location)

/-- The variables of a `for`: a destructuring, or a single target. -/
def forIndex (c : Context) (args : Node) (d : Legacy.Descriptor) : Result Tree :=
  match d.preInit with
  | none => throw (args.unexpected .forIndex)
  | some init =>
    if init.kind = .MASGN then do
      let group ← TargetGroup.ofNode .assignment init
      c.targetGroup .assignment group
    else if d.preCount = 1 then c.assignmentTarget init
    else throw (args.unexpected .forIndex)

/-- A `for`. Its variables live in the scope around it. -/
def forLoop (c : Context) (collection scope : Node) (location : Span) : Result Tree := do
  let (_, args, body) ← scope.scopeParts
  match args with
  | none => throw (scope.unexpected .forIndex)
  | some args => do
    let args ← args.expectKind [.ARGS]
    let index ← c.forIndex args (← args.descriptor)
    let collection ← c.node collection
    let statements ← c.statements body
    pure (.forLoop index collection statements location)

/-- A jump that hands nothing over is all keyword. -/
def jump (c : Context) (n : Node) (value : Option Node) (location : Span) : Result Tree := do
  let arguments ← c.jumpArguments? value
  let keyword := if arguments.isNone then location else .null
  match n.kind with
  | .BREAK => pure (.breakJump arguments keyword location)
  | .NEXT => pure (.nextJump arguments keyword location)
  | _ => pure (.returnJump arguments keyword location)

/-- The integer of `integer == $.`, which the legacy parser puts for an integer bound. -/
def lineNumberBound? (operand : Node) : Result (Option Node) :=
  if operand.kind = .CALL ∨ operand.kind = .OPCALL then do
    match ← operand.shape with
    | .call (some receiver) name (some args) =>
      if receiver.kind = .INTEGER ∧ name.text = "==" ∧ args.kind = .LIST then
        match args.children with
        | [.node arg] =>
          if arg.kind = .GVAR then do
            let global ← arg.name 0
            pure (if global.text = "$." then some receiver else none)
          else pure none
        | _ => pure none
      else pure none
    | _ => pure none
  else pure none

def flipFlopOperand (c : Context) (operand : Node) : Result Tree :=
  if c.options.unwrapIntegerFlipFlop then do
    match ← lineNumberBound? operand with
    | some integer => c.node integer
    | none => c.node operand
  else c.node operand

def flipFlopOperand? (c : Context) : Option Node → Result (Option Tree)
  | none => pure none
  | some operand => do pure (some (← c.flipFlopOperand operand))

def rangeFlags (excludeEnd : Bool) : Flags := if excludeEnd then Flags.excludeEnd else Flags.empty

def pair (c : Context) (n : Node) (left right : Option Node) (location : Span) : Result Tree :=
  match n.kind with
  | .AND => do
    let left ← c.required n .leftOperand left
    let right ← c.required n .rightOperand right
    pure (.logicalAnd left right location)
  | .OR => do
    let left ← c.required n .leftOperand left
    let right ← c.required n .rightOperand right
    pure (.logicalOr left right location)
  | .DOT2 | .DOT3 => do
    let left ← c.node? left
    let right ← c.node? right
    pure (.range (rangeFlags (n.kind = .DOT3)) left right location)
  | .FLIP2 | .FLIP3 => do
    let left ← c.flipFlopOperand? left
    let right ← c.flipFlopOperand? right
    pure (.flipFlop (rangeFlags (n.kind = .FLIP3)) left right location)
  | .ARGSCAT | .ARGSPUSH => c.array n location
  | _ => throw (n.unexpected .expression)

end Context

end RubyTree
