import RubyTree.Arguments
import RubyTree.Conversion.Context

/-! Arguments of calls, and the lists that are written like them. -/

namespace RubyTree

open Canonical (Tree Flags)
open Legacy (Node)

namespace Context

/-- One argument of the list `args`, which passes no block. -/
def argument (c : Context) (args : Node) : Argument → Result Tree
  | .positional n => c.node n
  | .splat value wrapper => do
    let expression ← c.node value
    let location ← c.spanOf? wrapper
    pure (.splat (some expression) location)
  | .block .. => throw (args.unexpected .argumentsWithoutBlock)

/-- The elements of a list that passes no block, such as the conditions of a `when`. -/
def elements (c : Context) (list : Node) : Result (List Tree) := do
  (← Argument.ofNode list).mapM (c.argument list)

def elements? (c : Context) : Option Node → Result (List Tree)
  | none => pure []
  | some list => c.elements list

/-- One splat sets one flag, several set two. -/
def splatFlags (arguments : List Argument) : Flags :=
  match Argument.splatCount arguments with
  | 0 => Flags.empty
  | 1 => Flags.containsSplat
  | _ => Flags.containsSplat ||| Flags.containsMultipleSplats

def argumentsTree (c : Context) (args : Node) (arguments : List Argument) : Result Tree := do
  let trees ← arguments.mapM (c.argument args)
  let location ← c.span args
  pure (.arguments (splatFlags arguments) trees location)

def blockArgument? (c : Context) : Option (Option Node × Node) → Result (Option Tree)
  | none => pure none
  | some (value, pass) => do
    let expression ← c.node? value
    let location ← c.span pass
    pure (some (.blockArgument expression location))

/-- The arguments of a call and the block that it passes. The block is converted first. -/
def callArguments (c : Context) : Option Node → Result (Option Tree × Option Tree)
  | none => pure (none, none)
  | some args => do
    let (arguments, passed) := Argument.splitBlock (← Argument.ofNode args)
    let block ← c.blockArgument? passed
    if arguments.isEmpty then pure (none, block)
    else do
      let tree ← c.argumentsTree args arguments
      pure (some tree, block)

/-- What a `break`, `next` or `return` hands over: an argument list, or one expression. -/
def jumpArguments (c : Context) (value : Node) : Result Tree :=
  match value.kind with
  | .LIST | .ZLIST | .SPLAT | .ARGSCAT | .ARGSPUSH => do
    c.argumentsTree value (← Argument.ofNode value)
  | _ => do
    let tree ← c.node value
    let location ← c.span value
    pure (.arguments Flags.empty [tree] location)

def jumpArguments? (c : Context) : Option Node → Result (Option Tree)
  | none => pure none
  | some value => do pure (some (← c.jumpArguments value))

def array (c : Context) (list : Node) (location : Span) : Result Tree := do
  let arguments ← Argument.ofNode list
  let elements ← arguments.mapM (c.argument list)
  let flags := if arguments.any Argument.isSplat then Flags.arrayContainsSplat else Flags.empty
  pure (.array flags elements location)

/-- The pair at slots `index` and `index + 1`. A pair without a key is a double splat. -/
def hashElement (c : Context) (pairs : Node) (index : Nat) : Result Tree := do
  let value ← pairs.node (index + 1)
  match ← pairs.node? index with
  | none => do
    let value ← c.node value
    pure (.assocSplat value .null)
  | some key => do
    let keySpan ← c.span key
    let valueSpan ← c.span value
    let key ← c.node key
    let value ← c.node value
    pure (.assoc key value (keySpan.cover valueSpan))

def hashElements (c : Context) : Option Node → Result (List Tree)
  | none => pure []
  | some pairs => do
    let pairs ← pairs.expectKind [.LIST]
    let size := pairs.children.length
    if size % 2 = 0 then (List.range (size / 2)).mapM fun k => c.hashElement pairs (2 * k)
    else throw (pairs.unexpected .pairs)

def callFlags : Legacy.Kind → Flags
  | .QCALL => Flags.safeNavigation
  | .FCALL => Flags.ignoreVisibility
  | .VCALL => Flags.variableCall ||| Flags.ignoreVisibility
  | .ATTRASGN => Flags.attributeWrite
  | _ => Flags.empty

/-- A call. A block literal wins over a block argument. -/
def call (c : Context) (n : Node) (receiver : Option Node) (name : Name) (args : Option Node)
    (pending : Option Tree) (location : Span) : Result Tree := do
  let (arguments, block) ← c.callArguments args
  let receiver ← c.node? receiver
  let message := if n.kind = .VCALL then location else .null
  pure (.call (callFlags n.kind) receiver name message arguments (pending <|> block) location)

/-- A `super` or `yield` with arguments; a `yield` passes no block. -/
def invoke (c : Context) (n : Node) (args : Option Node) (pending : Option Tree)
    (location : Span) : Result Tree := do
  let (arguments, block) ← c.callArguments args
  if n.kind = .SUPER then pure (.super arguments (pending <|> block) location)
  else if block.isSome then throw (n.unexpected .yieldWithoutBlock)
  else pure (.yield arguments location)

def capture (c : Context) (assignment : Node) : Result Tree := do
  let assignment ← assignment.expectKind [.LASGN, .DASGN]
  let name ← assignment.name 0
  pure (.target .null (.localVariable name (c.depth name)))

/-- A match with `=~`. The literal stands on the left of a `MATCH2` and on the right of a `MATCH3`;
named captures are written to locals. -/
def matchOperator (c : Context) (n regexp value : Node) (captures : Option Node)
    (location : Span) : Result Tree := do
  let (left, right) := if n.kind = .MATCH2 then (regexp, value) else (value, regexp)
  let receiver ← c.node left
  let argument ← c.node right
  let argumentSpan ← c.span right
  let arguments := Tree.arguments Flags.empty [argument] argumentSpan
  let call := Tree.call Flags.empty (some receiver) ⟨"=~"⟩ .null (some arguments) none location
  match captures with
  | none => pure call
  | some captures => do
    let targets ← (← captures.sequence).mapM c.capture
    pure (.matchWrite call targets location)

end Context

end RubyTree
