import RubyTree.Conversion.Control
import RubyTree.Conversion.Definitions
import RubyTree.Conversion.Literals

/-! The conversion of a legacy tree into a canonical one. A node is converted by its shape, with the
conversion of lower nodes at hand; the height of the tree bounds how often that is unfolded. -/

namespace RubyTree

open Canonical (Tree)
open Legacy (Node Shape)

namespace Context

/-- The nodes whose slots are not read. `pending` is a block literal to attach. -/
def leaf (n : Node) (pending : Option Tree) (location : Span) : Result Tree :=
  match n.kind with
  | .REDO => pure (.redo location)
  | .RETRY => pure (.retry location)
  | .ZSUPER => pure (.forwardingSuper pending location)
  | .SELF => pure (.selfRef location)
  | .NIL => pure (.nilRef location)
  | .TRUE => pure (.trueRef location)
  | .FALSE => pure (.falseRef location)
  | .LINE => pure (.sourceLine location)
  | .ENCODING => pure (.sourceEncoding location)
  | _ => throw n.notSupported

def wrapper (c : Context) (n : Node) (body : Option Node) (location : Span) : Result Tree :=
  match n.kind with
  | .ONCE => c.once n body location
  | .DEFINED => do
    let value ← c.required n .definedOperand body
    pure (.defined value location)
  | .POSTEXE => c.postExecution n body location
  | .LAMBDA => c.lambda n body location
  | .SPLAT => c.array n location
  | _ => throw (n.unexpected .expression)

/-- A node of a given shape. Shapes that only their parents take apart are no expressions. -/
def shaped (c : Context) (n : Node) (pending : Option Tree) (location : Span) :
    Shape → Result Tree
  | .block statements => do
    let body ← statements.mapM c.node
    pure (.statements body location)
  | .conditional condition body otherwise => c.conditional n condition body otherwise location
  | .case subject clauses => c.caseWhen subject clauses location
  | .loop condition body postCondition => c.loop n condition body postCondition location
  | .iter call scope => do
    let block ← c.block scope
    let tree ← c.convert c.scope call (some block)
    pure (tree.withLocation location)
  | .forIn collection scope => c.forLoop collection scope location
  | .jump value => c.jump n value location
  | .begin body => do pure ((← c.beginBody body).tree location)
  | .rescue .. | .ensure .. => do pure ((← c.beginParts n).tree location)
  | .pair left right => c.pair n left right location
  | .multiAssign value _ _ _ => c.multiWrite n value location
  | .assign name value requiredKeyword =>
    if requiredKeyword then throw (n.unexpected .assignmentOutsideParameters)
    else c.write n name value location
  | .constPathAssign path _ value => do
    let target ← c.node path
    let value ← c.required n .assignedValue value
    pure (.constantPathWrite target value location)
  | .indexOpAssign receiver operator index value =>
    c.indexOpWrite receiver operator index value location
  | .attrOpAssign receiver safeNavigation name operator value =>
    c.attributeOpWrite receiver safeNavigation name operator value location
  | .conditionalAssign _ assignment => c.conditionalWrite n assignment location
  | .constOpAssign path operator value => do
    let target ← c.node path
    let value ← c.node value
    pure (.constantPathOpWrite operator target value location)
  | .call receiver name args => c.call n receiver name args pending location
  | .invoke args => c.invoke n args pending location
  | .list _ => c.array n location
  | .hash pairs => do
    let elements ← c.hashElements pairs
    pure (.hash elements location)
  | .variableName name => c.read n name location
  | .literal value => c.literal n value location
  | .symbol name => pure (.symbol name.text location)
  | .interpolation leading head tail options =>
    c.interpolation n leading head tail options location
  | .wrapper body => c.wrapper n body location
  | .matchOperator regexp value captures => c.matchOperator n regexp value captures location
  | .definition receiver name scope => c.method receiver name scope location
  | .alias newName oldName => do
    let newName ← c.node newName
    let oldName ← c.node oldName
    pure (.aliasMethod newName oldName location)
  | .globalAlias newName oldName =>
    pure (.aliasGlobalVariable (.read .null (.globalVariable newName))
      (.read .null (.globalVariable oldName)) location)
  | .undef names => do
    let names ← names.mapM c.nameOperand
    pure (.undef names location)
  | .classDefinition path superclass scope => c.classDefinition path superclass scope location
  | .moduleDefinition path scope => c.moduleDefinition path scope location
  | .singletonClass receiver scope => c.singletonClass receiver scope location
  | .colon parent name => do
    let parent ← c.node? parent
    pure (.constantPath parent name location)
  | .leaf => leaf n pending location
  | .unsupported => throw n.notSupported
  | .scope .. | .when .. | .rescueClause .. | .params _ | .paramLink .. | .postArg .. =>
    throw (n.unexpected .expression)

/-- One node. Only calls take a block literal; the location is read before the slots. -/
def step (c : Context) (n : Node) (pending : Option Tree) : Result Tree :=
  if pending.isSome && !n.kind.takesBlock then throw (n.unexpected .blockCall)
  else do
    let location ← c.span n
    let shape ← n.shape
    c.shaped n pending location shape

end Context

namespace Legacy.Node

def convertWithin (lines : LineTable) (options : Options) :
    Nat → Scope → Node → Option Tree → Result Tree
  | 0, _, n, _ => throw (n.unexpected .shallowerTree)
  | bound + 1, scope, n, pending =>
    Context.step { lines, options, scope, convert := convertWithin lines options bound } n pending

/-- The conversion of a node, with the local tables around it and a block literal to attach. -/
def convert (lines : LineTable) (options : Options) (scope : Scope) (n : Node)
    (pending : Option Tree) : Result Tree :=
  convertWithin lines options n.height scope n pending

/-- The conversion of a whole program, whose root is a `SCOPE`. -/
def program (lines : LineTable) (options : Options) (root : Node) : Result Tree := do
  let (table, _, body) ← root.scopeParts
  let location ← lines.span root
  let c : Context :=
    { lines, options, scope := [table], convert := convertWithin lines options root.height }
  let statements ← c.statements body
  pure (.program (Parameters.names table) (statements.getD (.statements [] .null)) location)

end Legacy.Node

end RubyTree
