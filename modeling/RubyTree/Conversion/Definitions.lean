import RubyTree.Conversion.Exceptions
import RubyTree.Parameters

/-! Scopes: blocks, lambdas, methods, classes and modules, with their parameters. -/

namespace RubyTree

open Canonical (Tree)
open Legacy (Node)

namespace Context

def requiredParameter (c : Context) : RequiredParameter → Result Tree
  | .name name => pure (.requiredParameter name .null)
  | .group group => c.targetGroup .parameter group

def optionalParameter (c : Context) (p : OptionalParameter) : Result Tree := do
  let value ← c.node p.value
  pure (.optionalParameter p.name value .null)

def keywordParameter (c : Context) (p : KeywordParameter) : Result Tree :=
  match p.value with
  | none => pure (.requiredKeywordParameter p.name .null)
  | some value => do
    let value ← c.node value
    pure (.optionalKeywordParameter p.name value .null)

def restParameter : RestParameter → Tree
  | .splat name => .restParameter name .null
  | .implicitComma => .implicitRest .null

def keywordRestParameter : KeywordRestParameter → Tree
  | .named name => .keywordRestParameter name .null
  | .noKeywords => .noKeywordsParameter .null

/-- The parameters that `args` describes. Those behind the rest are converted before the optional
ones. -/
def parameters (c : Context) (p : Parameters) (args : Node) : Result Tree := do
  let requireds ← p.requireds.mapM c.requiredParameter
  let posts ← p.posts.mapM c.requiredParameter
  let optionals ← p.optionals.mapM c.optionalParameter
  let keywords ← p.keywords.mapM c.keywordParameter
  let location ← c.span args
  pure (.parameters requireds optionals (p.rest.map restParameter) posts keywords
    (p.keywordRest.map keywordRestParameter) (p.block.map (Tree.blockParameter · .null)) location)

/-- Parameters of a block, with the locals that it declares behind them. -/
def blockParameters (c : Context) (p : Parameters) (args : Node) : Result Tree := do
  let parameters ← c.parameters p args
  let location ← c.span args
  pure (.blockParameters parameters (p.blockLocals.map (Tree.blockLocalVariable · .null)) location)

def parametersIn (c : Context) (table : Legacy.Table)
    (form : Context → Parameters → Node → Result Tree) : Option Node → Result (Option Tree)
  | none => pure none
  | some args => do
    match ← Parameters.ofNode table args with
    | none => pure none
    | some p => do pure (some (← form c p args))

/-- The locals, the parameters and the body of a block or lambda. -/
def blockParts (c : Context) (scope : Node) :
    Result (List Name × Option Tree × Option Tree) := do
  let (table, args, body) ← scope.scopeParts
  let inner := c.nested table
  let parameters ← inner.parametersIn table blockParameters args
  let body ← inner.scopeBody body
  pure (Parameters.names table, parameters, body)

def block (c : Context) (scope : Node) : Result Tree := do
  let (locals, parameters, body) ← c.blockParts scope
  let location ← c.span scope
  pure (.block locals parameters body location)

def lambda (c : Context) (n : Node) (scope : Option Node) (location : Span) : Result Tree :=
  match scope with
  | none => throw (n.unexpected (.kinds [.SCOPE]))
  | some scope => do
    let (locals, parameters, body) ← c.blockParts scope
    pure (.lambda locals parameters body location)

/-- `END { ... }`, which sees the locals around it. -/
def postExecution (c : Context) (n : Node) (scope : Option Node) (location : Span) : Result Tree :=
  match scope with
  | none => throw (n.unexpected (.kinds [.SCOPE]))
  | some scope => do
    let (table, _, body) ← scope.scopeParts
    let statements ← (c.nested table).statements body
    pure (.postExecution statements location)

def method (c : Context) (receiver : Option Node) (name : Name) (scope : Node) (location : Span) :
    Result Tree := do
  let receiver ← c.node? receiver
  let (table, args, body) ← scope.scopeParts
  let inner := c.fresh table
  let parameters ← inner.parametersIn table parameters args
  let body ← inner.scopeBody body
  pure (.method name receiver parameters body (Parameters.names table) location)

def definitionBody (c : Context) (scope : Node) : Result (List Name × Option Tree) := do
  let (table, _, body) ← scope.scopeParts
  let body ← (c.fresh table).scopeBody body
  pure (Parameters.names table, body)

/-- The path of a class or module, and the name that it declares. A path without a parent is a plain
constant. -/
def definitionPath (c : Context) (path : Node) : Result (Tree × Name) := do
  match ← path.shape with
  | .colon parent name =>
    if path.kind = .COLON2 ∧ parent.isNone then do
      let location ← c.span path
      pure (.read location (.constant name), name)
    else do
      let tree ← c.node path
      pure (tree, name)
  | _ => throw (path.unexpected (.kinds [.COLON2, .COLON3]))

def classDefinition (c : Context) (path : Node) (superclass : Option Node) (scope : Node)
    (location : Span) : Result Tree := do
  let (constantPath, name) ← c.definitionPath path
  let superclass ← c.node? superclass
  let (locals, body) ← c.definitionBody scope
  pure (.classDefinition locals constantPath superclass body name location)

def moduleDefinition (c : Context) (path scope : Node) (location : Span) : Result Tree := do
  let (constantPath, name) ← c.definitionPath path
  let (locals, body) ← c.definitionBody scope
  pure (.moduleDefinition locals constantPath body name location)

def singletonClass (c : Context) (receiver scope : Node) (location : Span) : Result Tree := do
  let expression ← c.node receiver
  let (locals, body) ← c.definitionBody scope
  pure (.singletonClass locals expression body location)

def nameOperand (c : Context) : Legacy.NameOperand → Result Tree
  | .node n => c.node n
  | .name name => pure (.symbol name.text .null)

end Context

end RubyTree
