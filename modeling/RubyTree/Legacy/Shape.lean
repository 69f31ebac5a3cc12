import RubyTree.Legacy.Node

/-! Legacy nodes by meaning. The slots of a node are read once, in a fixed order, into a shape with
named fields; a slot with the wrong content is a fault here. -/

namespace RubyTree

namespace Legacy

inductive RestSlot where
  | absent
  | anonymous
  | target (node : Node)

inductive RestParameter where
  | absent
  | named (name : Name)
  | anonymous
  | excessiveComma

/-- The keyword rest slot of a parameter descriptor. The variable may lack a name. -/
inductive KeywordRest where
  | absent
  | variableNode (node : Node)
  | noKeywords

/-- The ten slots of an `ARGS` descriptor. -/
structure Descriptor where
  preCount : Nat
  preInit : Option Node
  optionals : Option Node
  firstPost : Option Name
  postCount : Nat
  postInit : Option Node
  rest : RestParameter
  keywords : Option Node
  keywordRest : KeywordRest
  block : Option Name

namespace Descriptor

/-- Every slot is empty: the scope takes no parameters at all. -/
def isEmpty (d : Descriptor) : Bool :=
  d.preCount == 0 && d.preInit.isNone && d.optionals.isNone && d.firstPost.isNone
    && d.postCount == 0 && d.postInit.isNone
    && (match d.rest with | .absent => true | _ => false)
    && d.keywords.isNone
    && (match d.keywordRest with | .absent => true | _ => false)
    && d.block.isNone

end Descriptor

/-- An operand that is a node or a bare name. -/
inductive NameOperand where
  | node (value : Node)
  | name (value : Name)

inductive Shape where
  | scope (table : Table) (args body : Option Node)
  | block (statements : List Node)
  | conditional (condition : Node) (body otherwise : Option Node)
  | case (subject clauses : Option Node)
  | when (conditions body next : Option Node)
  /-- With `postCondition` the body runs once before the first test. -/
  | loop (condition : Node) (body : Option Node) (postCondition : Bool)
  | iter (call scope : Node)
  | forIn (collection scope : Node)
  | jump (value : Option Node)
  | begin (body : Option Node)
  | rescue (body clause otherwise : Option Node)
  | rescueClause (exceptions body next : Option Node)
  | ensure (body ensured : Option Node)
  | pair (left right : Option Node)
  | multiAssign (value head : Option Node) (rest : RestSlot) (posts : Option Node)
  /-- With `requiredKeyword` the value slot holds that marker. -/
  | assign (name : Name) (value : Option Node) (requiredKeyword : Bool)
  | constPathAssign (path : Node) (name : Name) (value : Option Node)
  | indexOpAssign (receiver : Node) (operator : Name) (index : Option Node) (value : Node)
  | attrOpAssign (receiver : Node) (safeNavigation : Bool) (name operator : Name) (value : Node)
  | conditionalAssign (read assignment : Node)
  | constOpAssign (path : Node) (operator : Name) (value : Node)
  | call (receiver : Option Node) (name : Name) (args : Option Node)
  | invoke (args : Option Node)
  | list (elements : List Node)
  | hash (pairs : Option Node)
  | variableName (name : Name)
  | literal (value : Literal)
  | symbol (name : Name)
  | interpolation (leading : Option String) (head tail : Option Node) (options : UInt32)
  | wrapper (body : Option Node)
  | matchOperator (regexp value : Node) (captures : Option Node)
  | definition (receiver : Option Node) (name : Name) (scope : Node)
  | alias (newName oldName : Node)
  | globalAlias (newName oldName : Name)
  | undef (names : List NameOperand)
  | classDefinition (path : Node) (superclass : Option Node) (scope : Node)
  | moduleDefinition (path scope : Node)
  | singletonClass (receiver scope : Node)
  | colon (parent : Option Node) (name : Name)
  | params (descriptor : Descriptor)
  | paramLink (body : Node) (next : Option Node)
  | postArg (rest : RestSlot) (posts : Node)
  | leaf
  | unsupported

namespace Node

def restSlot (n : Node) (index : Nat) : Result RestSlot :=
  match n.child index with
  | .nil => pure .absent
  | .marker .anonymousRest => pure .anonymous
  | _ => do pure (.target (← n.node index))

/-- A `POSTARG` in the rest slot holds the rest and what follows it. -/
def multiAssignShape (n : Node) : Result Shape := do
  let value ← n.node? 0
  let head ← n.node? 1
  match n.child 2 with
  | .node args =>
    if args.kind = .POSTARG then do
      let rest ← args.restSlot 0
      let posts ← args.node 1
      pure (.multiAssign value head rest (some posts))
    else do
      let rest ← n.restSlot 2
      pure (.multiAssign value head rest none)
  | _ => do
    let rest ← n.restSlot 2
    pure (.multiAssign value head rest none)

def assignShape (n : Node) : Result Shape := do
  let name ← n.name 0
  if n.marker? 1 = some .requiredKeyword then pure (.assign name none true)
  else do
    let value ← n.node? 1
    pure (.assign name value false)

def constAssignShape (n : Node) : Result Shape :=
  match n.child 0 with
  | .node path => do
    let name ← n.name 1
    let value ← n.node? 2
    pure (.constPathAssign path name value)
  | _ => n.assignShape

def symbolShape (n : Node) : Result Shape :=
  match n.child 0 with
  | .literal (.string s) => pure (.symbol ⟨s⟩)
  | _ => do pure (.symbol (← n.name 0))

def leadingText (n : Node) : Result (Option String) :=
  match n.child 0 with
  | .nil => pure none
  | .literal (.string s) => pure (some s)
  | _ => throw (n.unexpected .leadingText)

/-- The options are a word of thirty-two bits; higher bits of the count are lost. -/
def interpolationShape (n : Node) : Result Shape := do
  let leading ← n.leadingText
  let head ← n.node? 1
  let tail ← n.node? 2
  match n.child 3 with
  | .nil => pure (.interpolation leading head tail 0)
  | _ => do
    let options ← n.count 3
    pure (.interpolation leading head tail (UInt32.ofNat options))

/-- These children as operands, the first of them standing in slot `index`. -/
def nameOperandsAt (n : Node) (index : Nat) : List Child → Result (List NameOperand)
  | [] => pure []
  | .name s :: rest => do
    let operands ← n.nameOperandsAt (index + 1) rest
    pure (.name s :: operands)
  | .node m :: rest => do
    let operands ← n.nameOperandsAt (index + 1) rest
    pure (.node m :: operands)
  | child :: _ => throw (n.unexpected (.slot .node index child.content))

def restParameter (n : Node) : Result RestParameter :=
  match n.child 6 with
  | .nil => pure .absent
  | .marker .excessiveComma => pure .excessiveComma
  | .marker .anonymousRest => pure .anonymous
  | _ => do pure (.named (← n.name 6))

def keywordRest (n : Node) : Result KeywordRest :=
  match n.child 8 with
  | .nil => pure .absent
  | .marker .noKeywords => pure .noKeywords
  | _ => do
    let var ← n.node 8
    pure (.variableNode (← var.expectKind [.DVAR, .LVAR]))

/-- The two rest slots are read before the others. -/
def descriptor (n : Node) : Result Descriptor := do
  let rest ← n.restParameter
  let keywordRest ← n.keywordRest
  let preCount ← n.count 0
  let preInit ← n.node? 1
  let optionals ← n.node? 2
  let firstPost ← n.name? 3
  let postCount ← n.count 4
  let postInit ← n.node? 5
  let keywords ← n.node? 7
  let block ← n.name? 9
  pure { preCount, preInit, optionals, firstPost, postCount, postInit, rest, keywords,
         keywordRest, block }

def shape (n : Node) : Result Shape :=
  match n.kind with
  | .SCOPE => do pure (.scope (← n.table 0) (← n.node? 1) (← n.node? 2))
  | .BLOCK => do pure (.block (← n.nodesFrom 0))
  | .IF | .UNLESS => do pure (.conditional (← n.node 0) (← n.node? 1) (← n.node? 2))
  | .CASE | .CASE2 => do pure (.case (← n.node? 0) (← n.node? 1))
  | .WHEN => do pure (.when (← n.node? 0) (← n.node? 1) (← n.node? 2))
  | .WHILE | .UNTIL => do pure (.loop (← n.node 0) (← n.node? 1) (!(← n.flag 2)))
  | .ITER => do pure (.iter (← n.node 0) (← n.node 1))
  | .FOR => do pure (.forIn (← n.node 0) (← n.node 1))
  | .BREAK | .NEXT | .RETURN => do pure (.jump (← n.node? 0))
  | .BEGIN => do pure (.begin (← n.node? 0))
  | .RESCUE => do pure (.rescue (← n.node? 0) (← n.node? 1) (← n.node? 2))
  | .RESBODY => do pure (.rescueClause (← n.node? 0) (← n.node? 1) (← n.node? 2))
  | .ENSURE => do pure (.ensure (← n.node? 0) (← n.node? 1))
  | .AND | .OR | .DOT2 | .DOT3 | .FLIP2 | .FLIP3 | .ARGSCAT | .ARGSPUSH | .BLOCK_PASS => do
    pure (.pair (← n.node? 0) (← n.node? 1))
  | .MASGN => n.multiAssignShape
  | .LASGN | .DASGN | .IASGN | .CVASGN | .GASGN => n.assignShape
  | .CDECL => n.constAssignShape
  | .OP_ASGN1 => do
    pure (.indexOpAssign (← n.node 0) (← n.name 1) (← n.node? 2) (← n.node 3))
  | .OP_ASGN2 => do
    pure (.attrOpAssign (← n.node 0) (← n.flag 1) (← n.name 2) (← n.name 3) (← n.node 4))
  | .OP_ASGN_AND | .OP_ASGN_OR => do pure (.conditionalAssign (← n.node 0) (← n.node 2))
  | .OP_CDECL => do pure (.constOpAssign (← n.node 0) (← n.name 1) (← n.node 2))
  | .CALL | .OPCALL | .QCALL | .ATTRASGN => do
    pure (.call (some (← n.node 0)) (← n.name 1) (← n.node? 2))
  | .FCALL => do pure (.call none (← n.name 0) (← n.node? 1))
  | .VCALL => do pure (.call none (← n.name 0) none)
  | .SUPER | .YIELD => do pure (.invoke (← n.node? 0))
  | .LIST => do pure (.list (← n.nodesFrom 0))
  | .ZLIST => pure (.list [])
  | .HASH => do pure (.hash (← n.node? 0))
  | .LVAR | .DVAR | .IVAR | .GVAR | .CVAR | .CONST | .NTH_REF | .BACK_REF => do
    pure (.variableName (← n.name 0))
  | .INTEGER | .FLOAT | .RATIONAL | .IMAGINARY | .STR | .XSTR | .REGX | .MATCH | .FILE => do
    pure (.literal (← n.literal 0))
  | .SYM => n.symbolShape
  | .DSTR | .DXSTR | .DSYM | .DREGX => n.interpolationShape
  | .EVSTR | .ONCE | .DEFINED | .SPLAT | .POSTEXE | .LAMBDA => do
    pure (.wrapper (← n.node? 0))
  | .MATCH2 | .MATCH3 => do pure (.matchOperator (← n.node 0) (← n.node 1) (← n.node? 2))
  | .DEFN => do pure (.definition none (← n.name 0) (← n.node 1))
  | .DEFS => do pure (.definition (some (← n.node 0)) (← n.name 1) (← n.node 2))
  | .ALIAS => do pure (.alias (← n.node 0) (← n.node 1))
  | .VALIAS => do pure (.globalAlias (← n.name 0) (← n.name 1))
  | .UNDEF => do pure (.undef (← n.nameOperandsAt 0 n.children))
  | .CLASS => do pure (.classDefinition (← n.node 0) (← n.node? 1) (← n.node 2))
  | .MODULE => do pure (.moduleDefinition (← n.node 0) (← n.node 1))
  | .SCLASS => do pure (.singletonClass (← n.node 0) (← n.node 1))
  | .COLON2 => do pure (.colon (← n.node? 0) (← n.name 1))
  | .COLON3 => do pure (.colon none (← n.name 0))
  | .ARGS => do pure (.params (← n.descriptor))
  | .OPT_ARG | .KW_ARG => do pure (.paramLink (← n.node 0) (← n.node? 1))
  | .POSTARG => do pure (.postArg (← n.restSlot 0) (← n.node 1))
  | .SELF | .NIL | .TRUE | .FALSE | .REDO | .RETRY | .ZSUPER | .ERRINFO | .LINE | .ENCODING =>
    pure .leaf
  | .CASE3 | .IN | .FOR_MASGN | .ARYPTN | .FNDPTN | .HSHPTN | .ERROR | .ARGS_AUX =>
    pure .unsupported

end Node

end Legacy

end RubyTree
