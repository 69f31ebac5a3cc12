import RubyTree.Canonical.Tree

/-! One constructor for each form of node that a legacy tree gives rise to. Locations of keywords,
operators and delimiters are unknown to a legacy tree and are null, apart from the few that are
asked for here. -/

namespace RubyTree

namespace Canonical

namespace Fields

/-! Fields are put in front of one another. -/

/-- A location that is not known. -/
abbrev gap {label : String} {rest : List Field} (values : Fields rest) :
    Fields (⟨label, .span⟩ :: rest) := .cons (.span .null) values

abbrev span {label : String} {rest : List Field} (value : Span) (values : Fields rest) :
    Fields (⟨label, .span⟩ :: rest) := .cons (.span value) values

abbrev name {label : String} {rest : List Field} (value : Name) (values : Fields rest) :
    Fields (⟨label, .name⟩ :: rest) := .cons (.name value) values

abbrev optName {label : String} {rest : List Field} (value : Option Name) (values : Fields rest) :
    Fields (⟨label, .optName⟩ :: rest) := .cons (.optName value) values

abbrev names {label : String} {rest : List Field} (value : List Name) (values : Fields rest) :
    Fields (⟨label, .names⟩ :: rest) := .cons (.names value) values

abbrev flags {label : String} {rest : List Field} (value : Flags) (values : Fields rest) :
    Fields (⟨label, .flags⟩ :: rest) := .cons (.flags value) values

abbrev nat {label : String} {rest : List Field} (value : Nat) (values : Fields rest) :
    Fields (⟨label, .nat⟩ :: rest) := .cons (.nat value) values

abbrev int {label : String} {rest : List Field} (value : Int) (values : Fields rest) :
    Fields (⟨label, .int⟩ :: rest) := .cons (.int value) values

abbrev float {label : String} {rest : List Field} (value : Double) (values : Fields rest) :
    Fields (⟨label, .float⟩ :: rest) := .cons (.float value) values

abbrev text {label : String} {rest : List Field} (value : String) (values : Fields rest) :
    Fields (⟨label, .text⟩ :: rest) := .cons (.text value) values

abbrev tree {label : String} {rest : List Field} (value : Tree) (values : Fields rest) :
    Fields (⟨label, .tree⟩ :: rest) := .cons (.tree value) values

abbrev optTree {label : String} {rest : List Field} (value : Option Tree) (values : Fields rest) :
    Fields (⟨label, .optTree⟩ :: rest) := .cons (.optTree value) values

abbrev trees {label : String} {rest : List Field} (value : List Tree) (values : Fields rest) :
    Fields (⟨label, .trees⟩ :: rest) := .cons (.trees value) values

end Fields

namespace Tree

def program (locals : List Name) (statements : Tree) (location : Span) : Tree :=
  .mk .programNode (.names locals <| .tree statements .nil) location

def statements (body : List Tree) (location : Span) : Tree :=
  .mk .statementsNode (.trees body .nil) location

/-! Conditionals, loops and jumps. -/

def ifElse (predicate : Tree) (statements consequent : Option Tree) (location : Span) : Tree :=
  .mk .ifNode
    (.gap <| .tree predicate <| .gap <| .optTree statements <| .optTree consequent <| .gap .nil)
    location

def unlessElse (predicate : Tree) (statements consequent : Option Tree) (location : Span) : Tree :=
  .mk .unlessNode
    (.gap <| .tree predicate <| .gap <| .optTree statements <| .optTree consequent <| .gap .nil)
    location

def elseClause (statements : Option Tree) (location : Span) : Tree :=
  .mk .elseNode (.gap <| .optTree statements <| .gap .nil) location

def caseWhen (predicate : Option Tree) (conditions : List Tree) (consequent : Option Tree)
    (location : Span) : Tree :=
  .mk .caseNode
    (.optTree predicate <| .trees conditions <| .optTree consequent <| .gap <| .gap .nil) location

def whenClause (conditions : List Tree) (statements : Option Tree) (location : Span) : Tree :=
  .mk .whenNode (.gap <| .trees conditions <| .gap <| .optTree statements .nil) location

def whileLoop (flags : Flags) (predicate : Tree) (statements : Option Tree) (location : Span) :
    Tree :=
  .mk .whileNode
    (.flags flags <| .gap <| .gap <| .tree predicate <| .optTree statements .nil) location

def untilLoop (flags : Flags) (predicate : Tree) (statements : Option Tree) (location : Span) :
    Tree :=
  .mk .untilNode
    (.flags flags <| .gap <| .gap <| .tree predicate <| .optTree statements .nil) location

def forLoop (index collection : Tree) (statements : Option Tree) (location : Span) : Tree :=
  .mk .forNode
    (.tree index <| .tree collection <| .optTree statements <| .gap <| .gap <| .gap <| .gap .nil)
    location

def breakJump (arguments : Option Tree) (keyword location : Span) : Tree :=
  .mk .breakNode (.optTree arguments <| .span keyword .nil) location

def nextJump (arguments : Option Tree) (keyword location : Span) : Tree :=
  .mk .nextNode (.optTree arguments <| .span keyword .nil) location

def returnJump (arguments : Option Tree) (keyword location : Span) : Tree :=
  .mk .returnNode (.span keyword <| .optTree arguments .nil) location

def redo (location : Span) : Tree := .mk .redoNode .nil location

def retry (location : Span) : Tree := .mk .retryNode .nil location

/-! Exceptions. -/

def begin (statements rescueClause elseClause ensureClause : Option Tree) (location : Span) :
    Tree :=
  .mk .beginNode
    (.gap <| .optTree statements <| .optTree rescueClause <| .optTree elseClause <|
      .optTree ensureClause <| .gap .nil)
    location

def rescue (exceptions : List Tree) (reference statements consequent : Option Tree)
    (location : Span) : Tree :=
  .mk .rescueNode
    (.gap <| .trees exceptions <| .gap <| .optTree reference <| .optTree statements <|
      .optTree consequent .nil)
    location

def ensureClause (statements : Option Tree) (location : Span) : Tree :=
  .mk .ensureNode (.gap <| .optTree statements <| .gap .nil) location

def logicalAnd (left right : Tree) (location : Span) : Tree :=
  .mk .andNode (.tree left <| .tree right <| .gap .nil) location

def logicalOr (left right : Tree) (location : Span) : Tree :=
  .mk .orNode (.tree left <| .tree right <| .gap .nil) location

/-! Destructuring. -/

def multiWrite (lefts : List Tree) (rest : Option Tree) (rights : List Tree) (value : Tree)
    (location : Span) : Tree :=
  .mk .multiWriteNode
    (.trees lefts <| .optTree rest <| .trees rights <| .gap <| .gap <| .gap <| .tree value .nil)
    location

def multiTarget (lefts : List Tree) (rest : Option Tree) (rights : List Tree) (location : Span) :
    Tree :=
  .mk .multiTargetNode
    (.trees lefts <| .optTree rest <| .trees rights <| .gap <| .gap .nil) location

def splat (expression : Option Tree) (location : Span) : Tree :=
  .mk .splatNode (.gap <| .optTree expression .nil) location

def implicitRest (location : Span) : Tree := .mk .implicitRestNode .nil location

end Tree

/-- A variable or constant: its family, its name and, for a local, the depth of its scope. -/
inductive Variable where
  | localVariable (name : Name) (depth : Nat)
  | instanceVariable (name : Name)
  | classVariable (name : Name)
  | globalVariable (name : Name)
  | constant (name : Name)
deriving DecidableEq

namespace Tree

/-! Variables. -/

def read (location : Span) : Variable → Tree
  | .localVariable n d => .mk .localVariableReadNode (.name n <| .nat d .nil) location
  | .instanceVariable n => .mk .instanceVariableReadNode (.name n .nil) location
  | .classVariable n => .mk .classVariableReadNode (.name n .nil) location
  | .globalVariable n => .mk .globalVariableReadNode (.name n .nil) location
  | .constant n => .mk .constantReadNode (.name n .nil) location

def target (location : Span) : Variable → Tree
  | .localVariable n d => .mk .localVariableTargetNode (.name n <| .nat d .nil) location
  | .instanceVariable n => .mk .instanceVariableTargetNode (.name n .nil) location
  | .classVariable n => .mk .classVariableTargetNode (.name n .nil) location
  | .globalVariable n => .mk .globalVariableTargetNode (.name n .nil) location
  | .constant n => .mk .constantTargetNode (.name n .nil) location

def write (value : Tree) (location : Span) : Variable → Tree
  | .localVariable n d =>
    .mk .localVariableWriteNode (.name n <| .nat d <| .gap <| .tree value <| .gap .nil) location
  | .instanceVariable n =>
    .mk .instanceVariableWriteNode (.name n <| .gap <| .tree value <| .gap .nil) location
  | .classVariable n =>
    .mk .classVariableWriteNode (.name n <| .gap <| .tree value <| .gap .nil) location
  | .globalVariable n =>
    .mk .globalVariableWriteNode (.name n <| .gap <| .tree value <| .gap .nil) location
  | .constant n =>
    .mk .constantWriteNode (.name n <| .gap <| .tree value <| .gap .nil) location

def andWrite (value : Tree) (location : Span) : Variable → Tree
  | .localVariable n d =>
    .mk .localVariableAndWriteNode (.gap <| .gap <| .tree value <| .name n <| .nat d .nil) location
  | .instanceVariable n =>
    .mk .instanceVariableAndWriteNode (.name n <| .gap <| .gap <| .tree value .nil) location
  | .classVariable n =>
    .mk .classVariableAndWriteNode (.name n <| .gap <| .gap <| .tree value .nil) location
  | .globalVariable n =>
    .mk .globalVariableAndWriteNode (.name n <| .gap <| .gap <| .tree value .nil) location
  | .constant n =>
    .mk .constantAndWriteNode (.name n <| .gap <| .gap <| .tree value .nil) location

def orWrite (value : Tree) (location : Span) : Variable → Tree
  | .localVariable n d =>
    .mk .localVariableOrWriteNode (.gap <| .gap <| .tree value <| .name n <| .nat d .nil) location
  | .instanceVariable n =>
    .mk .instanceVariableOrWriteNode (.name n <| .gap <| .gap <| .tree value .nil) location
  | .classVariable n =>
    .mk .classVariableOrWriteNode (.name n <| .gap <| .gap <| .tree value .nil) location
  | .globalVariable n =>
    .mk .globalVariableOrWriteNode (.name n <| .gap <| .gap <| .tree value .nil) location
  | .constant n =>
    .mk .constantOrWriteNode (.name n <| .gap <| .gap <| .tree value .nil) location

def numberedReference (number : Nat) (location : Span) : Tree :=
  .mk .numberedReferenceNode (.nat number .nil) location

def backReference (name : Name) (location : Span) : Tree :=
  .mk .backReferenceNode (.name name .nil) location

/-! Constant paths. -/

def constantPath (parent : Option Tree) (name : Name) (location : Span) : Tree :=
  .mk .constantPathNode (.optTree parent <| .name name <| .gap <| .gap .nil) location

def constantPathTarget (parent : Option Tree) (name : Name) (location : Span) : Tree :=
  .mk .constantPathTargetNode (.optTree parent <| .name name <| .gap <| .gap .nil) location

def constantPathWrite (target value : Tree) (location : Span) : Tree :=
  .mk .constantPathWriteNode (.tree target <| .gap <| .tree value .nil) location

/-- `A::B op= value`, by the operator. -/
def constantPathOpWrite (operator : Name) (target value : Tree) (location : Span) : Tree :=
  if operator.text = "||" then
    .mk .constantPathOrWriteNode (.tree target <| .gap <| .tree value .nil) location
  else if operator.text = "&&" then
    .mk .constantPathAndWriteNode (.tree target <| .gap <| .tree value .nil) location
  else
    .mk .constantPathOperatorWriteNode
      (.tree target <| .gap <| .tree value <| .name operator .nil) location

/-! Calls. -/

def call (flags : Flags) (receiver : Option Tree) (name : Name) (message : Span)
    (arguments block : Option Tree) (location : Span) : Tree :=
  .mk .callNode
    (.flags flags <| .optTree receiver <| .gap <| .name name <| .span message <| .gap <|
      .optTree arguments <| .gap <| .optTree block .nil)
    location

/-- `receiver.name op= value`, by the operator. -/
def callOpWrite (operator : Name) (flags : Flags) (receiver : Tree) (readName writeName : Name)
    (value : Tree) (location : Span) : Tree :=
  if operator.text = "||" then
    .mk .callOrWriteNode
      (.flags flags <| .optTree (some receiver) <| .gap <| .gap <| .name readName <|
        .name writeName <| .gap <| .tree value .nil)
      location
  else if operator.text = "&&" then
    .mk .callAndWriteNode
      (.flags flags <| .optTree (some receiver) <| .gap <| .gap <| .name readName <|
        .name writeName <| .gap <| .tree value .nil)
      location
  else
    .mk .callOperatorWriteNode
      (.flags flags <| .optTree (some receiver) <| .gap <| .gap <| .name readName <|
        .name writeName <| .name operator <| .gap <| .tree value .nil)
      location

/-- `receiver[arguments] op= value`, by the operator. -/
def indexOpWrite (operator : Name) (receiver : Tree) (arguments block : Option Tree) (value : Tree)
    (location : Span) : Tree :=
  if operator.text = "||" then
    .mk .indexOrWriteNode
      (.flags Flags.empty <| .optTree (some receiver) <| .gap <| .gap <| .optTree arguments <|
        .gap <| .optTree block <| .gap <| .tree value .nil)
      location
  else if operator.text = "&&" then
    .mk .indexAndWriteNode
      (.flags Flags.empty <| .optTree (some receiver) <| .gap <| .gap <| .optTree arguments <|
        .gap <| .optTree block <| .gap <| .tree value .nil)
      location
  else
    .mk .indexOperatorWriteNode
      (.flags Flags.empty <| .optTree (some receiver) <| .gap <| .gap <| .optTree arguments <|
        .gap <| .optTree block <| .name operator <| .gap <| .tree value .nil)
      location

def matchWrite (call : Tree) (targets : List Tree) (location : Span) : Tree :=
  .mk .matchWriteNode (.tree call <| .trees targets .nil) location

def arguments (flags : Flags) (arguments : List Tree) (location : Span) : Tree :=
  .mk .argumentsNode (.flags flags <| .trees arguments .nil) location

def blockArgument (expression : Option Tree) (location : Span) : Tree :=
  .mk .blockArgumentNode (.optTree expression <| .gap .nil) location

def super (arguments block : Option Tree) (location : Span) : Tree :=
  .mk .superNode (.gap <| .gap <| .optTree arguments <| .gap <| .optTree block .nil) location

def forwardingSuper (block : Option Tree) (location : Span) : Tree :=
  .mk .forwardingSuperNode (.optTree block .nil) location

def yield (arguments : Option Tree) (location : Span) : Tree :=
  .mk .yieldNode (.gap <| .gap <| .optTree arguments <| .gap .nil) location

/-! Blocks and parameters. -/

def block (locals : List Name) (parameters body : Option Tree) (location : Span) : Tree :=
  .mk .blockNode
    (.names locals <| .optTree parameters <| .optTree body <| .gap <| .gap .nil) location

def lambda (locals : List Name) (parameters body : Option Tree) (location : Span) : Tree :=
  .mk .lambdaNode
    (.names locals <| .gap <| .gap <| .gap <| .optTree parameters <| .optTree body .nil) location

def blockParameters (parameters : Tree) (locals : List Tree) (location : Span) : Tree :=
  .mk .blockParametersNode
    (.optTree (some parameters) <| .trees locals <| .gap <| .gap .nil) location

def blockLocalVariable (name : Name) (location : Span) : Tree :=
  .mk .blockLocalVariableNode (.name name .nil) location

def parameters (requireds optionals : List Tree) (rest : Option Tree) (posts keywords : List Tree)
    (keywordRest block : Option Tree) (location : Span) : Tree :=
  .mk .parametersNode
    (.trees requireds <| .trees optionals <| .optTree rest <| .trees posts <| .trees keywords <|
      .optTree keywordRest <| .optTree block .nil)
    location

def requiredParameter (name : Name) (location : Span) : Tree :=
  .mk .requiredParameterNode (.name name .nil) location

def optionalParameter (name : Name) (value : Tree) (location : Span) : Tree :=
  .mk .optionalParameterNode (.name name <| .gap <| .gap <| .tree value .nil) location

def restParameter (name : Option Name) (location : Span) : Tree :=
  .mk .restParameterNode (.optName name <| .gap <| .gap .nil) location

def requiredKeywordParameter (name : Name) (location : Span) : Tree :=
  .mk .requiredKeywordParameterNode (.name name <| .gap .nil) location

def optionalKeywordParameter (name : Name) (value : Tree) (location : Span) : Tree :=
  .mk .optionalKeywordParameterNode (.name name <| .gap <| .tree value .nil) location

def keywordRestParameter (name : Option Name) (location : Span) : Tree :=
  .mk .keywordRestParameterNode (.optName name <| .gap <| .gap .nil) location

def noKeywordsParameter (location : Span) : Tree :=
  .mk .noKeywordsParameterNode (.gap <| .gap .nil) location

def blockParameter (name : Option Name) (location : Span) : Tree :=
  .mk .blockParameterNode (.optName name <| .gap <| .gap .nil) location

/-! Collections. -/

def array (flags : Flags) (elements : List Tree) (location : Span) : Tree :=
  .mk .arrayNode (.flags flags <| .trees elements <| .gap <| .gap .nil) location

def hash (elements : List Tree) (location : Span) : Tree :=
  .mk .hashNode (.gap <| .trees elements <| .gap .nil) location

def assoc (key value : Tree) (location : Span) : Tree :=
  .mk .assocNode (.tree key <| .tree value <| .gap .nil) location

def assocSplat (value : Tree) (location : Span) : Tree :=
  .mk .assocSplatNode (.optTree (some value) <| .gap .nil) location

def range (flags : Flags) (left right : Option Tree) (location : Span) : Tree :=
  .mk .rangeNode (.flags flags <| .optTree left <| .optTree right <| .gap .nil) location

def flipFlop (flags : Flags) (left right : Option Tree) (location : Span) : Tree :=
  .mk .flipFlopNode (.flags flags <| .optTree left <| .optTree right <| .gap .nil) location

/-! Strings, symbols, regular expressions and numbers. -/

def string (flags : Flags) (unescaped : String) (location : Span) : Tree :=
  .mk .stringNode (.flags flags <| .gap <| .gap <| .gap <| .text unescaped .nil) location

def xString (unescaped : String) (location : Span) : Tree :=
  .mk .xStringNode (.flags Flags.empty <| .gap <| .gap <| .gap <| .text unescaped .nil) location

def interpolatedString (parts : List Tree) (location : Span) : Tree :=
  .mk .interpolatedStringNode (.flags Flags.empty <| .gap <| .trees parts <| .gap .nil) location

def interpolatedXString (parts : List Tree) (location : Span) : Tree :=
  .mk .interpolatedXStringNode (.gap <| .trees parts <| .gap .nil) location

def interpolatedSymbol (parts : List Tree) (location : Span) : Tree :=
  .mk .interpolatedSymbolNode (.gap <| .trees parts <| .gap .nil) location

def interpolatedRegularExpression (flags : Flags) (parts : List Tree) (location : Span) : Tree :=
  .mk .interpolatedRegularExpressionNode
    (.flags flags <| .gap <| .trees parts <| .gap .nil) location

/-- An interpolated regular expression that is built once only, at another location. -/
def once? (location : Span) : Tree → Option Tree
  | .mk .interpolatedRegularExpressionNode (.cons (.flags flags) rest) _ =>
    some (.mk .interpolatedRegularExpressionNode
      (.cons (.flags (flags ||| Flags.once)) rest) location)
  | _ => none

def embeddedStatements (statements : Option Tree) (location : Span) : Tree :=
  .mk .embeddedStatementsNode (.gap <| .optTree statements <| .gap .nil) location

def regularExpression (flags : Flags) (unescaped : String) (location : Span) : Tree :=
  .mk .regularExpressionNode
    (.flags flags <| .gap <| .gap <| .gap <| .text unescaped .nil) location

def matchLastLine (flags : Flags) (unescaped : String) (location : Span) : Tree :=
  .mk .matchLastLineNode (.flags flags <| .gap <| .gap <| .gap <| .text unescaped .nil) location

def symbol (unescaped : String) (location : Span) : Tree :=
  .mk .symbolNode (.gap <| .gap <| .gap <| .text unescaped .nil) location

def integer (value : Int) (location : Span) : Tree :=
  .mk .integerNode (.flags Flags.decimal <| .int value .nil) location

def float (value : Double) (location : Span) : Tree :=
  .mk .floatNode (.float value .nil) location

def rational (numerator denominator : Int) (location : Span) : Tree :=
  .mk .rationalNode (.flags Flags.decimal <| .int numerator <| .int denominator .nil) location

def imaginary (numeric : Tree) (location : Span) : Tree :=
  .mk .imaginaryNode (.tree numeric .nil) location

/-! Definitions. -/

def method (name : Name) (receiver parameters body : Option Tree) (locals : List Name)
    (location : Span) : Tree :=
  .mk .defNode
    (.name name <| .gap <| .optTree receiver <| .optTree parameters <| .optTree body <|
      .names locals <| .gap <| .gap <| .gap <| .gap <| .gap <| .gap .nil)
    location

def classDefinition (locals : List Name) (constantPath : Tree) (superclass body : Option Tree)
    (name : Name) (location : Span) : Tree :=
  .mk .classNode
    (.names locals <| .gap <| .tree constantPath <| .gap <| .optTree superclass <|
      .optTree body <| .gap <| .name name .nil)
    location

def moduleDefinition (locals : List Name) (constantPath : Tree) (body : Option Tree) (name : Name)
    (location : Span) : Tree :=
  .mk .moduleNode
    (.names locals <| .gap <| .tree constantPath <| .optTree body <| .gap <| .name name .nil)
    location

def singletonClass (locals : List Name) (expression : Tree) (body : Option Tree)
    (location : Span) : Tree :=
  .mk .singletonClassNode
    (.names locals <| .gap <| .gap <| .tree expression <| .optTree body <| .gap .nil) location

def aliasMethod (newName oldName : Tree) (location : Span) : Tree :=
  .mk .aliasMethodNode (.tree newName <| .tree oldName <| .gap .nil) location

def aliasGlobalVariable (newName oldName : Tree) (location : Span) : Tree :=
  .mk .aliasGlobalVariableNode (.tree newName <| .tree oldName <| .gap .nil) location

def undef (names : List Tree) (location : Span) : Tree :=
  .mk .undefNode (.trees names <| .gap .nil) location

/-! Keywords. -/

def selfRef (location : Span) : Tree := .mk .selfNode .nil location

def nilRef (location : Span) : Tree := .mk .nilNode .nil location

def trueRef (location : Span) : Tree := .mk .trueNode .nil location

def falseRef (location : Span) : Tree := .mk .falseNode .nil location

def sourceFile (path : String) (location : Span) : Tree :=
  .mk .sourceFileNode (.flags Flags.empty <| .text path .nil) location

def sourceLine (location : Span) : Tree := .mk .sourceLineNode .nil location

def sourceEncoding (location : Span) : Tree := .mk .sourceEncodingNode .nil location

def defined (value : Tree) (location : Span) : Tree :=
  .mk .definedNode (.gap <| .tree value <| .gap <| .gap .nil) location

def postExecution (statements : Option Tree) (location : Span) : Tree :=
  .mk .postExecutionNode (.optTree statements <| .gap <| .gap <| .gap .nil) location

end Tree

end Canonical

end RubyTree
