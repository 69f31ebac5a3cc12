import RubyTree.Proofs.Everywhere

/-! The grammar of canonical trees: which kinds of node may stand in which place, and which place
each child of a node stands in. The children of a destructuring and of a splat stand in places that
depend on where these stand themselves; those of any other node depend on its kind only. -/

namespace RubyTree

namespace Canonical

inductive Place where
  | program
  | expression
  | statements
  | body
  /-- What an `if` goes on with. -/
  | alternative
  | elseClause
  | whenClause
  | rescueClause
  | ensureClause
  | arguments
  /-- An element of an argument list, of an array, or of what a clause is selected by. -/
  | argument
  /-- A block that a call is given, as a literal or as an argument. -/
  | callBlock
  | literalBlock
  | blockArgument
  /-- What an assignment writes to: a variable, or a destructuring. -/
  | target
  | variableTarget
  | targetRest
  /-- What a named capture writes to. -/
  | captureTarget
  | parameters
  | blockParameters
  | requiredParameter
  | namedParameter
  | parameterRest
  | optionalParameter
  | restParameter
  | keywordParameter
  | keywordRestParameter
  | blockParameter
  | blockLocal
  | pair
  | fragment
  /-- The path that a class or module is declared by. -/
  | declaredPath
  | matchCall
  | number
  | globalName
deriving DecidableEq

namespace Kind

/-- Kinds that stand for an expression or a statement; the others are parts of one. -/
def isExpression : Kind → Bool
  | programNode | elseNode | whenNode | rescueNode | ensureNode | multiTargetNode | splatNode
  | implicitRestNode | localVariableTargetNode | instanceVariableTargetNode
  | classVariableTargetNode | globalVariableTargetNode | constantTargetNode
  | constantPathTargetNode | argumentsNode | blockArgumentNode | blockNode | blockParametersNode
  | blockLocalVariableNode | parametersNode | requiredParameterNode | optionalParameterNode
  | restParameterNode | requiredKeywordParameterNode | optionalKeywordParameterNode
  | keywordRestParameterNode | noKeywordsParameterNode | blockParameterNode | assocNode
  | assocSplatNode | embeddedStatementsNode => false
  | _ => true

def isVariableTarget : Kind → Bool
  | localVariableTargetNode | instanceVariableTargetNode | classVariableTargetNode
  | globalVariableTargetNode | constantTargetNode | constantPathTargetNode => true
  | _ => false

end Kind

namespace Place

def admits (place : Place) (kind : Kind) : Bool :=
  match place with
  | program => kind = .programNode
  | expression => kind.isExpression
  | statements => kind = .statementsNode
  | body => kind = .statementsNode ∨ kind = .beginNode
  | alternative => kind = .ifNode ∨ kind = .elseNode
  | elseClause => kind = .elseNode
  | whenClause => kind = .whenNode
  | rescueClause => kind = .rescueNode
  | ensureClause => kind = .ensureNode
  | arguments => kind = .argumentsNode
  | argument => kind.isExpression ∨ kind = .splatNode
  | callBlock => kind = .blockNode ∨ kind = .blockArgumentNode
  | literalBlock => kind = .blockNode
  | blockArgument => kind = .blockArgumentNode
  | target => kind.isVariableTarget ∨ kind = .multiTargetNode
  | variableTarget => kind.isVariableTarget
  | targetRest => kind = .splatNode
  | captureTarget => kind = .localVariableTargetNode
  | parameters => kind = .parametersNode
  | blockParameters => kind = .blockParametersNode
  | requiredParameter => kind = .requiredParameterNode ∨ kind = .multiTargetNode
  | namedParameter => kind = .requiredParameterNode
  | parameterRest => kind = .splatNode
  | optionalParameter => kind = .optionalParameterNode
  | restParameter => kind = .restParameterNode ∨ kind = .implicitRestNode
  | keywordParameter =>
    kind = .requiredKeywordParameterNode ∨ kind = .optionalKeywordParameterNode
  | keywordRestParameter => kind = .keywordRestParameterNode ∨ kind = .noKeywordsParameterNode
  | blockParameter => kind = .blockParameterNode
  | blockLocal => kind = .blockLocalVariableNode
  | pair => kind = .assocNode ∨ kind = .assocSplatNode
  | fragment => kind.isExpression ∨ kind = .embeddedStatementsNode
  | declaredPath => kind = .constantReadNode ∨ kind = .constantPathNode
  | matchCall => kind = .callNode
  | number => kind = .integerNode ∨ kind = .floatNode ∨ kind = .rationalNode
  | globalName => kind = .globalVariableReadNode

end Place

namespace Kind

/-- The places of the labelled children of a node of this kind that stands in `place`. Children that
are not listed are expressions. -/
@[simp] def places (place : Place) : Kind → List (String × Place)
  | programNode | elseNode | whileNode | untilNode | ensureNode | embeddedStatementsNode
  | postExecutionNode => [("statements", .statements)]
  | ifNode => [("statements", .statements), ("consequent", .alternative)]
  | unlessNode => [("statements", .statements), ("consequent", .elseClause)]
  | caseNode => [("conditions", .whenClause), ("consequent", .elseClause)]
  | whenNode => [("conditions", .argument), ("statements", .statements)]
  | forNode => [("index", .target), ("statements", .statements)]
  | breakNode | nextNode | returnNode | yieldNode => [("arguments", .arguments)]
  | beginNode =>
    [("statements", .statements), ("rescue_clause", .rescueClause), ("else_clause", .elseClause),
      ("ensure_clause", .ensureClause)]
  | rescueNode =>
    [("exceptions", .argument), ("reference", .variableTarget), ("statements", .statements),
      ("consequent", .rescueClause)]
  | multiWriteNode => [("lefts", .target), ("rest", .targetRest), ("rights", .target)]
  | multiTargetNode =>
    if place = .requiredParameter then
      [("lefts", .requiredParameter), ("rest", .parameterRest), ("rights", .requiredParameter)]
    else [("lefts", .target), ("rest", .targetRest), ("rights", .target)]
  | splatNode =>
    match place with
    | .targetRest => [("expression", .variableTarget)]
    | .parameterRest => [("expression", .namedParameter)]
    | _ => []
  | callNode | superNode => [("arguments", .arguments), ("block", .callBlock)]
  | indexAndWriteNode | indexOrWriteNode | indexOperatorWriteNode =>
    [("arguments", .arguments), ("block", .blockArgument)]
  | matchWriteNode => [("call", .matchCall), ("targets", .captureTarget)]
  | argumentsNode => [("arguments", .argument)]
  | arrayNode => [("elements", .argument)]
  | forwardingSuperNode => [("block", .literalBlock)]
  | blockNode | lambdaNode => [("parameters", .blockParameters), ("body", .body)]
  | blockParametersNode => [("parameters", .parameters), ("locals", .blockLocal)]
  | parametersNode =>
    [("requireds", .requiredParameter), ("optionals", .optionalParameter),
      ("rest", .restParameter), ("posts", .requiredParameter), ("keywords", .keywordParameter),
      ("keyword_rest", .keywordRestParameter), ("block", .blockParameter)]
  | hashNode => [("elements", .pair)]
  | interpolatedStringNode | interpolatedXStringNode | interpolatedSymbolNode
  | interpolatedRegularExpressionNode => [("parts", .fragment)]
  | imaginaryNode => [("numeric", .number)]
  | defNode => [("parameters", .parameters), ("body", .body)]
  | classNode | moduleNode => [("constant_path", .declaredPath), ("body", .body)]
  | singletonClassNode => [("body", .body)]
  | aliasGlobalVariableNode => [("new_name", .globalName), ("old_name", .globalName)]
  | _ => []

@[simp] def childPlace (kind : Kind) (place : Place) (label : String) : Place :=
  (((kind.places place).find? (·.1 == label)).map (·.2)).getD .expression

theorem childPlace_eq_of_isExpression {kind : Kind} {place other : Place} {label : String}
    (h : kind.isExpression = true) : kind.childPlace other label = kind.childPlace place label := by
  cases kind <;> first | rfl | cases h

theorem childPlace_eq_of_isVariableTarget {kind : Kind} {place other : Place} {label : String}
    (h : kind.isVariableTarget = true) :
    kind.childPlace other label = kind.childPlace place label := by
  cases kind <;> first | rfl | cases h

end Kind

/-- Every node may stand in its place, the root being a program. -/
def Tree.Grammatical (t : Tree) : Prop :=
  t.Every (fun place u label inner => inner = u.kind.childPlace place label)
    (fun place u => place.admits u.kind = true) .program

end Canonical

end RubyTree
