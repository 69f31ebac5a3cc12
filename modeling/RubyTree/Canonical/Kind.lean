/-! The kinds of a canonical node and the fields of each, in the order in which they are written. -/

namespace RubyTree

namespace Canonical

inductive FieldSort where
  | span | name | optName | names | flags | nat | int | float | text | tree | optTree | trees
deriving DecidableEq

structure Field where
  label : String
  sort : FieldSort
deriving DecidableEq

namespace Field

abbrev loc (label : String) : Field := ⟨label, .span⟩
abbrev name (label : String) : Field := ⟨label, .name⟩
abbrev optName (label : String) : Field := ⟨label, .optName⟩
abbrev names (label : String) : Field := ⟨label, .names⟩
abbrev flags : Field := ⟨"flags", .flags⟩
abbrev nat (label : String) : Field := ⟨label, .nat⟩
abbrev int (label : String) : Field := ⟨label, .int⟩
abbrev float (label : String) : Field := ⟨label, .float⟩
abbrev text (label : String) : Field := ⟨label, .text⟩
abbrev tree (label : String) : Field := ⟨label, .tree⟩
abbrev optTree (label : String) : Field := ⟨label, .optTree⟩
abbrev trees (label : String) : Field := ⟨label, .trees⟩

end Field

inductive Kind where
  | programNode
  | statementsNode
  | ifNode
  | unlessNode
  | elseNode
  | caseNode
  | whenNode
  | whileNode
  | untilNode
  | forNode
  | breakNode
  | nextNode
  | returnNode
  | redoNode
  | retryNode
  | beginNode
  | rescueNode
  | ensureNode
  | andNode
  | orNode
  | multiWriteNode
  | multiTargetNode
  | splatNode
  | implicitRestNode
  | localVariableReadNode
  | localVariableWriteNode
  | localVariableTargetNode
  | localVariableAndWriteNode
  | localVariableOrWriteNode
  | localVariableOperatorWriteNode
  | instanceVariableReadNode
  | instanceVariableWriteNode
  | instanceVariableTargetNode
  | instanceVariableAndWriteNode
  | instanceVariableOrWriteNode
  | instanceVariableOperatorWriteNode
  | classVariableReadNode
  | classVariableWriteNode
  | classVariableTargetNode
  | classVariableAndWriteNode
  | classVariableOrWriteNode
  | classVariableOperatorWriteNode
  | globalVariableReadNode
  | globalVariableWriteNode
  | globalVariableTargetNode
  | globalVariableAndWriteNode
  | globalVariableOrWriteNode
  | globalVariableOperatorWriteNode
  | constantReadNode
  | constantWriteNode
  | constantTargetNode
  | constantAndWriteNode
  | constantOrWriteNode
  | constantOperatorWriteNode
  | constantPathNode
  | constantPathTargetNode
  | constantPathWriteNode
  | constantPathAndWriteNode
  | constantPathOrWriteNode
  | constantPathOperatorWriteNode
  | callNode
  | callAndWriteNode
  | callOrWriteNode
  | callOperatorWriteNode
  | indexAndWriteNode
  | indexOrWriteNode
  | indexOperatorWriteNode
  | matchWriteNode
  | argumentsNode
  | blockArgumentNode
  | superNode
  | forwardingSuperNode
  | yieldNode
  | blockNode
  | lambdaNode
  | blockParametersNode
  | blockLocalVariableNode
  | parametersNode
  | requiredParameterNode
  | optionalParameterNode
  | restParameterNode
  | requiredKeywordParameterNode
  | optionalKeywordParameterNode
  | keywordRestParameterNode
  | noKeywordsParameterNode
  | blockParameterNode
  | arrayNode
  | hashNode
  | assocNode
  | assocSplatNode
  | rangeNode
  | flipFlopNode
  | stringNode
  | xStringNode
  | interpolatedStringNode
  | interpolatedXStringNode
  | interpolatedSymbolNode
  | interpolatedRegularExpressionNode
  | embeddedStatementsNode
  | regularExpressionNode
  | matchLastLineNode
  | symbolNode
  | numberedReferenceNode
  | backReferenceNode
  | integerNode
  | floatNode
  | rationalNode
  | imaginaryNode
  | defNode
  | classNode
  | moduleNode
  | singletonClassNode
  | aliasMethodNode
  | aliasGlobalVariableNode
  | undefNode
  | selfNode
  | nilNode
  | trueNode
  | falseNode
  | sourceFileNode
  | sourceLineNode
  | sourceEncodingNode
  | definedNode
  | postExecutionNode
deriving DecidableEq

namespace Kind

/-- The name under which a kind is written. -/
def variant : Kind → String
  | programNode => "Program"
  | statementsNode => "Statements"
  | ifNode => "If"
  | unlessNode => "Unless"
  | elseNode => "Else"
  | caseNode => "Case"
  | whenNode => "When"
  | whileNode => "While"
  | untilNode => "Until"
  | forNode => "For"
  | breakNode => "Break"
  | nextNode => "Next"
  | returnNode => "Return"
  | redoNode => "Redo"
  | retryNode => "Retry"
  | beginNode => "Begin"
  | rescueNode => "Rescue"
  | ensureNode => "Ensure"
  | andNode => "And"
  | orNode => "Or"
  | multiWriteNode => "MultiWrite"
  | multiTargetNode => "MultiTarget"
  | splatNode => "Splat"
  | implicitRestNode => "ImplicitRest"
  | localVariableReadNode => "LocalVariableRead"
  | localVariableWriteNode => "LocalVariableWrite"
  | localVariableTargetNode => "LocalVariableTarget"
  | localVariableAndWriteNode => "LocalVariableAndWrite"
  | localVariableOrWriteNode => "LocalVariableOrWrite"
  | localVariableOperatorWriteNode => "LocalVariableOperatorWrite"
  | instanceVariableReadNode => "InstanceVariableRead"
  | instanceVariableWriteNode => "InstanceVariableWrite"
  | instanceVariableTargetNode => "InstanceVariableTarget"
  | instanceVariableAndWriteNode => "InstanceVariableAndWrite"
  | instanceVariableOrWriteNode => "InstanceVariableOrWrite"
  | instanceVariableOperatorWriteNode => "InstanceVariableOperatorWrite"
  | classVariableReadNode => "ClassVariableRead"
  | classVariableWriteNode => "ClassVariableWrite"
  | classVariableTargetNode => "ClassVariableTarget"
  | classVariableAndWriteNode => "ClassVariableAndWrite"
  | classVariableOrWriteNode => "ClassVariableOrWrite"
  | classVariableOperatorWriteNode => "ClassVariableOperatorWrite"
  | globalVariableReadNode => "GlobalVariableRead"
  | globalVariableWriteNode => "GlobalVariableWrite"
  | globalVariableTargetNode => "GlobalVariableTarget"
  | globalVariableAndWriteNode => "GlobalVariableAndWrite"
  | globalVariableOrWriteNode => "GlobalVariableOrWrite"
  | globalVariableOperatorWriteNode => "GlobalVariableOperatorWrite"
  | constantReadNode => "ConstantRead"
  | constantWriteNode => "ConstantWrite"
  | constantTargetNode => "ConstantTarget"
  | constantAndWriteNode => "ConstantAndWrite"
  | constantOrWriteNode => "ConstantOrWrite"
  | constantOperatorWriteNode => "ConstantOperatorWrite"
  | constantPathNode => "ConstantPath"
  | constantPathTargetNode => "ConstantPathTarget"
  | constantPathWriteNode => "ConstantPathWrite"
  | constantPathAndWriteNode => "ConstantPathAndWrite"
  | constantPathOrWriteNode => "ConstantPathOrWrite"
  | constantPathOperatorWriteNode => "ConstantPathOperatorWrite"
  | callNode => "Call"
  | callAndWriteNode => "CallAndWrite"
  | callOrWriteNode => "CallOrWrite"
  | callOperatorWriteNode => "CallOperatorWrite"
  | indexAndWriteNode => "IndexAndWrite"
  | indexOrWriteNode => "IndexOrWrite"
  | indexOperatorWriteNode => "IndexOperatorWrite"
  | matchWriteNode => "MatchWrite"
  | argumentsNode => "Arguments"
  | blockArgumentNode => "BlockArgument"
  | superNode => "Super"
  | forwardingSuperNode => "ForwardingSuper"
  | yieldNode => "Yield"
  | blockNode => "Block"
  | lambdaNode => "Lambda"
  | blockParametersNode => "BlockParameters"
  | blockLocalVariableNode => "BlockLocalVariable"
  | parametersNode => "Parameters"
  | requiredParameterNode => "RequiredParameter"
  | optionalParameterNode => "OptionalParameter"
  | restParameterNode => "RestParameter"
  | requiredKeywordParameterNode => "RequiredKeywordParameter"
  | optionalKeywordParameterNode => "OptionalKeywordParameter"
  | keywordRestParameterNode => "KeywordRestParameter"
  | noKeywordsParameterNode => "NoKeywordsParameter"
  | blockParameterNode => "BlockParameter"
  | arrayNode => "Array"
  | hashNode => "Hash"
  | assocNode => "Assoc"
  | assocSplatNode => "AssocSplat"
  | rangeNode => "Range"
  | flipFlopNode => "FlipFlop"
  | stringNode => "String"
  | xStringNode => "XString"
  | interpolatedStringNode => "InterpolatedString"
  | interpolatedXStringNode => "InterpolatedXString"
  | interpolatedSymbolNode => "InterpolatedSymbol"
  | interpolatedRegularExpressionNode => "InterpolatedRegularExpression"
  | embeddedStatementsNode => "EmbeddedStatements"
  | regularExpressionNode => "RegularExpression"
  | matchLastLineNode => "MatchLastLine"
  | symbolNode => "Symbol"
  | numberedReferenceNode => "NumberedReference"
  | backReferenceNode => "BackReference"
  | integerNode => "Integer"
  | floatNode => "Float"
  | rationalNode => "Rational"
  | imaginaryNode => "Imaginary"
  | defNode => "Def"
  | classNode => "Class"
  | moduleNode => "Module"
  | singletonClassNode => "SingletonClass"
  | aliasMethodNode => "AliasMethod"
  | aliasGlobalVariableNode => "AliasGlobalVariable"
  | undefNode => "Undef"
  | selfNode => "Self"
  | nilNode => "Nil"
  | trueNode => "True"
  | falseNode => "False"
  | sourceFileNode => "SourceFile"
  | sourceLineNode => "SourceLine"
  | sourceEncodingNode => "SourceEncoding"
  | definedNode => "Defined"
  | postExecutionNode => "PostExecution"

def typeName (kind : Kind) : String := kind.variant ++ "Node"

@[reducible]
def fields : Kind → List Field
  | programNode => [.names "locals", .tree "statements"]
  | statementsNode => [.trees "body"]
  | ifNode =>
    [.loc "if_keyword_loc", .tree "predicate", .loc "then_keyword_loc", .optTree "statements",
     .optTree "consequent", .loc "end_keyword_loc"]
  | unlessNode =>
    [.loc "keyword_loc", .tree "predicate", .loc "then_keyword_loc", .optTree "statements",
     .optTree "consequent", .loc "end_keyword_loc"]
  | elseNode => [.loc "else_keyword_loc", .optTree "statements", .loc "end_keyword_loc"]
  | caseNode =>
    [.optTree "predicate", .trees "conditions", .optTree "consequent", .loc "case_keyword_loc",
     .loc "end_keyword_loc"]
  | whenNode =>
    [.loc "keyword_loc", .trees "conditions", .loc "then_keyword_loc", .optTree "statements"]
  | whileNode =>
    [.flags, .loc "keyword_loc", .loc "closing_loc", .tree "predicate", .optTree "statements"]
  | untilNode =>
    [.flags, .loc "keyword_loc", .loc "closing_loc", .tree "predicate", .optTree "statements"]
  | forNode =>
    [.tree "index", .tree "collection", .optTree "statements", .loc "for_keyword_loc",
     .loc "in_keyword_loc", .loc "do_keyword_loc", .loc "end_keyword_loc"]
  | breakNode => [.optTree "arguments", .loc "keyword_loc"]
  | nextNode => [.optTree "arguments", .loc "keyword_loc"]
  | returnNode => [.loc "keyword_loc", .optTree "arguments"]
  | redoNode => []
  | retryNode => []
  | beginNode =>
    [.loc "begin_keyword_loc", .optTree "statements", .optTree "rescue_clause",
     .optTree "else_clause", .optTree "ensure_clause", .loc "end_keyword_loc"]
  | rescueNode =>
    [.loc "keyword_loc", .trees "exceptions", .loc "operator_loc", .optTree "reference",
     .optTree "statements", .optTree "consequent"]
  | ensureNode => [.loc "ensure_keyword_loc", .optTree "statements", .loc "end_keyword_loc"]
  | andNode => [.tree "left", .tree "right", .loc "operator_loc"]
  | orNode => [.tree "left", .tree "right", .loc "operator_loc"]
  | multiWriteNode =>
    [.trees "lefts", .optTree "rest", .trees "rights", .loc "lparen_loc", .loc "rparen_loc",
     .loc "operator_loc", .tree "value"]
  | multiTargetNode =>
    [.trees "lefts", .optTree "rest", .trees "rights", .loc "lparen_loc", .loc "rparen_loc"]
  | splatNode => [.loc "operator_loc", .optTree "expression"]
  | implicitRestNode => []
  | localVariableReadNode => [.name "name", .nat "depth"]
  | localVariableWriteNode =>
    [.name "name", .nat "depth", .loc "name_loc", .tree "value", .loc "operator_loc"]
  | localVariableTargetNode => [.name "name", .nat "depth"]
  | localVariableAndWriteNode =>
    [.loc "name_loc", .loc "operator_loc", .tree "value", .name "name", .nat "depth"]
  | localVariableOrWriteNode =>
    [.loc "name_loc", .loc "operator_loc", .tree "value", .name "name", .nat "depth"]
  | localVariableOperatorWriteNode =>
    [.loc "name_loc", .loc "binary_operator_loc", .tree "value", .name "name",
     .name "binary_operator", .nat "depth"]
  | instanceVariableReadNode => [.name "name"]
  | instanceVariableWriteNode => [.name "name", .loc "name_loc", .tree "value", .loc "operator_loc"]
  | instanceVariableTargetNode => [.name "name"]
  | instanceVariableAndWriteNode =>
    [.name "name", .loc "name_loc", .loc "operator_loc", .tree "value"]
  | instanceVariableOrWriteNode =>
    [.name "name", .loc "name_loc", .loc "operator_loc", .tree "value"]
  | instanceVariableOperatorWriteNode =>
    [.name "name", .loc "name_loc", .loc "binary_operator_loc", .tree "value",
     .name "binary_operator"]
  | classVariableReadNode => [.name "name"]
  | classVariableWriteNode => [.name "name", .loc "name_loc", .tree "value", .loc "operator_loc"]
  | classVariableTargetNode => [.name "name"]
  | classVariableAndWriteNode => [.name "name", .loc "name_loc", .loc "operator_loc", .tree "value"]
  | classVariableOrWriteNode => [.name "name", .loc "name_loc", .loc "operator_loc", .tree "value"]
  | classVariableOperatorWriteNode =>
    [.name "name", .loc "name_loc", .loc "binary_operator_loc", .tree "value",
     .name "binary_operator"]
  | globalVariableReadNode => [.name "name"]
  | globalVariableWriteNode => [.name "name", .loc "name_loc", .tree "value", .loc "operator_loc"]
  | globalVariableTargetNode => [.name "name"]
  | globalVariableAndWriteNode =>
    [.name "name", .loc "name_loc", .loc "operator_loc", .tree "value"]
  | globalVariableOrWriteNode => [.name "name", .loc "name_loc", .loc "operator_loc", .tree "value"]
  | globalVariableOperatorWriteNode =>
    [.name "name", .loc "name_loc", .loc "binary_operator_loc", .tree "value",
     .name "binary_operator"]
  | constantReadNode => [.name "name"]
  | constantWriteNode => [.name "name", .loc "name_loc", .tree "value", .loc "operator_loc"]
  | constantTargetNode => [.name "name"]
  | constantAndWriteNode => [.name "name", .loc "name_loc", .loc "operator_loc", .tree "value"]
  | constantOrWriteNode => [.name "name", .loc "name_loc", .loc "operator_loc", .tree "value"]
  | constantOperatorWriteNode =>
    [.name "name", .loc "name_loc", .loc "binary_operator_loc", .tree "value",
     .name "binary_operator"]
  | constantPathNode => [.optTree "parent", .name "name", .loc "delimiter_loc", .loc "name_loc"]
  | constantPathTargetNode =>
    [.optTree "parent", .name "name", .loc "delimiter_loc", .loc "name_loc"]
  | constantPathWriteNode => [.tree "target", .loc "operator_loc", .tree "value"]
  | constantPathAndWriteNode => [.tree "target", .loc "operator_loc", .tree "value"]
  | constantPathOrWriteNode => [.tree "target", .loc "operator_loc", .tree "value"]
  | constantPathOperatorWriteNode =>
    [.tree "target", .loc "binary_operator_loc", .tree "value", .name "binary_operator"]
  | callNode =>
    [.flags, .optTree "receiver", .loc "call_operator_loc", .name "name", .loc "message_loc",
     .loc "opening_loc", .optTree "arguments", .loc "closing_loc", .optTree "block"]
  | callAndWriteNode =>
    [.flags, .optTree "receiver", .loc "call_operator_loc", .loc "message_loc", .name "read_name",
     .name "write_name", .loc "operator_loc", .tree "value"]
  | callOrWriteNode =>
    [.flags, .optTree "receiver", .loc "call_operator_loc", .loc "message_loc", .name "read_name",
     .name "write_name", .loc "operator_loc", .tree "value"]
  | callOperatorWriteNode =>
    [.flags, .optTree "receiver", .loc "call_operator_loc", .loc "message_loc", .name "read_name",
     .name "write_name", .name "binary_operator", .loc "binary_operator_loc", .tree "value"]
  | indexAndWriteNode =>
    [.flags, .optTree "receiver", .loc "call_operator_loc", .loc "opening_loc",
     .optTree "arguments", .loc "closing_loc", .optTree "block", .loc "operator_loc", .tree "value"]
  | indexOrWriteNode =>
    [.flags, .optTree "receiver", .loc "call_operator_loc", .loc "opening_loc",
     .optTree "arguments", .loc "closing_loc", .optTree "block", .loc "operator_loc", .tree "value"]
  | indexOperatorWriteNode =>
    [.flags, .optTree "receiver", .loc "call_operator_loc", .loc "opening_loc",
     .optTree "arguments", .loc "closing_loc", .optTree "block", .name "binary_operator",
     .loc "binary_operator_loc", .tree "value"]
  | matchWriteNode => [.tree "call", .trees "targets"]
  | argumentsNode => [.flags, .trees "arguments"]
  | blockArgumentNode => [.optTree "expression", .loc "operator_loc"]
  | superNode =>
    [.loc "keyword_loc", .loc "lparen_loc", .optTree "arguments", .loc "rparen_loc",
     .optTree "block"]
  | forwardingSuperNode => [.optTree "block"]
  | yieldNode => [.loc "keyword_loc", .loc "lparen_loc", .optTree "arguments", .loc "rparen_loc"]
  | blockNode =>
    [.names "locals", .optTree "parameters", .optTree "body", .loc "opening_loc",
     .loc "closing_loc"]
  | lambdaNode =>
    [.names "locals", .loc "operator_loc", .loc "opening_loc", .loc "closing_loc",
     .optTree "parameters", .optTree "body"]
  | blockParametersNode =>
    [.optTree "parameters", .trees "locals", .loc "opening_loc", .loc "closing_loc"]
  | blockLocalVariableNode => [.name "name"]
  | parametersNode =>
    [.trees "requireds", .trees "optionals", .optTree "rest", .trees "posts", .trees "keywords",
     .optTree "keyword_rest", .optTree "block"]
  | requiredParameterNode => [.name "name"]
  | optionalParameterNode => [.name "name", .loc "name_loc", .loc "operator_loc", .tree "value"]
  | restParameterNode => [.optName "name", .loc "name_loc", .loc "operator_loc"]
  | requiredKeywordParameterNode => [.name "name", .loc "name_loc"]
  | optionalKeywordParameterNode => [.name "name", .loc "name_loc", .tree "value"]
  | keywordRestParameterNode => [.optName "name", .loc "name_loc", .loc "operator_loc"]
  | noKeywordsParameterNode => [.loc "operator_loc", .loc "keyword_loc"]
  | blockParameterNode => [.optName "name", .loc "name_loc", .loc "operator_loc"]
  | arrayNode => [.flags, .trees "elements", .loc "opening_loc", .loc "closing_loc"]
  | hashNode => [.loc "opening_loc", .trees "elements", .loc "closing_loc"]
  | assocNode => [.tree "key", .tree "value", .loc "operator_loc"]
  | assocSplatNode => [.optTree "value", .loc "operator_loc"]
  | rangeNode => [.flags, .optTree "left", .optTree "right", .loc "operator_loc"]
  | flipFlopNode => [.flags, .optTree "left", .optTree "right", .loc "operator_loc"]
  | stringNode =>
    [.flags, .loc "opening_loc", .loc "content_loc", .loc "closing_loc", .text "unescaped"]
  | xStringNode =>
    [.flags, .loc "opening_loc", .loc "content_loc", .loc "closing_loc", .text "unescaped"]
  | interpolatedStringNode => [.flags, .loc "opening_loc", .trees "parts", .loc "closing_loc"]
  | interpolatedXStringNode => [.loc "opening_loc", .trees "parts", .loc "closing_loc"]
  | interpolatedSymbolNode => [.loc "opening_loc", .trees "parts", .loc "closing_loc"]
  | interpolatedRegularExpressionNode =>
    [.flags, .loc "opening_loc", .trees "parts", .loc "closing_loc"]
  | embeddedStatementsNode => [.loc "opening_loc", .optTree "statements", .loc "closing_loc"]
  | regularExpressionNode =>
    [.flags, .loc "opening_loc", .loc "content_loc", .loc "closing_loc", .text "unescaped"]
  | matchLastLineNode =>
    [.flags, .loc "opening_loc", .loc "content_loc", .loc "closing_loc", .text "unescaped"]
  | symbolNode => [.loc "opening_loc", .loc "value_loc", .loc "closing_loc", .text "unescaped"]
  | numberedReferenceNode => [.nat "number"]
  | backReferenceNode => [.name "name"]
  | integerNode => [.flags, .int "value"]
  | floatNode => [.float "value"]
  | rationalNode => [.flags, .int "numerator", .int "denominator"]
  | imaginaryNode => [.tree "numeric"]
  | defNode =>
    [.name "name", .loc "name_loc", .optTree "receiver", .optTree "parameters", .optTree "body",
     .names "locals", .loc "def_keyword_loc", .loc "operator_loc", .loc "lparen_loc",
     .loc "rparen_loc", .loc "equal_loc", .loc "end_keyword_loc"]
  | classNode =>
    [.names "locals", .loc "class_keyword_loc", .tree "constant_path",
     .loc "inheritance_operator_loc", .optTree "superclass", .optTree "body",
     .loc "end_keyword_loc", .name "name"]
  | moduleNode =>
    [.names "locals", .loc "module_keyword_loc", .tree "constant_path", .optTree "body",
     .loc "end_keyword_loc", .name "name"]
  | singletonClassNode =>
    [.names "locals", .loc "class_keyword_loc", .loc "operator_loc", .tree "expression",
     .optTree "body", .loc "end_keyword_loc"]
  | aliasMethodNode => [.tree "new_name", .tree "old_name", .loc "keyword_loc"]
  | aliasGlobalVariableNode => [.tree "new_name", .tree "old_name", .loc "keyword_loc"]
  | undefNode => [.trees "names", .loc "keyword_loc"]
  | selfNode => []
  | nilNode => []
  | trueNode => []
  | falseNode => []
  | sourceFileNode => [.flags, .text "filepath"]
  | sourceLineNode => []
  | sourceEncodingNode => []
  | definedNode => [.loc "lparen_loc", .tree "value", .loc "rparen_loc", .loc "keyword_loc"]
  | postExecutionNode =>
    [.optTree "statements", .loc "keyword_loc", .loc "opening_loc", .loc "closing_loc"]

end Kind

end Canonical

end RubyTree
