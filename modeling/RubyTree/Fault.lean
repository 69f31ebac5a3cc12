import RubyTree.Legacy.Kind
import RubyTree.Span

/-! Why a legacy tree is refused. Every fault names the kind and the position of the node it is
about; an expectation says what would have been accepted there, and is worded in one place. -/

namespace RubyTree

inductive SlotUse where
  | node | name | literal | flag | count | table
deriving DecidableEq

inductive SlotContent where
  | nil | node | name | literal | marker | flag | count | table
deriving DecidableEq

inductive Expectation where
  | slot (use : SlotUse) (index : Nat) (found : SlotContent)
  | kinds (accepted : List Legacy.Kind)
  | leadingText
  | positionInSource
  | blockCall
  | leftOperand
  | rightOperand
  | multipleValue
  | assignmentOutsideParameters
  | assignedValue
  | yieldWithoutBlock
  | dynamicRegexp
  | definedOperand
  | expression
  | forIndex
  | numberedReference
  | variableAssignment
  | assignmentTarget
  | argumentsWithoutBlock
  | pairs
  | numericLiteral (found : String)
  | numericImaginary
  | matchingLiteral (kind : Legacy.Kind) (found : String)
  | splatted
  | splatTail
  | pushedArgument
  | argumentList
  | optionalDefault
  | keywordDefault
  | keywordParameter
  | tableEntry
  /-- A tree that is no higher than the bound given for it. -/
  | shallowerTree
  | other (text : String)
deriving DecidableEq

namespace SlotUse

def text : SlotUse → String
  | .node => "node"
  | .name => "symbol"
  | .literal => "literal"
  | .flag => "boolean"
  | .count => "count"
  | .table => "local table"

end SlotUse

namespace SlotContent

def text : SlotContent → String
  | .nil => "nil"
  | .node => "node"
  | .name => "symbol"
  | .literal => "literal"
  | .marker => "sentinel"
  | .flag => "boolean"
  | .count => "count"
  | .table => "local table"

end SlotContent

namespace Expectation

def text : Expectation → String
  | .slot use index found =>
    use.text ++ " in child " ++ Nat.repr index ++ " (found " ++ found.text ++ ")"
  | .kinds ks => " or ".intercalate (ks.map Legacy.Kind.text)
  | .leadingText => "string or nil in child 0"
  | .positionInSource => "a position within the source"
  | .blockCall => "call accepting a block"
  | .leftOperand => "left operand"
  | .rightOperand => "right operand"
  | .multipleValue => "multiple assignment value"
  | .assignmentOutsideParameters => "assignment outside a parameter list"
  | .assignedValue => "assigned value"
  | .yieldWithoutBlock => "yield arguments without a block argument"
  | .dynamicRegexp => "DREGX inside ONCE"
  | .definedOperand => "defined? operand"
  | .expression => "expression"
  | .forIndex => "for-loop index"
  | .numberedReference => "numbered reference"
  | .variableAssignment => "variable assignment"
  | .assignmentTarget => "assignment target"
  | .argumentsWithoutBlock => "argument list without a block argument"
  | .pairs => "key/value pairs"
  | .numericLiteral found => "numeric literal, not " ++ found
  | .numericImaginary => "numeric imaginary part"
  | .matchingLiteral kind found => "literal matching " ++ kind.text ++ ", not " ++ found
  | .splatted => "a splatted expression"
  | .splatTail => "a splat tail"
  | .pushedArgument => "a pushed argument"
  | .argumentList => "argument list"
  | .optionalDefault => "optional parameter with a default"
  | .keywordDefault => "keyword parameter default"
  | .keywordParameter => "keyword parameter"
  | .tableEntry => "a local table entry for every parameter"
  | .shallowerTree => "a shallower tree"
  | .other text => text

end Expectation

inductive Fault where
  /-- The kind is known but has no canonical form. -/
  | notSupported (kind : Legacy.Kind) (position : Position)
  /-- The kind, or what one of its slots holds, cannot stand here. -/
  | unexpected (expected : Expectation) (kind : Legacy.Kind) (position : Position)
deriving DecidableEq

namespace Fault

def kind : Fault → Legacy.Kind
  | .notSupported kind _ => kind
  | .unexpected _ kind _ => kind

def position : Fault → Position
  | .notSupported _ position => position
  | .unexpected _ _ position => position

def message : Fault → String
  | .notSupported kind position =>
    "Node " ++ kind.text ++ " is not supported (at " ++ position.text ++ ")"
  | .unexpected expected kind position =>
    expected.text ++ " expected, found " ++ kind.text ++ " (at " ++ position.text ++ ")"

end Fault

/-- A conversion step: a value, or the first fault met. -/
abbrev Result (α : Type) := Except Fault α

end RubyTree
