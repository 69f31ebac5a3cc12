import RubyTree.Conversion.Statements

/-! Literals and interpolations. -/

namespace RubyTree

open Canonical (Tree Flags)
open Legacy (Node)

namespace Context

def numeric? (location : Span) : Literal → Option Tree
  | .int value => some (.integer value location)
  | .float value => some (.float value location)
  | .rational numerator denominator => some (.rational numerator denominator location)
  | _ => none

/-- The flags of the option bits; other bits have none. -/
def regexpFlags (options : UInt32) : Flags :=
  (if options &&& Literal.ignoreCase != 0 then Flags.ignoreCase else Flags.empty) |||
    (if options &&& Literal.extended != 0 then Flags.extended else Flags.empty) |||
    (if options &&& Literal.multiline != 0 then Flags.multiLine else Flags.empty)

def stringFlags (c : Context) : Flags :=
  if c.options.frozenStringLiteral then Flags.frozen else Flags.empty

def literal (c : Context) (n : Node) (value : Literal) (location : Span) : Result Tree :=
  match n.kind, value with
  | .INTEGER, value | .FLOAT, value | .RATIONAL, value =>
    match numeric? location value with
    | some tree => pure tree
    | none => throw (n.unexpected (.numericLiteral value.typeName))
  | .IMAGINARY, .imaginary part =>
    match numeric? location part with
    | some tree => pure (.imaginary tree location)
    | none => throw (n.unexpected .numericImaginary)
  | .STR, .string s => pure (.string c.stringFlags s location)
  | .XSTR, .string s => pure (.xString s location)
  | .REGX, .regexp source options =>
    pure (.regularExpression (regexpFlags options) source location)
  | .MATCH, .regexp source options => pure (.matchLastLine (regexpFlags options) source location)
  | .FILE, .string path => pure (.sourceFile path location)
  | kind, value => throw (n.unexpected (.matchingLiteral kind value.typeName))

/-- A fragment of an interpolation: embedded statements, or a part of the text. -/
def fragment (c : Context) (n : Node) : Result Tree := do
  match ← n.shape with
  | .wrapper body =>
    if n.kind = .EVSTR then do
      let statements ← c.statements body
      let location ← c.span n
      pure (.embeddedStatements statements location)
    else c.node n
  | _ => c.node n

/-- An empty leading text leaves no part. -/
def leadingPart : Option String → List Tree
  | none => []
  | some text => if text.isEmpty then [] else [.string Flags.empty text .null]

def fragments (c : Context) : Option Node → Result (List Tree)
  | none => pure []
  | some list => do
    let list ← list.expectKind [.LIST]
    (← list.nodesFrom 0).mapM c.fragment

def fragmentOf? (c : Context) : Option Node → Result (List Tree)
  | none => pure []
  | some n => do pure [← c.fragment n]

def interpolationParts (c : Context) (leading : Option String) (head tail : Option Node) :
    Result (List Tree) := do
  let first ← c.fragmentOf? head
  let rest ← c.fragments tail
  pure (leadingPart leading ++ first ++ rest)

def interpolation (c : Context) (n : Node) (leading : Option String) (head tail : Option Node)
    (options : UInt32) (location : Span) : Result Tree := do
  let parts ← c.interpolationParts leading head tail
  match n.kind with
  | .DSTR => pure (.interpolatedString parts location)
  | .DXSTR => pure (.interpolatedXString parts location)
  | .DSYM => pure (.interpolatedSymbol parts location)
  | _ => pure (.interpolatedRegularExpression (regexpFlags options) parts location)

/-- A regular expression that is interpolated once only. -/
def once (c : Context) (n : Node) (body : Option Node) (location : Span) : Result Tree := do
  let inner ← c.required n (.kinds [.DREGX]) body
  match Tree.once? location inner with
  | some tree => pure tree
  | none => throw (n.unexpected .dynamicRegexp)

end Context

end RubyTree
