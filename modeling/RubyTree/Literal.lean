import RubyTree.Double.Text
import RubyTree.Json.Draft
import RubyTree.Json.Text
import RubyTree.Text.Quoted

/-! Literal values: their wire form and the text shown for them. -/

namespace RubyTree

inductive Literal where
  | int (value : Int)
  | float (value : Double)
  | rational (numerator denominator : Int)
  | imaginary (part : Literal)
  | string (value : String)
  | regexp (source : String) (options : UInt32)
deriving DecidableEq

namespace Literal

def typeName : Literal → String
  | .int _ => "Integer"
  | .float _ => "Float"
  | .rational .. => "Rational"
  | .imaginary _ => "Complex"
  | .string _ => "String"
  | .regexp .. => "Regexp"

/-- Floats from `1e-4` up to `1e16` are shown without an exponent, with a digit behind the point. -/
def floatLayout : Double.Layout where
  plainFrom := -3
  plainUpTo := 16
  exponentPlus := false
  tie := .up

def ignoreCase : UInt32 := 1
def extended : UInt32 := 2
def multiline : UInt32 := 4

def regexpOptionText (options : UInt32) : String :=
  (if options &&& ignoreCase != 0 then "i" else "") ++
    (if options &&& extended != 0 then "x" else "") ++
    (if options &&& multiline != 0 then "m" else "")

def text : Literal → String
  | .int i => Json.intText i
  | .float x => x.text floatLayout
  | .rational n d => "(" ++ Json.intText n ++ "/" ++ Json.intText d ++ ")"
  | .imaginary part => "(" ++ part.text ++ "i)"
  | .string s => Text.quoted s
  | .regexp source options => "/" ++ source ++ "/" ++ regexpOptionText options

def toJson : Literal → Json
  | .int i => .object [("int", .ofInt i)]
  | .float x => .object [("float", .number (.float x))]
  | .rational n d => .object [("rational", .array [.ofInt n, .ofInt d])]
  | .imaginary part => .object [("imaginary", part.toJson)]
  | .string s => .object [("str", .string s)]
  | .regexp source options =>
    .object [("regexp",
      .object [("source", .string source), ("options", .ofNat options.toNat)])]

def regexpLabels : List String := ["source", "options"]

def regexpOfJson? (value : Json) : Option Literal := do
  match ← value.recordFields? regexpLabels with
  | [some source, some options] =>
    some (.regexp (← source.string?) (UInt32.ofNat (← options.nat32?)))
  | _ => none

/-- A literal is an object with one member, named for its class. -/
def ofJson? : Json → Option Literal
  | .object [(key, value)] =>
    if key = "int" then value.int64?.map .int
    else if key = "float" then value.double?.map .float
    else if key = "rational" then
      match value with
      | .array [n, d] => do some (.rational (← n.int64?) (← d.int64?))
      | _ => none
    else if key = "imaginary" then (ofJson? value).map .imaginary
    else if key = "str" then value.string?.map .string
    else if key = "regexp" then regexpOfJson? value
    else none
  | _ => none

/-- Drops what a reader of literals passes over: the unknown members of a regular expression. -/
def trim : Json.Draft → Json.Draft
  | .object [(some key, value)] =>
    if key = "imaginary" then .object [(some key, trim value)]
    else if key = "regexp" then .object [(some key, value.keepMembers regexpLabels)]
    else .object [(some key, value)]
  | draft => draft

def ofText? (text : String) : Option Literal := do
  ofJson? (← (trim (← Json.Draft.ofText? text)).boundedValue?)

end Literal

end RubyTree
