import RubyTree.Canonical.Tree
import RubyTree.Json.Difference

/-! Canonical trees as JSON, and their comparison through it. -/

namespace RubyTree

namespace Canonical

namespace Tree

/-- A kind without fields is written as its name alone. -/
def kindToJson (kind : Kind) : List (String × Json) → Json
  | [] => .string kind.variant
  | members => .object [(kind.variant, .object members)]

mutual

def toJson : Tree → Json
  | .mk kind fields location =>
    .object [("kind", kindToJson kind (membersOf fields)), ("location", location.toJson)]

def membersOf : {fields : List Field} → Fields fields → List (String × Json)
  | _, .nil => []
  | field :: _, .cons value values => (field.label, valueToJson value) :: membersOf values

def valueToJson : {sort : FieldSort} → Value sort → Json
  | _, .span s => s.toJson
  | _, .name n => .string n.text
  | _, .optName none => .null
  | _, .optName (some n) => .string n.text
  | _, .names ns => .array (ns.map fun n => .string n.text)
  | _, .flags f => .ofNat f.toNat
  | _, .nat n => .ofNat n
  | _, .int i => .ofInt i
  | _, .float x => .ofDouble x
  | _, .text s => .string s
  | _, .tree t => toJson t
  | _, .optTree none => .null
  | _, .optTree (some t) => toJson t
  | _, .trees ts => .array (treesToJson ts)

def treesToJson : List Tree → List Json
  | [] => []
  | t :: ts => toJson t :: treesToJson ts

end

def difference (expected actual : Tree) : Option Json.Mismatch :=
  Json.difference expected.toJson actual.toJson

/-- Equality up to spans that are null on one side. -/
def agrees (expected actual : Tree) : Bool := (difference expected actual).isNone

end Tree

end Canonical

end RubyTree
