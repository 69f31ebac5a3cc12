import RubyTree.Double.Basic

/-! JSON values. An object is the list of its members in written order, so that what is reported
first, and how a value is written back, follows the text. -/

namespace RubyTree

/-- Integers and floats are different numbers: `1` is not `1.0`. -/
inductive Json.Number where
  | int (value : Int)
  | float (value : Double)
deriving DecidableEq

inductive Json where
  | null
  | bool (value : Bool)
  | number (value : Json.Number)
  | string (value : String)
  | array (items : List Json)
  | object (members : List (String × Json))

namespace Json

def ofNat (n : Nat) : Json := .number (.int (Int.ofNat n))

def ofInt (i : Int) : Json := .number (.int i)

/-- There is no JSON number for an infinity or a NaN. -/
def ofDouble (x : Double) : Json := if x.isFinite then .number (.float x) else .null

theorem ofDouble_of_isFinite {x : Double} (h : x.isFinite = true) :
    ofDouble x = .number (.float x) := if_pos h

def ofOption {α : Type} (f : α → Json) : Option α → Json
  | none => .null
  | some a => f a

/-- The value of the first member named `key`. -/
def member? (members : List (String × Json)) (key : String) : Option Json :=
  (members.find? (·.1 == key)).map (·.2)

def natBelow? (bound : Nat) : Json → Option Nat
  | .number (.int (.ofNat n)) => if n < bound then some n else none
  | _ => none

def intBetween? (low high : Int) : Json → Option Int
  | .number (.int i) => if low ≤ i ∧ i < high then some i else none
  | _ => none

def string? : Json → Option String
  | .string s => some s
  | _ => none

def bool? : Json → Option Bool
  | .bool b => some b
  | _ => none

def nat64? (value : Json) : Option Nat := value.natBelow? UInt64.size

def nat32? (value : Json) : Option Nat := value.natBelow? UInt32.size

def int64? (value : Json) : Option Int :=
  value.intBetween? (-0x8000000000000000) 0x8000000000000000

def double? : Json → Option Double
  | .number (.int i) => Double.ofInt? i
  | .number (.float x) => some x
  | _ => none

/-- Sets a member, in place when the key is there already and at the end otherwise. -/
def setMember (key : String) (value : Json) : List (String × Json) → List (String × Json)
  | [] => [(key, value)]
  | (k, v) :: rest => if k = key then (k, value) :: rest else (k, v) :: setMember key value rest

mutual

/-- One member per key: the last value written, at the place of the first. -/
def uniqueKeys : Json → Json
  | .array items => .array (uniqueKeysList items)
  | .object members => .object (uniqueKeysMembers [] members)
  | value => value

def uniqueKeysList : List Json → List Json
  | [] => []
  | item :: rest => uniqueKeys item :: uniqueKeysList rest

def uniqueKeysMembers (seen : List (String × Json)) : List (String × Json) → List (String × Json)
  | [] => seen
  | (key, value) :: rest => uniqueKeysMembers (setMember key (uniqueKeys value) seen) rest

end

/-- The fields of a record given as an object or as an array. An object names each field at most
once and may hold other members; an array holds the fields in order and nothing more, and may stop
early. Fields that are not given read as `none`. -/
def recordFields? (labels : List String) : Json → Option (List (Option Json))
  | .object members =>
    labels.mapM fun label =>
      match members.filter (·.1 == label) with
      | [] => some none
      | [(_, value)] => some (some value)
      | _ => none
  | .array items =>
    if items.length ≤ labels.length then
      some (items.map some ++ List.replicate (labels.length - items.length) none)
    else none
  | _ => none

end Json

end RubyTree
