import RubyTree.Fault
import RubyTree.Literal
import RubyTree.Name

/-! The legacy tree: nodes with a kind, positional children and line and column bounds. A slot is
read for what it should hold; a slot past the end reads as nil. -/

namespace RubyTree

namespace Legacy

/-- Markers that stand in a slot in place of a node. -/
inductive Marker where
  /-- An anonymous splat in a destructuring: `a, * = x`. -/
  | anonymousRest
  /-- A trailing comma in block parameters: `|a,|`. -/
  | excessiveComma
  /-- A keyword parameter without a default: `a:`. -/
  | requiredKeyword
  /-- `**nil` in a parameter list. -/
  | noKeywords
deriving DecidableEq

namespace Marker

def text : Marker → String
  | .anonymousRest => "NODE_SPECIAL_NO_NAME_REST"
  | .excessiveComma => "NODE_SPECIAL_EXCESSIVE_COMMA"
  | .requiredKeyword => "NODE_SPECIAL_REQUIRED_KEYWORD"
  | .noKeywords => "NODE_SPECIAL_NO_REST_KEYWORD"

def all : List Marker := [.anonymousRest, .excessiveComma, .requiredKeyword, .noKeywords]

def ofText? (s : String) : Option Marker := all.find? (·.text == s)

end Marker

/-- The local table of a scope. An entry without a name is a slot for internal use. -/
abbrev Table := List (Option Name)

mutual

inductive Node where
  | mk (kind : Kind) (children : List Child) (position : Position)

inductive Child where
  | nil
  | node (value : Node)
  | name (value : Name)
  | literal (value : Literal)
  | marker (value : Marker)
  | flag (value : Bool)
  | count (value : Nat)
  | table (value : Table)

end

namespace Child

def content : Child → SlotContent
  | .nil => .nil
  | .node _ => .node
  | .name _ => .name
  | .literal _ => .literal
  | .marker _ => .marker
  | .flag _ => .flag
  | .count _ => .count
  | .table _ => .table

def isNil : Child → Bool
  | .nil => true
  | _ => false

def ofNode? : Option Node → Child
  | none => .nil
  | some n => .node n

end Child

namespace Node

def kind : Node → Kind
  | .mk kind _ _ => kind

def children : Node → List Child
  | .mk _ children _ => children

def position : Node → Position
  | .mk _ _ position => position

def dropTerminator : List Child → List Child
  | [] => []
  | [.nil] => []
  | child :: rest => child :: dropTerminator rest

/-- A node without the nil that ends the children of a `LIST`. -/
def make (kind : Kind) (children : List Child) (position : Position) : Node :=
  .mk kind (if kind = .LIST then dropTerminator children else children) position

mutual

/-- The number of nodes on the longest way down. -/
def height : Node → Nat
  | .mk _ children _ => heightList children + 1

def heightList : List Child → Nat
  | [] => 0
  | child :: rest => max (heightChild child) (heightList rest)

def heightChild : Child → Nat
  | .node n => n.height
  | _ => 0

end

def child (n : Node) (index : Nat) : Child := n.children[index]?.getD .nil

def unexpected (n : Node) (expected : Expectation) : Fault :=
  .unexpected expected n.kind n.position

def notSupported (n : Node) : Fault := .notSupported n.kind n.position

def badSlot (n : Node) (use : SlotUse) (index : Nat) : Fault :=
  n.unexpected (.slot use index (n.child index).content)

def expectKind (n : Node) (kinds : List Kind) : Result Node :=
  if n.kind ∈ kinds then pure n else throw (n.unexpected (.kinds kinds))

def node (n : Node) (index : Nat) : Result Node :=
  match n.child index with
  | .node m => pure m
  | _ => throw (n.badSlot .node index)

def node? (n : Node) (index : Nat) : Result (Option Node) :=
  match n.child index with
  | .nil => pure none
  | .node m => pure (some m)
  | _ => throw (n.badSlot .node index)

def name (n : Node) (index : Nat) : Result Name :=
  match n.child index with
  | .name s => pure s
  | _ => throw (n.badSlot .name index)

def name? (n : Node) (index : Nat) : Result (Option Name) :=
  match n.child index with
  | .nil => pure none
  | .name s => pure (some s)
  | _ => throw (n.badSlot .name index)

def literal (n : Node) (index : Nat) : Result Literal :=
  match n.child index with
  | .literal l => pure l
  | _ => throw (n.badSlot .literal index)

def marker? (n : Node) (index : Nat) : Option Marker :=
  match n.child index with
  | .marker m => some m
  | _ => none

def flag (n : Node) (index : Nat) : Result Bool :=
  match n.child index with
  | .flag b => pure b
  | _ => throw (n.badSlot .flag index)

/-- A count is tagged as one, or is an integer literal that is not negative. -/
def count (n : Node) (index : Nat) : Result Nat :=
  match n.child index with
  | .count k => pure k
  | .literal (.int (.ofNat k)) => pure k
  | _ => throw (n.badSlot .count index)

def table (n : Node) (index : Nat) : Result Table :=
  match n.child index with
  | .table t => pure t
  | .nil => pure []
  | _ => throw (n.badSlot .table index)

/-- These children as nodes, the first of them standing in slot `index`. -/
def nodesAt (n : Node) (index : Nat) : List Child → Result (List Node)
  | [] => pure []
  | .node m :: rest => do
    let nodes ← n.nodesAt (index + 1) rest
    pure (m :: nodes)
  | child :: _ => throw (n.unexpected (.slot .node index child.content))

/-- The children from an index on, each of which has to be a node. -/
def nodesFrom (n : Node) (index : Nat) : Result (List Node) :=
  n.nodesAt index (n.children.drop index)

end Node

end Legacy

end RubyTree
