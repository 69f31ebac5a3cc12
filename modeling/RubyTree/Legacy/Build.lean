import RubyTree.Legacy.Node

/-! Short constructors for legacy trees put together by hand. -/

namespace RubyTree

namespace Legacy

namespace Build

def scope (table : Child) (args body : Option Node) (position : Position) : Node :=
  .make .SCOPE [table, .ofNode? args, .ofNode? body] position

/-- A local table without unnamed slots. -/
def names (names : List Name) : Child := .table (names.map some)

def block (statements : List Node) (position : Position) : Node :=
  .make .BLOCK (statements.map .node) position

/-- A `LIST` as it is written, with the nil at its end. -/
def list (elements : List Node) (position : Position) : Node :=
  .make .LIST (elements.map .node ++ [.nil]) position

def leaf (kind : Kind) (position : Position) : Node := .make kind [] position

def literal (kind : Kind) (value : Literal) (position : Position) : Node :=
  .make kind [.literal value] position

def int (value : Int) (position : Position) : Node := literal .INTEGER (.int value) position

def float (value : Double) (position : Position) : Node := literal .FLOAT (.float value) position

def string (value : String) (position : Position) : Node := literal .STR (.string value) position

def regexp (source : String) (options : UInt32) (position : Position) : Node :=
  literal .REGX (.regexp source options) position

/-- A node that holds one name: a symbol, the read of a variable, or a call without arguments. -/
def named (kind : Kind) (name : Name) (position : Position) : Node :=
  .make kind [.name name] position

def assign (kind : Kind) (name : Name) (value : Option Node) (position : Position) : Node :=
  .make kind [.name name, .ofNode? value] position

def call (kind : Kind) (receiver : Node) (name : Name) (args : Option Node)
    (position : Position) : Node :=
  .make kind [.node receiver, .name name, .ofNode? args] position

def fcall (name : Name) (args : Option Node) (position : Position) : Node :=
  .make .FCALL [.name name, .ofNode? args] position

/-- The contents of the ten slots of an `ARGS` descriptor. -/
structure ArgsSlots where
  preCount : Nat := 0
  preInit : Option Node := none
  optionals : Option Node := none
  firstPost : Option Name := none
  postCount : Nat := 0
  postInit : Option Node := none
  rest : Child := .nil
  keywords : Option Node := none
  keywordRest : Child := .nil
  block : Option Name := none

def nameSlot : Option Name → Child
  | none => .nil
  | some name => .name name

def args (slots : ArgsSlots) (position : Position) : Node :=
  .make .ARGS
    [.count slots.preCount, .ofNode? slots.preInit, .ofNode? slots.optionals,
      nameSlot slots.firstPost, .count slots.postCount, .ofNode? slots.postInit, slots.rest,
      .ofNode? slots.keywords, slots.keywordRest, nameSlot slots.block]
    position

def multiAssign (value head : Option Node) (rest : Child) (position : Position) : Node :=
  .make .MASGN [.ofNode? value, .ofNode? head, rest] position

def postArg (rest : Child) (posts : Node) (position : Position) : Node :=
  .make .POSTARG [rest, .node posts] position

def paramLink (kind : Kind) (body : Node) (next : Option Node) (position : Position) : Node :=
  .make kind [.node body, .ofNode? next] position

end Build

end Legacy

end RubyTree
