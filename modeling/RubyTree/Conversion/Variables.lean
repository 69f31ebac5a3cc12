import RubyTree.Conversion.Calls
import RubyTree.Targets

/-! Variables: reads, writes and the targets of destructurings. -/

namespace RubyTree

open Canonical (Tree Flags Variable)
open Legacy (Node)

namespace Context

/-- The variable that a kind of node assigns to. -/
def assigned? (c : Context) (kind : Legacy.Kind) (name : Name) : Option Variable :=
  match kind with
  | .LASGN | .DASGN => some (.localVariable name (c.depth name))
  | .IASGN => some (.instanceVariable name)
  | .CVASGN => some (.classVariable name)
  | .GASGN => some (.globalVariable name)
  | .CDECL => some (.constant name)
  | _ => none

def digitsValue (digits : List Char) : Nat :=
  digits.foldl (fun value c => 10 * value + (c.toNat - '0'.toNat)) 0

/-- A number of at most thirty-two bits, with an optional plus sign. -/
def number32? (text : List Char) : Option Nat :=
  let digits := match text with
    | '+' :: rest => rest
    | _ => text
  if !digits.isEmpty && digits.all Char.isDigit && digitsValue digits < UInt32.size then
    some (digitsValue digits)
  else none

/-- The number of a reference such as `$1`. -/
def referenceNumber? (name : Name) : Option Nat :=
  number32? (name.text.toList.dropWhile (· = '$'))

def read (c : Context) (n : Node) (name : Name) (location : Span) : Result Tree :=
  match n.kind with
  | .LVAR | .DVAR => pure (.read location (.localVariable name (c.depth name)))
  | .IVAR => pure (.read location (.instanceVariable name))
  | .GVAR => pure (.read location (.globalVariable name))
  | .CVAR => pure (.read location (.classVariable name))
  | .CONST => pure (.read location (.constant name))
  | .NTH_REF =>
    match referenceNumber? name with
    | some number => pure (.numberedReference number location)
    | none => throw (n.unexpected .numberedReference)
  | .BACK_REF => pure (.backReference name location)
  | _ => throw (n.unexpected (.other "variable"))

def write (c : Context) (n : Node) (name : Name) (value : Option Node) (location : Span) :
    Result Tree := do
  let value ← c.required n .assignedValue value
  match c.assigned? n.kind name with
  | some var => pure (.write value location var)
  | none => throw (n.unexpected .variableAssignment)

/-- `x &&= v` or `x ||= v`, around an assignment of `v` to `x`. -/
def conditionalWrite (c : Context) (n assignment : Node) (location : Span) : Result Tree := do
  match ← assignment.shape with
  | .assign name (some value) _ => do
    let value ← c.node value
    match c.assigned? assignment.kind name with
    | some var =>
      if n.kind = .OP_ASGN_AND then pure (.andWrite value location var)
      else pure (.orWrite value location var)
    | none => throw (assignment.unexpected .variableAssignment)
  | _ => throw (assignment.unexpected .variableAssignment)

def indexOpWrite (c : Context) (receiver : Node) (operator : Name) (index : Option Node)
    (value : Node) (location : Span) : Result Tree := do
  let receiver ← c.node receiver
  let (arguments, block) ← c.callArguments index
  let value ← c.node value
  pure (.indexOpWrite operator receiver arguments block value location)

def attributeOpWrite (c : Context) (receiver : Node) (safeNavigation : Bool) (name operator : Name)
    (value : Node) (location : Span) : Result Tree := do
  let receiver ← c.node receiver
  let value ← c.node value
  let flags := if safeNavigation then Flags.safeNavigation else Flags.empty
  pure (.callOpWrite operator flags receiver name (name.withSuffix "=") value location)

def pathParent (c : Context) (path : Node) : Result (Option Tree) := do
  match ← path.shape with
  | .colon parent _ => c.node? parent
  | _ => throw (path.unexpected (.kinds [.COLON2, .COLON3]))

def assignmentTarget (c : Context) (n : Node) : Result Tree := do
  let location ← c.span n
  match ← n.shape with
  | .assign name _ _ =>
    match c.assigned? n.kind name with
    | some var => pure (.target location var)
    | none => throw (n.unexpected .assignmentTarget)
  | .constPathAssign path name _ => do
    let parent ← c.pathParent path
    pure (.constantPathTarget parent name location)
  | _ =>
    if n.kind = .ATTRASGN then throw n.notSupported
    else throw (n.unexpected .assignmentTarget)

def simpleTarget (c : Context) (style : TargetStyle) (n : Node) : Result Tree :=
  match style with
  | .assignment => c.assignmentTarget n
  | .parameter => do pure (.requiredParameter (← n.name 0) .null)

def restTarget (c : Context) (style : TargetStyle) : Option GroupRest → Result (Option Tree)
  | none => pure none
  | some .anonymous => pure (some (.splat none .null))
  | some (.named n) => do
    let target ← c.simpleTarget style n
    pure (some (.splat (some target) .null))

mutual

def target (c : Context) (style : TargetStyle) : Target → Result Tree
  | .simple n => c.simpleTarget style n
  | .group group => c.targetGroup style group

def targets (c : Context) (style : TargetStyle) : List Target → Result (List Tree)
  | [] => pure []
  | t :: ts => do
    let tree ← c.target style t
    let trees ← c.targets style ts
    pure (tree :: trees)

def targetGroup (c : Context) (style : TargetStyle) : TargetGroup → Result Tree
  | .mk n lefts rest rights => do
    let lefts ← c.targets style lefts
    let rest ← c.restTarget style rest
    let rights ← c.targets style rights
    let location ← c.span n
    pure (.multiTarget lefts rest rights location)

end

/-- A multiple assignment. The value is converted before the targets. -/
def multiWrite (c : Context) (n : Node) (value : Option Node) (location : Span) : Result Tree := do
  let value ← c.required n .multipleValue value
  let group ← TargetGroup.ofNode .assignment n
  let lefts ← c.targets .assignment group.lefts
  let rest ← c.restTarget .assignment group.rest
  let rights ← c.targets .assignment group.rights
  pure (.multiWrite lefts rest rights value location)

end Context

end RubyTree
