import RubyTree.Legacy.Shape

/-! Destructuring: a `MASGN` taken apart into what stands before the splat, the splat and what stands
behind it, at every depth. -/

namespace RubyTree

open Legacy (Node)

/-- What the targets become. Parameters bind plain locals only; an assignment takes any variable. -/
inductive TargetStyle where
  | parameter
  | assignment
deriving DecidableEq

inductive GroupRest where
  | named (node : Node)
  | anonymous

mutual

inductive Target where
  | simple (node : Node)
  | group (value : TargetGroup)

inductive TargetGroup where
  | mk (node : Node) (lefts : List Target) (rest : Option GroupRest) (rights : List Target)

end

namespace GroupRest

/-- An anonymous rest binds nothing. -/
def bindingCount : Option GroupRest → Nat
  | some (.named _) => 1
  | _ => 0

end GroupRest

namespace TargetGroup

def node : TargetGroup → Node
  | .mk node _ _ _ => node

def lefts : TargetGroup → List Target
  | .mk _ lefts _ _ => lefts

def rest : TargetGroup → Option GroupRest
  | .mk _ _ rest _ => rest

def rights : TargetGroup → List Target
  | .mk _ _ _ rights => rights

mutual

/-- The number of names that a group binds, those of inner groups included. -/
def bindingCount : TargetGroup → Nat
  | .mk _ lefts rest rights =>
    bindingCountList lefts + GroupRest.bindingCount rest + bindingCountList rights

def bindingCountList : List Target → Nat
  | [] => 0
  | target :: rest => bindingCountTarget target + bindingCountList rest

def bindingCountTarget : Target → Nat
  | .simple _ => 1
  | .group value => value.bindingCount

end

def simple (style : TargetStyle) (n : Node) : Result Node :=
  match style with
  | .parameter => n.expectKind [.DASGN, .LASGN]
  | .assignment =>
    if n.kind.isSimpleAssignment then pure n
    else if n.kind = .ATTRASGN then throw n.notSupported
    else throw (n.unexpected .assignmentTarget)

def listElements (list : Node) : Result (List Node) := do
  let list ← list.expectKind [.LIST]
  list.nodesFrom 0

/-- A target, given how an inner `MASGN` is taken apart. -/
def targetOf (inner : Node → Result TargetGroup) (style : TargetStyle) (element : Node) :
    Result Target :=
  if element.kind = .MASGN then do
    let group ← inner element
    pure (.group group)
  else do
    let node ← simple style element
    pure (.simple node)

def targetsOf (inner : Node → Result TargetGroup) (style : TargetStyle) :
    Option Node → Result (List Target)
  | none => pure []
  | some list => do
    let elements ← listElements list
    elements.mapM (targetOf inner style)

def restOf (style : TargetStyle) : Legacy.RestSlot → Result (Option GroupRest)
  | .absent => pure none
  | .anonymous => pure (some .anonymous)
  | .target node => do
    let node ← simple style node
    pure (some (.named node))

/-- The group of a `MASGN` no higher than the bound. -/
def ofNodeWithin : Nat → TargetStyle → Node → Result TargetGroup
  | 0, _, n => throw (n.unexpected .shallowerTree)
  | bound + 1, style, n => do
    let n ← n.expectKind [.MASGN]
    match ← n.shape with
    | .multiAssign _ head rest posts => do
      let lefts ← targetsOf (ofNodeWithin bound style) style head
      let rest ← restOf style rest
      let rights ← targetsOf (ofNodeWithin bound style) style posts
      pure (.mk n lefts rest rights)
    | _ => throw (n.unexpected (.kinds [.MASGN]))

def ofNode (style : TargetStyle) (n : Node) : Result TargetGroup := ofNodeWithin n.height style n

end TargetGroup

end RubyTree
