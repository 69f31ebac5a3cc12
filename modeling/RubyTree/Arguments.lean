import RubyTree.Legacy.Shape

/-! Argument lists. A call's arguments arrive as a flat list, or as a nest of a front with a splat or
one more argument behind it, with a block argument outermost. They are laid out here in source
order. -/

namespace RubyTree

open Legacy (Node)

/-- One argument. A splat keeps the node that wrapped it, which the tail of an `ARGSCAT` lacks; a
block argument keeps the node that passed it, and lacks a value when it forwards the block. -/
inductive Argument where
  | positional (node : Node)
  | splat (value : Node) (wrapper : Option Node)
  | block (value : Option Node) (pass : Node)

namespace Argument

def isSplat : Argument → Bool
  | .splat .. => true
  | _ => false

def ofElement (element : Node) : Result Argument := do
  match ← element.shape with
  | .wrapper (some value) =>
    if element.kind = .SPLAT then pure (.splat value (some element))
    else pure (.positional element)
  | _ => pure (.positional element)

/-- The arguments of a front, which may be absent, given how one is laid out. -/
def ofFront (inner : Node → Result (List Argument)) : Option Node → Result (List Argument)
  | none => pure []
  | some front => inner front

/-- The arguments of a node no higher than the bound. Only the outermost node may pass a block. -/
def ofNodeWithin : Nat → Bool → Node → Result (List Argument)
  | 0, _, n => throw (n.unexpected .shallowerTree)
  | bound + 1, outermost, n => do
    match ← n.shape with
    | .list elements => elements.mapM ofElement
    | .wrapper body =>
      if n.kind = .SPLAT then
        match body with
        | some value => pure [.splat value (some n)]
        | none => throw (n.unexpected .splatted)
      else throw (n.unexpected .argumentList)
    | .pair left right =>
      match n.kind with
      | .ARGSCAT => do
        let before ← ofFront (ofNodeWithin bound false) left
        match right with
        | none => throw (n.unexpected .splatTail)
        | some tail =>
          if tail.kind = .LIST then do
            let after ← ofNodeWithin bound false tail
            pure (before ++ after)
          else pure (before ++ [.splat tail none])
      | .ARGSPUSH => do
        let before ← ofFront (ofNodeWithin bound false) left
        match right with
        | none => throw (n.unexpected .pushedArgument)
        | some last => pure (before ++ [.positional last])
      | .BLOCK_PASS =>
        if outermost then do
          let before ← ofFront (ofNodeWithin bound false) left
          pure (before ++ [.block right n])
        else throw (n.unexpected .argumentList)
      | _ => throw (n.unexpected .argumentList)
    | _ => throw (n.unexpected .argumentList)

def ofNode (n : Node) : Result (List Argument) := ofNodeWithin n.height true n

def splatCount (arguments : List Argument) : Nat := arguments.countP isSplat

/-- Splits off the block argument, which is the last one if there is one. -/
def splitBlock : List Argument → List Argument × Option (Option Node × Node)
  | [] => ([], none)
  | [.block value pass] => ([], some (value, pass))
  | argument :: rest =>
    let (others, passed) := splitBlock rest
    (argument :: others, passed)

end Argument

end RubyTree
