import RubyTree.Conversion
import RubyTree.Proofs.Descent
import RubyTree.Proofs.Everywhere

/-! The frames of names that a node of a canonical tree can see, the innermost first. They are read
off the `locals` of the nodes around it; only an `END` block, which keeps no locals, takes its frame
from the node that it was converted from. -/

namespace RubyTree

open Legacy (Node Table)

abbrev Canonical.Frames := List (List Name)

def Scope.frames (scope : Scope) : Canonical.Frames := scope.map Parameters.names

namespace Canonical

namespace Kind

def refersToLocal : Kind → Bool
  | localVariableReadNode | localVariableWriteNode | localVariableTargetNode
  | localVariableAndWriteNode | localVariableOrWriteNode | localVariableOperatorWriteNode => true
  | _ => false

def opensFrame : Kind → Bool
  | programNode | blockNode | lambdaNode | defNode | classNode | moduleNode | singletonClassNode
  | postExecutionNode => true
  | _ => false

end Kind

namespace Tree

def locals : Tree → List Name
  | .mk _ fields _ => (fields.get? Value.names? "locals").getD []

def localReference? : Tree → Option (Name × Nat)
  | .mk _ fields _ => do
    let name ← fields.get? Value.name? "name"
    let depth ← fields.get? Value.nat? "depth"
    pure (name, depth)

end Tree

structure Run where
  lines : LineTable
  options : Options
  root : Node

/-- The tree is what an `END` block of the legacy tree is converted to inside these frames, and the
scope of that block has this table. -/
def Run.Ends (run : Run) (frames : Frames) (t : Tree) (table : Table) : Prop :=
  ∃ (n scope : Node) (chain : Scope) (args body : Option Node),
    run.root.Contains n ∧ n.kind = .POSTEXE ∧ n.shape = .ok (.wrapper (some scope)) ∧
      scope.scopeParts = .ok (table, args, body) ∧ chain.frames = frames ∧
      n.convert run.lines run.options chain none = .ok t

namespace Frames

/-- The depth is the index of the first frame with the name, and zero if there is none. -/
def Resolves (frames : Frames) (name : Name) (depth : Nat) : Prop :=
  (∃ frame, frames[depth]? = some frame ∧ name ∈ frame ∧
      ∀ inner ∈ frames.take depth, name ∉ inner) ∨
    depth = 0 ∧ ∀ frame ∈ frames, name ∉ frame

/-- The frames that the children of a node see, by the label of the child. A block sees the frames
around it, while a method, class or module starts afresh; the receiver of a method and the path or
the superclass of a class still stand outside. -/
def inside (frames : Frames) (t : Tree) (label : String) : Frames :=
  match t.kind with
  | .programNode => [t.locals]
  | .blockNode | .lambdaNode => t.locals :: frames
  | .defNode => if label = "receiver" then frames else [t.locals]
  | .classNode | .moduleNode | .singletonClassNode =>
    if label = "body" then [t.locals] else frames
  | _ => frames

def Enters (run : Run) (frames : Frames) (t : Tree) (label : String) (inner : Frames) : Prop :=
  if t.kind = .postExecutionNode then
    ∃ table, run.Ends frames t table ∧ inner = Parameters.names table :: frames
  else inner = frames.inside t label

def Passes (frames : Frames) (t : Tree) : Prop :=
  t.kind.refersToLocal = true → ∃ name depth, t.localReference? = some (name, depth) ∧
    frames.Resolves name depth ∧ depth < frames.length

section

variable {frames : Frames} {kind : Kind} {fields : Fields kind.fields} {location : Span}

theorem passes_of_not_refersToLocal (h : kind.refersToLocal = false) :
    frames.Passes (.mk kind fields location) := by
  intro hrefers
  rw [Tree.kind, h] at hrefers
  cases hrefers

theorem inside_of_not_opensFrame (h : kind.opensFrame = false) {label : String} :
    frames.inside (.mk kind fields location) label = frames := by
  cases kind <;> first | rfl | cases h

end

end Frames

/-- Every reference to a local resolves in the frames that it can see. -/
def Tree.Scoped (run : Run) (t : Tree) : Prop := t.Every (Frames.Enters run) Frames.Passes []

end Canonical

namespace Scope

@[simp] theorem declares_iff {table : Table} {name : Name} :
    declares table name = true ↔ name ∈ Parameters.names table := by
  simp [declares, Parameters.names]

theorem resolves_depth (scope : Scope) (name : Name) :
    scope.frames.Resolves name (scope.depth name) := by
  unfold depth
  cases h : scope.findIdx? (declares · name) with
  | none =>
    refine .inr ⟨rfl, ?_⟩
    simp only [List.findIdx?_eq_none_iff] at h
    intro frame hframe
    obtain ⟨table, htable, rfl⟩ := List.mem_map.mp hframe
    intro hname
    simpa [declares_iff.mpr hname] using h table htable
  | some i =>
    obtain ⟨hi, hfound, hbefore⟩ := List.findIdx?_eq_some_iff_getElem.mp h
    refine .inl ⟨Parameters.names scope[i], ?_, declares_iff.mp hfound, ?_⟩
    · simp [frames, hi]
    · intro inner hinner hname
      obtain ⟨j, hj, rfl⟩ := List.mem_iff_getElem.mp hinner
      simp only [frames, Option.getD_some, List.length_take, List.length_map] at hj
      refine hbefore j (by omega) ?_
      simpa [frames, ← declares_iff] using hname

theorem depth_lt_length {scope : Scope} (h : scope ≠ []) (name : Name) :
    scope.depth name < scope.length := by
  unfold depth
  cases hi : scope.findIdx? (declares · name) with
  | none => exact List.length_pos_iff.mpr h
  | some i => exact (List.findIdx?_eq_some_iff_getElem.mp hi).1

end Scope

end RubyTree
