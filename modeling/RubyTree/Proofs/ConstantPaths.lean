import RubyTree.Proofs.Frames

/-! Writes to constants inside a scope. The target of such a write is converted from the path of a
legacy node; the name that the node itself gives the constant is not kept. -/

namespace RubyTree

open Canonical (Tree)
open Legacy (Node)

def Canonical.Kind.writesPath : Canonical.Kind → Bool
  | constantPathWriteNode | constantPathAndWriteNode | constantPathOrWriteNode
  | constantPathOperatorWriteNode => true
  | _ => false

/-- The node asks for a write to this path; given the target, the tree is such a write. -/
inductive Legacy.Node.WritesPath (n path : Node) (target : Tree) : Tree → Prop where
  | assign {name : Name} {value : Option Node} {tree : Tree} {location : Span}
      (hshape : n.shape = .ok (.constPathAssign path name value)) :
      WritesPath n path target (.constantPathWrite target tree location)
  | operator {operator : Name} {value : Node} {tree : Tree} {location : Span}
      (hshape : n.shape = .ok (.constOpAssign path operator value)) :
      WritesPath n path target (.constantPathOpWrite operator target tree location)

theorem Legacy.Node.WritesPath.target {n path : Node} {target t : Tree}
    (h : n.WritesPath path target t) : t.tree? "target" = some target := by
  cases h with
  | assign => rfl
  | operator =>
    unfold Tree.constantPathOpWrite
    split
    · rfl
    · split <;> rfl

namespace Canonical

/-- A write to a constant inside a scope comes from a node of the legacy tree, and its target from
the path of that node. -/
def Tree.PathWritten (run : Run) (t : Tree) : Prop :=
  t.kind.writesPath = true → ∃ (n path : Node) (target : Tree) (scope : Scope),
    run.root.Contains n ∧ n.WritesPath path target t ∧
      path.convert run.lines run.options scope none = .ok target

section

variable {run : Run} {kind : Kind} {fields : Fields kind.fields} {location : Span}

theorem pathWritten_of_not_writesPath (h : kind.writesPath = false) :
    (Tree.mk kind fields location).PathWritten run := by
  intro hwrites
  rw [Tree.kind, h] at hwrites
  cases hwrites

theorem withLocation_constantPathOpWrite (operator : Name) (target value : Tree) (place : Span) :
    (Tree.constantPathOpWrite operator target value place).withLocation location =
      .constantPathOpWrite operator target value location := by
  unfold Tree.constantPathOpWrite
  split
  · rfl
  · split <;> rfl

theorem Tree.PathWritten.withLocation {t : Tree} (h : t.PathWritten run) :
    (t.withLocation location).PathWritten run := by
  intro hkind
  have hkind : t.kind.writesPath = true := by
    cases t
    exact hkind
  obtain ⟨n, path, target, scope, hn, hwrites, hpath⟩ := h hkind
  refine ⟨n, path, target, scope, hn, ?_, hpath⟩
  cases hwrites with
  | assign hshape => exact .assign hshape
  | operator hshape =>
    rw [withLocation_constantPathOpWrite]
    exact .operator hshape

end

end Canonical

end RubyTree
