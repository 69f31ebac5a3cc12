import RubyTree.Proofs.RescueReferences

/-! Variables by family. The kind of an assignment says which family of variables it writes to, and
each way of using a variable has a kind of tree for each family. Whatever is done with an
assignment, and with a read of its variable, the tree is of the same family, with the same name and
depth. -/

namespace RubyTree

open Legacy (Node Child)

namespace Canonical

inductive Family where
  | localVariable
  | instanceVariable
  | classVariable
  | globalVariable
  | constant
deriving DecidableEq

inductive Access where
  | read
  | write
  | target
  | andWrite
  | orWrite
deriving DecidableEq

namespace Family

def text : Family → String
  | localVariable => "LocalVariable"
  | instanceVariable => "InstanceVariable"
  | classVariable => "ClassVariable"
  | globalVariable => "GlobalVariable"
  | constant => "Constant"

/-- The legacy kinds that assign to a variable of the family. -/
def assignments : Family → List Legacy.Kind
  | localVariable => [.LASGN, .DASGN]
  | instanceVariable => [.IASGN]
  | classVariable => [.CVASGN]
  | globalVariable => [.GASGN]
  | constant => [.CDECL]

def reads : Family → List Legacy.Kind
  | localVariable => [.LVAR, .DVAR]
  | instanceVariable => [.IVAR]
  | classVariable => [.CVAR]
  | globalVariable => [.GVAR]
  | constant => [.CONST]

end Family

def Access.text : Access → String
  | read => "Read"
  | write => "Write"
  | target => "Target"
  | andWrite => "AndWrite"
  | orWrite => "OrWrite"

namespace Tree

def depth? : Tree → Option Nat
  | .mk _ fields _ => fields.get? Value.nat? "depth"

/-- The tree is the variant of a family for this access. A local has a depth, and what is written is
a value. -/
structure Accesses (t : Tree) (family : Family) (access : Access) (name : Name)
    (depth : Option Nat) (value : Option Tree) : Prop where
  variant : t.kind.variant = family.text ++ access.text
  name : t.name? = some name
  depth : t.depth? = depth
  value : t.tree? "value" = value

end Tree

namespace Variable

def family : Variable → Family
  | localVariable .. => .localVariable
  | instanceVariable _ => .instanceVariable
  | classVariable _ => .classVariable
  | globalVariable _ => .globalVariable
  | constant _ => .constant

def name : Variable → Name
  | localVariable name _ | instanceVariable name | classVariable name | globalVariable name
  | constant name => name

def depth? : Variable → Option Nat
  | localVariable _ depth => some depth
  | _ => none

variable (v : Variable) (value : Tree) (location : Span)

theorem read_accesses : (Tree.read location v).Accesses v.family .read v.name v.depth? none := by
  cases v <;> exact ⟨rfl, rfl, rfl, rfl⟩

theorem target_accesses :
    (Tree.target location v).Accesses v.family .target v.name v.depth? none := by
  cases v <;> exact ⟨rfl, rfl, rfl, rfl⟩

theorem write_accesses :
    (Tree.write value location v).Accesses v.family .write v.name v.depth? (some value) := by
  cases v <;> exact ⟨rfl, rfl, rfl, rfl⟩

theorem andWrite_accesses :
    (Tree.andWrite value location v).Accesses v.family .andWrite v.name v.depth? (some value) := by
  cases v <;> exact ⟨rfl, rfl, rfl, rfl⟩

theorem orWrite_accesses :
    (Tree.orWrite value location v).Accesses v.family .orWrite v.name v.depth? (some value) := by
  cases v <;> exact ⟨rfl, rfl, rfl, rfl⟩

end Variable

end Canonical

open Canonical (Tree Variable Family)

namespace Scope.Assigned

variable {scope : Scope} {name : Name} {kind : Legacy.Kind} {var : Variable}

theorem mem_assignments (h : scope.Assigned name kind var) : kind ∈ var.family.assignments := by
  cases h <;> simp [Variable.family, Family.assignments]

theorem name_eq (h : scope.Assigned name kind var) : var.name = name := by
  cases h <;> rfl

end Scope.Assigned

namespace Legacy.Node

variable {n : Node}

theorem shape_of_CDECL (hkind : n.kind = .CDECL) : n.shape = n.constAssignShape := by
  unfold Node.shape
  rw [hkind]

theorem shape_of_assignment (hkind : n.kind ∈ [.LASGN, .DASGN, .IASGN, .CVASGN, .GASGN, .CDECL])
    (hplain : n.kind = .CDECL → ∀ path, n.child 0 ≠ .node path) : n.shape = n.assignShape := by
  simp only [List.mem_cons, List.not_mem_nil, or_false] at hkind
  by_cases hconst : n.kind = .CDECL
  · rw [shape_of_CDECL hconst, constAssignShape]
    split
    · next path hpath => exact absurd hpath (hplain hconst path)
    · rfl
  · unfold Node.shape
    obtain hkind | hkind | hkind | hkind | hkind | hkind := hkind
    case inr.inr.inr.inr.inr => exact absurd hkind hconst
    all_goals rw [hkind]

theorem assignShape_eq_ok {shape : Legacy.Shape} (h : n.assignShape = .ok shape) :
    ∃ name value required, n.child 0 = .name name ∧ shape = .assign name value required := by
  obtain ⟨name, hname, h⟩ := bind_eq_ok_iff.mp h
  have hslot := name_eq_ok_iff.mp hname
  split at h
  · exact ⟨name, none, true, hslot, pure_eq_ok_iff.mp h⟩
  · obtain ⟨value, _, h⟩ := bind_eq_ok_iff.mp h
    exact ⟨name, value, false, hslot, pure_eq_ok_iff.mp h⟩

end Legacy.Node

namespace Context

variable {c : Context} {n : Node} {name : Name} {value : Option Node} {required : Bool}
  {location : Span} {var : Variable}

/-- The tree that an assignment becomes where it is a target: in a destructuring, as the variable of
a loop and as what a clause stores the exception in. -/
structure IsTarget (c : Context) (n : Node) (t : Tree) : Prop where
  destructured : c.target .assignment (.simple n) = .ok t
  index : ∀ args descriptor, descriptor.preInit = some n → descriptor.preCount = 1 →
    c.forIndex args descriptor = .ok t
  reference : bindsException n = true → ∀ body rest, body.sequence = .ok (n :: rest) →
    Yields (c.rescueBody (some body)) fun parts => parts.1 = some t

theorem isTarget_of_assignmentTarget (hkind : n.kind ≠ .MASGN) {t : Tree}
    (h : c.assignmentTarget n = .ok t) : c.IsTarget n t where
  destructured := by
    rw [target]
    exact h
  index args descriptor hinit hcount := by
    rw [forIndex, hinit]
    simp only [if_neg hkind, if_pos hcount, h]
  reference hbinds body rest hbody := by
    rw [rescueBody, hbody]
    change Yields (if bindsException n = true then _ else _) _
    rw [if_pos hbinds, h]
    change Yields (if rest.isEmpty = true then _ else _) _
    split
    · exact .pure rfl
    · exact .after fun retained _ => .after fun location _ => .pure rfl

theorem assignmentTarget_of_shape (hlocation : c.span n = .ok location)
    (hshape : n.shape = .ok (.assign name value required))
    (hvar : c.scope.Assigned name n.kind var) :
    c.assignmentTarget n = .ok (.target location var) := by
  rw [assignmentTarget, hlocation, hshape]
  simp only [bind, Except.bind, assigned?_eq_some_iff.mpr hvar]
  rfl

theorem conditionalWrite_of_shape {assignment inner : Node} {tree : Tree}
    (hshape : assignment.shape = .ok (.assign name (some inner) required))
    (hvar : c.scope.Assigned name assignment.kind var) (hvalue : c.node inner = .ok tree) :
    c.conditionalWrite n assignment location =
      if n.kind = .OP_ASGN_AND then .ok (.andWrite tree location var)
      else .ok (.orWrite tree location var) := by
  rw [conditionalWrite, hshape]
  simp only [bind, Except.bind, hvalue, assigned?_eq_some_iff.mpr hvar]
  rfl

theorem write_eq_ok {w : Tree} (h : c.write n name value location = .ok w) :
    ∃ inner tree var, value = some inner ∧ c.node inner = .ok tree ∧
      c.scope.Assigned name n.kind var ∧ w = .write tree location var := by
  obtain ⟨tree, htree, hwrite⟩ := bind_eq_ok_iff.mp h
  obtain ⟨inner, rfl⟩ : ∃ inner, value = some inner := by
    cases value with
    | none => cases htree
    | some inner => exact ⟨inner, rfl⟩
  cases hvar : c.assigned? n.kind name with
  | none =>
    rw [hvar] at hwrite
    cases hwrite
  | some var =>
    rw [hvar] at hwrite
    exact ⟨inner, tree, var, rfl, htree, assigned?_eq_some_iff.mp hvar, pure_eq_ok_iff.mp hwrite⟩

theorem read_of_mem_reads {kind : Legacy.Kind} (hvar : c.scope.Assigned name kind var)
    (hn : n.kind ∈ var.family.reads) : c.read n name location = .ok (.read location var) := by
  cases hvar with
  | outer | inner =>
    obtain hn | hn : n.kind = .LVAR ∨ n.kind = .DVAR := by
      simpa [Variable.family, Family.reads] using hn
    · rw [read, hn]
      rfl
    · rw [read, hn]
      rfl
  | _ =>
    have hn := List.mem_singleton.mp hn
    rw [read, hn]
    rfl

end Context

namespace Legacy.Node

variable {lines : LineTable} {options : Options} {scope : Scope} {n : Node} {w : Tree}

theorem convert_assignment (hkind : n.kind ∈ [.LASGN, .DASGN, .IASGN, .CVASGN, .GASGN, .CDECL])
    (hplain : n.kind = .CDECL → ∀ path, n.child 0 ≠ .node path)
    (h : n.convert lines options scope none = .ok w) :
    ∃ location name inner tree var, lines.span n = .ok location ∧ n.child 0 = .name name ∧
      n.shape = .ok (.assign name (some inner) false) ∧
      inner.convert lines options scope none = .ok tree ∧ scope.Assigned name n.kind var ∧
      w = .write tree location var := by
  obtain ⟨_, shape, _, hshape⟩ := exists_shape_of_convert h
  obtain ⟨location, hlocation, h⟩ := (convert_eq_ok_iff hshape).mp h
  have hassign := (shape_of_assignment hkind hplain).symm.trans hshape
  obtain ⟨name, value, required, hname, rfl⟩ := assignShape_eq_ok hassign
  simp only [Context.shaped] at h
  cases required with
  | true => cases h
  | false =>
    obtain ⟨inner, tree, var, rfl, htree, hvar, rfl⟩ := Context.write_eq_ok h
    exact ⟨location, name, inner, tree, var, hlocation, hname, hshape, htree, hvar, rfl⟩

theorem shape_of_OP_ASGN {read : Node} {operator : Child} {assignment : Node}
    (hkind : n.kind = .OP_ASGN_AND ∨ n.kind = .OP_ASGN_OR)
    (hchildren : n.children = [.node read, operator, .node assignment]) :
    n.shape = .ok (.conditionalAssign read assignment) := by
  have hfirst : n.node 0 = .ok read := node_eq_ok_iff.mpr (by rw [Node.child, hchildren]; rfl)
  have hthird : n.node 2 = .ok assignment := node_eq_ok_iff.mpr (by rw [Node.child, hchildren]; rfl)
  unfold Node.shape
  obtain hkind | hkind := hkind
  all_goals
    rw [hkind]
    simp only [hfirst, hthird]
    rfl

theorem shape_of_reads {family : Family} {name : Name} (hkind : n.kind ∈ family.reads)
    (hname : n.child 0 = .name name) : n.shape = .ok (.variableName name) := by
  have hslot := name_eq_ok_iff.mpr hname
  have hall : ∀ kind ∈ family.reads, kind ∈ [.LVAR, .DVAR, .IVAR, .CVAR, .GVAR, .CONST] := by
    cases family <;> decide
  have hkinds := hall n.kind hkind
  simp only [List.mem_cons, List.not_mem_nil, or_false] at hkinds
  unfold Node.shape
  obtain hkind | hkind | hkind | hkind | hkind | hkind := hkinds
  all_goals
    rw [hkind]
    simp only [hslot]
    rfl

/-- An assignment to a plain name writes to a variable of the family of its kind. A conditional
assignment around it writes the same value to the same variable, as a target it stands for that
variable, and what reads the name reads it. -/
theorem convert_families (hkind : n.kind ∈ [.LASGN, .DASGN, .IASGN, .CVASGN, .GASGN, .CDECL])
    (hplain : n.kind = .CDECL → ∀ path, n.child 0 ≠ .node path)
    (h : n.convert lines options scope none = .ok w) :
    ∃ family name depth value, n.kind ∈ Family.assignments family ∧
      w.Accesses family .write name depth (some value) ∧
      (∀ (outer read : Node) (operator : Child) (location : Span), outer.kind = .OP_ASGN_AND →
        outer.children = [.node read, operator, .node n] → lines.span outer = .ok location →
          Returns (outer.convert lines options scope none)
            (·.Accesses family .andWrite name depth (some value))) ∧
      (∀ (outer read : Node) (operator : Child) (location : Span), outer.kind = .OP_ASGN_OR →
        outer.children = [.node read, operator, .node n] → lines.span outer = .ok location →
          Returns (outer.convert lines options scope none)
            (·.Accesses family .orWrite name depth (some value))) ∧
      (∃ target, (Context.whole lines options scope).IsTarget n target ∧
        target.Accesses family .target name depth none) ∧
      ∀ (read : Node) (location : Span), read.kind ∈ family.reads → read.child 0 = .name name →
        lines.span read = .ok location →
          Returns (read.convert lines options scope none)
            (·.Accesses family .read name depth none) := by
  obtain ⟨location, name, inner, tree, var, hlocation, _, hshape, htree, hvar, rfl⟩ :=
    convert_assignment hkind hplain h
  have hnot : n.kind ≠ .MASGN := by
    intro hmasgn
    rw [hmasgn] at hkind
    revert hkind
    decide
  have hvalue : (Context.whole lines options scope).node inner = .ok tree := htree
  have htarget : (Context.whole lines options scope).assignmentTarget n =
      .ok (.target location var) := Context.assignmentTarget_of_shape hlocation hshape hvar
  refine ⟨var.family, name, var.depth?, tree, hvar.mem_assignments, ?_, ?_, ?_, ?_, ?_⟩
  · exact hvar.name_eq ▸ var.write_accesses tree location
  · intro outer read operator place houter hchildren hplace
    refine ⟨.andWrite tree place var, ?_, hvar.name_eq ▸ var.andWrite_accesses tree place⟩
    refine (convert_eq_ok_iff (shape_of_OP_ASGN (.inl houter) hchildren)).mpr ⟨place, hplace, ?_⟩
    exact (Context.conditionalWrite_of_shape hshape hvar hvalue).trans (if_pos houter)
  · intro outer read operator place houter hchildren hplace
    have hor : ¬outer.kind = .OP_ASGN_AND := by simp [houter]
    refine ⟨.orWrite tree place var, ?_, hvar.name_eq ▸ var.orWrite_accesses tree place⟩
    refine (convert_eq_ok_iff (shape_of_OP_ASGN (.inr houter) hchildren)).mpr ⟨place, hplace, ?_⟩
    exact (Context.conditionalWrite_of_shape hshape hvar hvalue).trans (if_neg hor)
  · exact ⟨.target location var, Context.isTarget_of_assignmentTarget hnot htarget,
      hvar.name_eq ▸ var.target_accesses location⟩
  · intro read place hread hname hplace
    refine ⟨.read place var, ?_, hvar.name_eq ▸ var.read_accesses place⟩
    refine (convert_eq_ok_iff (shape_of_reads hread hname)).mpr ⟨place, hplace, ?_⟩
    exact Context.read_of_mem_reads hvar hread

/-- `x = y` in a block, where `x` is a local of the scope around it. -/
def blockAssignment : Node :=
  Build.assign .DASGN ⟨"x"⟩ (some (Build.named .VCALL ⟨"y"⟩ default)) default

theorem convert_families_blockAssignment :
    let scope : Scope := [[], [some ⟨"x"⟩]]
    let read := Build.named .DVAR ⟨"x"⟩ default
    let outer := Node.mk .OP_ASGN_OR [.node read, .name ⟨"||"⟩, .node blockAssignment] default
    ∃ w value, blockAssignment.convert ⟨[], 0⟩ {} scope none = .ok w ∧
      w.Accesses .localVariable .write ⟨"x"⟩ (some 1) (some value) ∧
      Returns (outer.convert ⟨[], 0⟩ {} scope none)
        (·.Accesses .localVariable .orWrite ⟨"x"⟩ (some 1) (some value)) ∧
      (∃ target, (Context.whole ⟨[], 0⟩ {} scope).IsTarget blockAssignment target ∧
        target.Accesses .localVariable .target ⟨"x"⟩ (some 1) none) ∧
      Returns (read.convert ⟨[], 0⟩ {} scope none)
        (·.Accesses .localVariable .read ⟨"x"⟩ (some 1) none) := by
  intro scope read outer
  obtain ⟨w, hw, hname, hdepth⟩ : ∃ w, blockAssignment.convert ⟨[], 0⟩ {} scope none = .ok w ∧
    w.name? = some ⟨"x"⟩ ∧ w.depth? = some 1 := ⟨_, rfl, rfl, rfl⟩
  obtain ⟨family, name, depth, value, hfamily, hwrite, _, hor, htarget, hread⟩ :=
    convert_families (by decide) (fun h => absurd h (by decide)) hw
  obtain rfl : family = .localVariable := by
    revert hfamily
    cases family <;> decide
  cases hname.symm.trans hwrite.name
  cases hdepth.symm.trans hwrite.depth
  exact ⟨w, value, hw, hwrite, hor outer read _ .null rfl rfl rfl, htarget,
    hread read .null (by decide) rfl rfl⟩

end Legacy.Node

end RubyTree
