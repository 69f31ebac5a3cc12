import RubyTree.Proofs.BlockAttachment

/-! Constants inside a scope, as the targets of writes. A path is checked where it names a class or
stands among the targets of a destructuring. It is not checked under a plain or a conditional write,
whose target is whatever the path is converted to. -/

namespace RubyTree

open Canonical (Tree)
open Legacy (Node)

namespace Context

variable {c : Context} {n : Node}

/-! Where a path is checked. -/

theorem pathParent_of_kind {path : Node} (hkind : path.kind ∉ [.COLON2, .COLON3]) :
    c.pathParent path = path.shape >>= fun _ =>
      throw (path.unexpected (.kinds [.COLON2, .COLON3])) := by
  refine Yields.bind_congr Legacy.Node.kind_mem_kinds fun shape hshape => ?_
  cases shape with
  | colon => exact absurd hshape hkind
  | _ => rfl

theorem definitionPath_of_kind {path : Node} (hkind : path.kind ∉ [.COLON2, .COLON3]) :
    c.definitionPath path = path.shape >>= fun _ =>
      throw (path.unexpected (.kinds [.COLON2, .COLON3])) := by
  refine Yields.bind_congr Legacy.Node.kind_mem_kinds fun shape hshape => ?_
  cases shape with
  | colon => exact absurd hshape hkind
  | _ => rfl

theorem assignmentTarget_of_kind {path : Node} {name : Name} {value : Option Node}
    (hshape : n.shape = .ok (.constPathAssign path name value))
    (hkind : path.kind ∉ [.COLON2, .COLON3]) :
    c.assignmentTarget n = c.span n >>= fun _ => path.shape >>= fun _ =>
      throw (path.unexpected (.kinds [.COLON2, .COLON3])) := by
  rw [assignmentTarget, hshape]
  congr 1
  funext location
  change (c.pathParent path >>= fun parent => _) = _
  rw [pathParent_of_kind hkind, bind_assoc]
  rfl

end Context

namespace Legacy.Node

variable {lines : LineTable} {options : Options} {scope : Scope} {n root : Node} {t : Tree}

/-- The slot of a path that holds the name of the constant. -/
def constantSlot (n : Node) : Nat := if n.kind = .COLON3 then 0 else 1

theorem shape_of_path (hkind : n.kind ∈ [.COLON2, .COLON3]) {shape : Legacy.Shape}
    (h : n.shape = .ok shape) :
    ∃ parent name, shape = .colon parent name ∧ n.child n.constantSlot = .name name := by
  unfold Node.shape at h
  simp only [List.mem_cons, List.not_mem_nil, or_false] at hkind
  obtain hkind | hkind := hkind
  · rw [hkind] at h
    obtain ⟨parent, _, name, hname, h⟩ := by
      simpa only [bind_eq_ok_iff, pure_eq_ok_iff] using h
    refine ⟨parent, name, h, ?_⟩
    simpa [constantSlot, hkind] using name_eq_ok_iff.mp hname
  · rw [hkind] at h
    obtain ⟨name, hname, h⟩ := by
      simpa only [bind_eq_ok_iff, pure_eq_ok_iff] using h
    refine ⟨none, name, h, ?_⟩
    simpa [constantSlot, hkind] using name_eq_ok_iff.mp hname

theorem kind_eq_constantPathNode_iff (h : n.convert lines options scope none = .ok t) :
    t.kind = .constantPathNode ↔ n.kind ∈ [.COLON2, .COLON3] := by
  have hform : t.kind ∈ n.kind.forms := convert_kind t h
  constructor
  · intro hkind
    rw [hkind] at hform
    exact Kind.constantPathNode_mem_forms_iff.mp hform
  · intro hkind
    rw [Kind.forms_of_path hkind] at hform
    exact List.mem_singleton.mp hform

theorem name?_of_path (hkind : n.kind ∈ [.COLON2, .COLON3])
    (h : n.convert lines options scope none = .ok t) {name : Name} :
    t.name? = some name ↔ n.child n.constantSlot = .name name := by
  rw [convert_unfold] at h
  obtain ⟨location, shape, hshape, hshaped, _⟩ := Context.step_eq_ok h
  obtain ⟨parent, own, rfl, hown⟩ := shape_of_path hkind hshape
  obtain ⟨tree, _, ht⟩ := bind_eq_ok_iff.mp hshaped
  cases ht
  rw [hown]
  exact Option.some_inj.trans ⟨congrArg _, Child.name.inj⟩

/-- Every write to a constant inside a scope comes from a node that asks for it. Its target is what
the path of the node is converted to: a constant path exactly if the path is one, and then with the
name that the path gives. A path of another kind is refused only as the path of a class or module
and under a target of a destructuring. -/
theorem program_pathWrites (h : root.program lines options = .ok t) :
    (∀ u, t.Contains u → u.kind.writesPath = true → ∃ n path target scope, root.Contains n ∧
      n.WritesPath path target u ∧ path.convert lines options scope none = .ok target ∧
      (target.kind = .constantPathNode ↔ path.kind ∈ [.COLON2, .COLON3]) ∧
      (path.kind ∈ [.COLON2, .COLON3] → ∀ name,
        target.name? = some name ↔ path.child path.constantSlot = .name name)) ∧
    ∀ (n path : Node) (name : Name) (value : Option Node) (scope : Scope),
      n.shape = .ok (.constPathAssign path name value) → path.kind ∉ [.COLON2, .COLON3] →
        ((Context.whole lines options scope).assignmentTarget n =
          lines.span n >>= fun _ => path.shape >>= fun _ =>
            throw (path.unexpected (.kinds [.COLON2, .COLON3]))) ∧
        (Context.whole lines options scope).definitionPath path =
          path.shape >>= fun _ => throw (path.unexpected (.kinds [.COLON2, .COLON3])) := by
  constructor
  · intro u hu hkind
    obtain ⟨n, path, target, scope, hn, hwrites, hpath⟩ :=
      (program_formed [] t h).pathWritten hu hkind
    exact ⟨n, path, target, scope, hn, hwrites, hpath, kind_eq_constantPathNode_iff hpath,
      fun hkind name => name?_of_path hkind hpath⟩
  · intro n path name value scope hshape hkind
    exact ⟨Context.assignmentTarget_of_kind hshape hkind, Context.definitionPath_of_kind hkind⟩

def only (statement : Node) : Node := Build.scope (.table []) none (some statement) default

/-- `path = nil`, where the assignment gives the constant this name. -/
def pathAssignment (path : Node) (name : Name) : Node :=
  .make .CDECL [.node path, .name name, .node (.make .NIL [] default)] default

/-- `A::B`. -/
def pathToB : Node :=
  .make .COLON2 [.node (Build.named .CONST ⟨"A"⟩ default), .name ⟨"B"⟩] default

theorem program_pathWrites_pathToB :
    ∃ t target value location n path scope,
      (only (pathAssignment pathToB ⟨"B"⟩)).program ⟨[], 0⟩ {} = .ok t ∧
      t.Contains (.constantPathWrite target value location) ∧
      (only (pathAssignment pathToB ⟨"B"⟩)).Contains n ∧
      n.WritesPath path target (.constantPathWrite target value location) ∧
      path.convert ⟨[], 0⟩ {} scope none = .ok target ∧ target.kind = .constantPathNode ∧
      path.kind ∈ [.COLON2, .COLON3] ∧ target.name? = some ⟨"B"⟩ ∧
      path.child path.constantSlot = .name ⟨"B"⟩ := by
  obtain ⟨t, parent, value, place, location, ht, hu⟩ : ∃ t parent value place location,
      (only (pathAssignment pathToB ⟨"B"⟩)).program ⟨[], 0⟩ {} = .ok t ∧
        t.Contains (.constantPathWrite (.constantPath parent ⟨"B"⟩ place) value location) :=
    ⟨_, _, _, _, _, rfl, .child (.child .root (.inr (.inl ⟨rfl, rfl⟩))) (.inl ⟨rfl, .head _⟩)⟩
  obtain ⟨n, path, target, scope, hn, hwrites, hpath, hkind, hname⟩ :=
    (program_pathWrites ht).1 _ hu rfl
  obtain rfl := Option.some.inj hwrites.target
  have hpathKind := hkind.mp rfl
  exact ⟨t, _, value, location, n, path, scope, ht, hu, hn, hwrites, hpath, rfl, hpathKind, rfl,
    (hname hpathKind ⟨"B"⟩).mp rfl⟩

/-- A write takes a path of any kind, and the name from the path if both give one. -/
theorem program_of_unchecked_paths :
    let call := Build.named .VCALL ⟨"foo"⟩ default
    let update := Node.make .OP_CDECL
      [.node call, .name ⟨"||"⟩, .node (.make .NIL [] default)] default
    ∃ t t' t'' target target' value location,
      (only (pathAssignment call ⟨"B"⟩)).program ⟨[], 0⟩ {} = .ok t ∧
      t.Contains (.constantPathWrite target value location) ∧
      (only update).program ⟨[], 0⟩ {} = .ok t' ∧
      t'.Contains (.constantPathOpWrite ⟨"||"⟩ target value location) ∧ target.kind = .callNode ∧
      (only (pathAssignment pathToB ⟨"C"⟩)).program ⟨[], 0⟩ {} = .ok t'' ∧
      t''.Contains (.constantPathWrite target' value location) ∧ target'.name? = some ⟨"B"⟩ :=
  ⟨_, _, _, _, _, _, _, rfl, .child (.child .root (.inr (.inl ⟨rfl, rfl⟩))) (.inl ⟨rfl, .head _⟩),
    rfl, .child (.child .root (.inr (.inl ⟨rfl, rfl⟩))) (.inl ⟨rfl, .head _⟩), rfl, rfl,
    .child (.child .root (.inr (.inl ⟨rfl, rfl⟩))) (.inl ⟨rfl, .head _⟩), rfl⟩

end Legacy.Node

end RubyTree
