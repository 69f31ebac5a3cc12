import RubyTree.Proofs.Programs

/-! A block literal travels through the conversion of the call that it is attached to. Nothing of
the call is read differently on its account, so it can as well be put in afterwards. -/

namespace RubyTree

open Canonical
open Legacy (Node)

namespace Canonical

def Value.putTree (tree : Tree) : {sort : FieldSort} → Value sort → Value sort
  | _, .optTree _ => .optTree (some tree)
  | _, value => value

def Fields.putTree (label : String) (tree : Tree) :
    {fields : List Field} → Fields fields → Fields fields
  | _, .nil => .nil
  | field :: _, .cons value values =>
    .cons (if field.label = label then value.putTree tree else value) (values.putTree label tree)

namespace Tree

def withBlock : Tree → Tree → Tree
  | .mk kind fields location, block => .mk kind (fields.putTree "block" block) location

variable (block : Tree)

@[simp] theorem withBlock_call (flags : Flags) (receiver : Option Tree) (name : Name)
    (message : Span) (arguments passed : Option Tree) (location : Span) :
    (call flags receiver name message arguments passed location).withBlock block =
      call flags receiver name message arguments (some block) location := by
  simp [call, withBlock, Fields.putTree, Value.putTree]

@[simp] theorem withBlock_super (arguments passed : Option Tree) (location : Span) :
    (super arguments passed location).withBlock block = super arguments (some block) location := by
  simp [super, withBlock, Fields.putTree, Value.putTree]

@[simp] theorem withBlock_forwardingSuper (passed : Option Tree) (location : Span) :
    (forwardingSuper passed location).withBlock block =
      forwardingSuper (some block) location := by
  simp [forwardingSuper, withBlock, Fields.putTree, Value.putTree]

end Tree

end Canonical

/-- The calls, each of which a block literal can be attached to. -/
def Legacy.Kind.calls : List Legacy.Kind :=
  [.CALL, .OPCALL, .QCALL, .FCALL, .VCALL, .SUPER, .ZSUPER]

theorem Legacy.Kind.takesBlock_eq_true_iff {kind : Legacy.Kind} :
    kind.takesBlock = true ↔ kind ∈ calls := by
  cases kind <;> simp [takesBlock, calls]

namespace Legacy.Node

theorem shape_of_ITER {n call inner : Node} (hkind : n.kind = .ITER)
    (hcall : n.child 0 = .node call) (hinner : n.child 1 = .node inner) :
    n.shape = .ok (.iter call inner) := by
  have hnode := node_eq_ok_iff.mpr hcall
  have hscope := node_eq_ok_iff.mpr hinner
  simp [shape, hkind, hnode, hscope, bind, Except.bind, pure, Except.pure]

theorem shape_of_takesBlock {n : Node} (h : n.kind.takesBlock = true) :
    Yields n.shape fun shape => (∃ receiver name args, shape = .call receiver name args) ∨
      (∃ args, shape = .invoke args) ∨ shape = .leaf := by
  unfold shape
  cases hkind : n.kind with
  | CALL | OPCALL | QCALL =>
    exact .after fun _ _ => .after fun _ _ => .after fun _ _ => .pure (.inl ⟨_, _, _, rfl⟩)
  | FCALL => exact .after fun _ _ => .after fun _ _ => .pure (.inl ⟨_, _, _, rfl⟩)
  | VCALL => exact .after fun _ _ => .pure (.inl ⟨_, _, _, rfl⟩)
  | SUPER => exact .after fun _ _ => .pure (.inr (.inl ⟨_, rfl⟩))
  | ZSUPER => exact .pure (.inr (.inr rfl))
  | _ =>
    rw [hkind] at h
    cases h

/-- Of the kinds that share a shape with `super` or with `super` without arguments, only these two
take a block. -/
theorem callShape {n : Node} {shape : Legacy.Shape} (hkind : n.kind.takesBlock = true)
    (h : n.shape = .ok shape) :
    (∃ receiver name args, shape = .call receiver name args) ∨
      (∃ args, shape = .invoke args ∧ n.kind = .SUPER) ∨ shape = .leaf ∧ n.kind = .ZSUPER := by
  have hkinds := kind_mem_kinds _ h
  obtain hcall | ⟨args, rfl⟩ | rfl := shape_of_takesBlock hkind shape h
  · exact .inl hcall
  · have hsuper : n.kind = .SUPER := by
      cases hn : n.kind <;> simp_all [Legacy.Shape.kinds, Legacy.Kind.takesBlock]
    exact .inr (.inl ⟨args, rfl, hsuper⟩)
  · have hzsuper : n.kind = .ZSUPER := by
      cases hn : n.kind <;> simp_all [Legacy.Shape.kinds, Legacy.Kind.takesBlock]
    exact .inr (.inr ⟨rfl, hzsuper⟩)

end Legacy.Node

namespace Context

variable (c : Context) {n : Node} {block : Tree} {pending : Option Tree} {location : Span}

theorem call_withBlock (n : Node) (receiver : Option Node) (name : Name) (args : Option Node) :
    c.call n receiver name args (some block) location =
      (·.withBlock block) <$> c.call n receiver name args none location := by
  simp [call, map_bind]

theorem invoke_withBlock (hkind : n.kind = .SUPER) (args : Option Node) :
    c.invoke n args (some block) location =
      (·.withBlock block) <$> c.invoke n args none location := by
  simp [invoke, hkind]

theorem leaf_withBlock (hkind : n.kind = .ZSUPER) :
    leaf n (some block) location = (·.withBlock block) <$> leaf n none location := by
  simp [leaf, hkind]

theorem step_withBlock (hkind : n.kind.takesBlock = true) :
    c.step n (some block) = (·.withBlock block) <$> c.step n none := by
  have hsome : ¬((some block).isSome && !n.kind.takesBlock) = true := by simp [hkind]
  have hnone : ¬((none : Option Tree).isSome && !n.kind.takesBlock) = true := by simp
  rw [step, step, if_neg hsome, if_neg hnone, map_bind]
  congr 1
  funext location
  rw [map_bind]
  have hshape : Yields n.shape (n.shape = .ok ·) := fun shape h => h
  apply hshape.bind_congr
  intro shape h
  obtain ⟨receiver, name, args, rfl⟩ | ⟨args, rfl, hsuper⟩ | ⟨rfl, hzsuper⟩ :=
    Legacy.Node.callShape hkind h
  · exact c.call_withBlock n receiver name args
  · exact c.invoke_withBlock hsuper args
  · exact leaf_withBlock hzsuper

end Context

namespace Legacy.Node

variable {lines : LineTable} {options : Options} {scope : Scope} {n : Node}

theorem convert_some_of_takesBlock (hkind : n.kind.takesBlock = true) (block : Tree) :
    n.convert lines options scope (some block) =
      (·.withBlock block) <$> n.convert lines options scope none := by
  rw [convert_unfold, convert_unfold]
  exact Context.step_withBlock _ hkind

theorem convert_some_of_not_takesBlock (hkind : n.kind.takesBlock = false) (block : Tree) :
    n.convert lines options scope (some block) = .error (n.unexpected .blockCall) := by
  rw [convert_unfold, Context.step, if_pos (by simp [hkind])]
  rfl

theorem convert_some_eq_ok_iff {block t : Tree} :
    n.convert lines options scope (some block) = .ok t ↔
      n.kind.takesBlock = true ∧
        ∃ tree, n.convert lines options scope none = .ok tree ∧ t = tree.withBlock block := by
  cases hkind : n.kind.takesBlock with
  | true =>
    rw [convert_some_of_takesBlock hkind, map_eq_pure_bind, bind_eq_ok_iff]
    simp [pure_eq_ok_iff]
  | false => simp [convert_some_of_not_takesBlock hkind]

/-- Attaching a block literal to a call replaces the block of its tree, and nothing else takes one.
So an `ITER` is the call in it with that block, at its own location. -/
theorem convert_withBlock (lines : LineTable) (options : Options) (scope : Scope) :
    (∀ (n : Node) (block : Tree), n.kind ∈ Kind.calls →
        n.convert lines options scope (some block) =
            (·.withBlock block) <$> n.convert lines options scope none ∧
          ∀ t, n.convert lines options scope none = .ok t →
            t.kind ∈ [.callNode, .superNode, .forwardingSuperNode]) ∧
      (∀ (n : Node) (block : Tree), n.kind ∉ Kind.calls →
        n.convert lines options scope (some block) = .error (n.unexpected .blockCall)) ∧
      ∀ (n call inner : Node) (location : Span), n.kind = .ITER → n.child 0 = .node call →
        n.child 1 = .node inner → lines.span n = .ok location → ∀ t,
          n.convert lines options scope none = .ok t ↔
            ∃ block tree, (Context.whole lines options scope).block inner = .ok block ∧
              call.kind ∈ Kind.calls ∧ call.convert lines options scope none = .ok tree ∧
                t = (tree.withBlock block).withLocation location := by
  refine ⟨?_, ?_, ?_⟩
  · intro n block hkind
    have htakes := Kind.takesBlock_eq_true_iff.mpr hkind
    refine ⟨convert_some_of_takesBlock htakes block, fun t ht => ?_⟩
    exact Kind.forms_of_takesBlock htakes (convert_kind t ht)
  · intro n block hkind
    have htakes : n.kind.takesBlock = false := by
      rw [← Bool.not_eq_true, Kind.takesBlock_eq_true_iff]
      exact hkind
    exact convert_some_of_not_takesBlock htakes block
  · intro n call inner location hkind hcall hinner hspan t
    rw [convert_eq_ok_iff (shape_of_ITER hkind hcall hinner)]
    simp only [hspan, Except.ok.injEq, exists_eq_left', Context.shaped, bind_eq_ok_iff,
      pure_eq_ok_iff]
    constructor
    · rintro ⟨block, hblock, _, hcall, rfl⟩
      obtain ⟨htakes, tree, htree, rfl⟩ := convert_some_eq_ok_iff.mp hcall
      exact ⟨block, tree, hblock, Kind.takesBlock_eq_true_iff.mp htakes, htree, rfl⟩
    · rintro ⟨block, tree, hblock, hcalls, htree, rfl⟩
      have htakes := Kind.takesBlock_eq_true_iff.mpr hcalls
      exact ⟨block, hblock, _, convert_some_eq_ok_iff.mpr ⟨htakes, tree, htree, rfl⟩, rfl⟩

/-- `a(&b)`. -/
def passingCall : Node :=
  Build.fcall ⟨"a"⟩
    (some (.make .BLOCK_PASS [.nil, .node (Build.named .VCALL ⟨"b"⟩ default)] default)) default

/-- The block of `{ |c| d }`. -/
def blockScope : Node :=
  Build.scope (Build.names [⟨"c"⟩]) (some (Build.args { preCount := 1 } default))
    (some (Build.named .VCALL ⟨"d"⟩ default)) default

theorem convert_withBlock_passingCall :
    ∃ call block,
      (passingCall.convert ⟨[], 0⟩ {} [] none = .ok call ∧ call.kind = .callNode) ∧
        passingCall.convert ⟨[], 0⟩ {} [] (some block) = .ok (call.withBlock block) ∧
        blockScope.convert ⟨[], 0⟩ {} [] (some block) =
          .error (blockScope.unexpected .blockCall) ∧
        (Node.make .ITER [.node passingCall, .node blockScope] default).convert ⟨[], 0⟩ {} [] none =
          .ok ((call.withBlock block).withLocation .null) := by
  obtain ⟨call, hcall, hkind⟩ : ∃ call, passingCall.convert ⟨[], 0⟩ {} [] none = .ok call ∧
    call.kind = .callNode := ⟨_, rfl, rfl⟩
  obtain ⟨block, hblock⟩ : ∃ block, (Context.whole ⟨[], 0⟩ {} []).block blockScope = .ok block :=
    ⟨_, rfl⟩
  obtain ⟨hattach, hrefuse, hiter⟩ := convert_withBlock ⟨[], 0⟩ {} []
  have hcalls : passingCall.kind ∈ Kind.calls := by decide
  refine ⟨call, block, ⟨hcall, hkind⟩, ?_, hrefuse blockScope block (by decide), ?_⟩
  · rw [(hattach passingCall block hcalls).1, hcall]
    rfl
  · have hlocation : LineTable.span ⟨[], 0⟩ (Node.make .ITER [.node passingCall, .node blockScope]
      default) = .ok .null := rfl
    rw [hiter _ passingCall blockScope .null rfl rfl rfl hlocation]
    exact ⟨block, call, hblock, hcalls, hcall, rfl⟩

end Legacy.Node

end RubyTree
