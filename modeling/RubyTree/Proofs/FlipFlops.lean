import RubyTree.Proofs.Relocation

/-! Integer bounds of flip-flops. The legacy parser compares such a bound with the current line
number, and the conversion can turn the comparison back into the integer where it meets one. The
same comes of turning all of them back beforehand, in the legacy tree. -/

namespace RubyTree

open Canonical
open Legacy (Node)

namespace Legacy.Node

def isLineNumber (args : Node) : Bool :=
  match args.children with
  | [.node global] =>
    args.kind = .LIST ∧ global.kind = .GVAR ∧ (global.name 0).toOption = some ⟨"$."⟩
  | _ => false

structure ComparesLine (m integer : Node) : Prop where
  kind : m.kind = .CALL ∨ m.kind = .OPCALL
  receiver : m.child 0 = .node integer
  integer : integer.kind = .INTEGER
  name : m.child 1 = .name ⟨"=="⟩
  args : ∃ args, m.child 2 = .node args ∧ args.isLineNumber = true

def comparedInteger? (m : Node) : Option Node :=
  match m.child 0, m.child 1, m.child 2 with
  | .node integer, .name name, .node args =>
    if (m.kind = .CALL ∨ m.kind = .OPCALL) ∧ integer.kind = .INTEGER ∧ name.text = "==" ∧
        args.isLineNumber = true then
      some integer
    else none
  | _, _, _ => none

mutual

/-- The tree with the integers in place of the comparisons among the operands of flip-flops. -/
def unwrapBounds : Node → Node
  | .mk kind children position => .mk kind (unwrapBoundsList kind.isFlipFlop children) position

def unwrapBoundsList (inFlipFlop : Bool) : List Child → List Child
  | [] => []
  | child :: rest => unwrapBoundsChild inFlipFlop child :: unwrapBoundsList inFlipFlop rest

def unwrapBoundsChild (inFlipFlop : Bool) : Child → Child
  | .node n =>
    let unwrapped := n.unwrapBounds
    .node (if inFlipFlop then unwrapped.comparedInteger?.getD unwrapped else unwrapped)
  | child => child

end

variable {m r args : Node}

theorem isLineNumber_iff : args.isLineNumber = true ↔
    ∃ global, args.kind = .LIST ∧ args.children = [.node global] ∧ global.kind = .GVAR ∧
      global.child 0 = .name ⟨"$."⟩ := by
  have htoOption (global : Node) :
      (global.name 0).toOption = some ⟨"$."⟩ ↔ global.child 0 = .name ⟨"$."⟩ := by
    rw [← name_eq_ok_iff]
    cases global.name 0 with
    | ok s => exact ⟨fun h => congrArg Except.ok (Option.some.inj h), fun h => by cases h; rfl⟩
    | error e => exact ⟨nofun, nofun⟩
  unfold isLineNumber
  split
  · next global hchildren =>
    simp only [decide_eq_true_eq, htoOption]
    constructor
    · rintro ⟨hlist, hkind, hname⟩
      exact ⟨global, hlist, hchildren, hkind, hname⟩
    · rintro ⟨found, hlist, hfound, hkind, hname⟩
      rw [hchildren] at hfound
      cases hfound
      exact ⟨hlist, hkind, hname⟩
  · next hchildren =>
    refine ⟨nofun, ?_⟩
    rintro ⟨global, _, hfound, _⟩
    exact absurd hfound (hchildren global)

theorem comparedInteger?_eq_some_iff : m.comparedInteger? = some r ↔ m.ComparesLine r := by
  unfold comparedInteger?
  constructor
  · intro h
    split at h
    · next integer name args hinteger hname hargs =>
      split at h
      · next hall =>
        obtain ⟨hkind, hint, htext, hline⟩ := hall
        cases h
        obtain ⟨text⟩ := name
        cases htext
        exact ⟨hkind, hinteger, hint, hname, args, hargs, hline⟩
      · cases h
    · cases h
  · rintro ⟨hkind, hreceiver, hint, hname, args, hargs, hline⟩
    rw [hreceiver, hname, hargs]
    exact if_pos ⟨hkind, hint, rfl, hline⟩

theorem shape_eq_call_iff (hkind : m.kind = .CALL ∨ m.kind = .OPCALL) {name : Name} :
    m.shape = .ok (.call (some r) name (some args)) ↔
      m.child 0 = .node r ∧ m.child 1 = .name name ∧ m.child 2 = .node args := by
  have hshape : m.shape = m.node 0 >>= fun receiver => m.name 1 >>= fun name =>
      m.node? 2 >>= fun args => pure (.call (some receiver) name args) := by
    unfold Node.shape
    rcases hkind with hkind | hkind <;> rw [hkind]
  rw [hshape, ← node_eq_ok_iff, ← name_eq_ok_iff]
  constructor
  · intro h
    obtain ⟨receiver, hreceiver, h⟩ := bind_eq_ok_iff.mp h
    obtain ⟨found, hname, h⟩ := bind_eq_ok_iff.mp h
    obtain ⟨rest, hargs, h⟩ := bind_eq_ok_iff.mp h
    cases h
    exact ⟨hreceiver, hname, node?_eq_ok_iff.mp hargs⟩
  · rintro ⟨hreceiver, hname, hargs⟩
    have hslot : m.node? 2 = .ok (some args) := node?_eq_ok_iff.mpr hargs
    rw [hreceiver, hname, hslot]
    rfl

theorem lineNumberBound?_eq_some_iff :
    Context.lineNumberBound? m = .ok (some r) ↔ m.ComparesLine r := by
  unfold Context.lineNumberBound?
  constructor
  · intro h
    split at h
    · next hkind =>
      obtain ⟨shape, hshape, h⟩ := bind_eq_ok_iff.mp h
      split at h
      · next receiver name args =>
        obtain ⟨hreceiver, hname, hargs⟩ := (shape_eq_call_iff hkind).mp hshape
        split at h
        · next hall =>
          obtain ⟨hint, htext, hlist⟩ := hall
          obtain ⟨text⟩ := name
          cases htext
          split at h
          · next global hchildren =>
            split at h
            · next hglobal =>
              obtain ⟨found, hfound, h⟩ := bind_eq_ok_iff.mp h
              split at h
              · next hdollar =>
                obtain ⟨text⟩ := found
                cases hdollar
                cases h
                refine ⟨hkind, hreceiver, hint, hname, args, hargs, isLineNumber_iff.mpr ?_⟩
                exact ⟨global, hlist, hchildren, hglobal, name_eq_ok_iff.mp hfound⟩
              · cases h
            · cases h
          · cases h
        · cases h
      · cases h
    · cases h
  · rintro ⟨hkind, hreceiver, hint, hname, args, hargs, hline⟩
    obtain ⟨global, hlist, hchildren, hglobal, hdollar⟩ := isLineNumber_iff.mp hline
    have hshape := (shape_eq_call_iff hkind).mpr ⟨hreceiver, hname, hargs⟩
    rw [if_pos hkind, hshape]
    change (if r.kind = .INTEGER ∧ "==" = "==" ∧ args.kind = .LIST then _ else _) = _
    rw [if_pos ⟨hint, rfl, hlist⟩, hchildren]
    change (if global.kind = .GVAR then _ else _) = _
    rw [if_pos hglobal, name_eq_ok_iff.mpr hdollar]
    rfl

/-! The rewriting of a tree, slot by slot. -/

@[simp] theorem kind_unwrapBounds (n : Node) : n.unwrapBounds.kind = n.kind := by
  cases n
  rfl

@[simp] theorem position_unwrapBounds (n : Node) : n.unwrapBounds.position = n.position := by
  cases n
  rfl

theorem unwrapBoundsList_eq_map (inFlipFlop : Bool) (cs : List Child) :
    unwrapBoundsList inFlipFlop cs = cs.map (unwrapBoundsChild inFlipFlop) := by
  induction cs with
  | nil => rfl
  | cons c cs ih => rw [unwrapBoundsList, List.map_cons, ih]

@[simp] theorem children_unwrapBounds (n : Node) :
    n.unwrapBounds.children = n.children.map (unwrapBoundsChild n.kind.isFlipFlop) := by
  obtain ⟨kind, cs, position⟩ := n
  exact unwrapBoundsList_eq_map kind.isFlipFlop cs

theorem child_unwrapBounds {n : Node} (hkind : n.kind.isFlipFlop = false) (i : Nat) :
    n.unwrapBounds.child i = unwrapBoundsChild false (n.child i) := by
  unfold Node.child
  rw [children_unwrapBounds, hkind, List.getElem?_map]
  cases n.children[i]? <;> rfl

theorem unwrapBoundsChild_eq_node_iff {c : Child} :
    unwrapBoundsChild false c = .node r ↔ ∃ n, c = .node n ∧ r = n.unwrapBounds := by
  cases c with
  | node n =>
    constructor
    · intro h
      cases h
      exact ⟨n, rfl, rfl⟩
    · rintro ⟨k, hk, rfl⟩
      cases hk
      rfl
  | _ => exact ⟨nofun, nofun⟩

theorem unwrapBoundsChild_eq_name_iff {c : Child} {s : Name} :
    unwrapBoundsChild false c = .name s ↔ c = .name s := by
  cases c with
  | node n => exact ⟨nofun, nofun⟩
  | _ => exact Iff.rfl

theorem isLineNumber_unwrapBounds : args.unwrapBounds.isLineNumber = true ↔
    args.isLineNumber = true := by
  rw [isLineNumber_iff, isLineNumber_iff]
  constructor
  · rintro ⟨global', hlist, hchildren, hglobal, hdollar⟩
    rw [kind_unwrapBounds] at hlist
    rw [children_unwrapBounds, hlist, List.map_eq_singleton_iff] at hchildren
    obtain ⟨c, hchildren, hc⟩ := hchildren
    obtain ⟨global, rfl, rfl⟩ := unwrapBoundsChild_eq_node_iff.mp hc
    rw [kind_unwrapBounds] at hglobal
    rw [child_unwrapBounds (by rw [hglobal]; rfl), unwrapBoundsChild_eq_name_iff] at hdollar
    exact ⟨global, hlist, hchildren, hglobal, hdollar⟩
  · rintro ⟨global, hlist, hchildren, hglobal, hdollar⟩
    refine ⟨global.unwrapBounds, by simpa using hlist, ?_, by simpa using hglobal, ?_⟩
    · rw [children_unwrapBounds, hlist, hchildren]
      rfl
    · rw [child_unwrapBounds (by rw [hglobal]; rfl), hdollar]
      rfl

theorem comparesLine_unwrapBounds :
    m.unwrapBounds.ComparesLine r ↔ ∃ n, m.ComparesLine n ∧ r = n.unwrapBounds := by
  have hflip (h : m.kind = .CALL ∨ m.kind = .OPCALL) : m.kind.isFlipFlop = false := by
    rcases h with h | h <;> rw [h] <;> rfl
  constructor
  · rintro ⟨hkind, hreceiver, hint, hname, args', hargs, hline⟩
    rw [kind_unwrapBounds] at hkind
    rw [child_unwrapBounds (hflip hkind)] at hreceiver hname hargs
    obtain ⟨n, hn, rfl⟩ := unwrapBoundsChild_eq_node_iff.mp hreceiver
    obtain ⟨args, hchild, rfl⟩ := unwrapBoundsChild_eq_node_iff.mp hargs
    rw [kind_unwrapBounds] at hint
    rw [unwrapBoundsChild_eq_name_iff] at hname
    rw [isLineNumber_unwrapBounds] at hline
    exact ⟨n, ⟨hkind, hn, hint, hname, args, hchild, hline⟩, rfl⟩
  · rintro ⟨n, ⟨hkind, hn, hint, hname, args, hargs, hline⟩, rfl⟩
    refine ⟨by simpa using hkind, ?_, by simpa using hint, ?_, args.unwrapBounds, ?_,
      isLineNumber_unwrapBounds.mpr hline⟩
    all_goals rw [child_unwrapBounds (hflip hkind)]
    · rw [hn]
      rfl
    · rw [hname]
      rfl
    · rw [hargs]
      rfl

theorem comparedInteger?_unwrapBounds (m : Node) :
    m.unwrapBounds.comparedInteger? = m.comparedInteger?.map unwrapBounds := by
  refine Option.ext fun r => ?_
  rw [comparedInteger?_eq_some_iff, comparesLine_unwrapBounds, Option.map_eq_some_iff]
  refine exists_congr fun n => ?_
  rw [comparedInteger?_eq_some_iff, eq_comm]

theorem operand_eq (frozen : Bool) (m : Node) :
    Options.operand ⟨frozen, true⟩ m = m.comparedInteger?.getD m := by
  have hbound : Options.bound? ⟨frozen, true⟩ m = Context.lineNumberBound? m := rfl
  cases hread : Context.lineNumberBound? m with
  | error e =>
    have hnone : m.comparedInteger? = none := by
      refine Option.eq_none_iff_forall_ne_some.mpr fun r hr => ?_
      rw [comparedInteger?_eq_some_iff, ← lineNumberBound?_eq_some_iff, hread] at hr
      cases hr
    rw [Options.operand_of_error (hbound.trans hread), hnone]
    rfl
  | ok found =>
    have hfound : m.comparedInteger? = found := by
      refine Option.ext fun r => ?_
      rw [comparedInteger?_eq_some_iff, ← lineNumberBound?_eq_some_iff, hread]
      exact ⟨Except.ok.inj, congrArg Except.ok⟩
    rw [Options.operand_of_bound? (hbound.trans hread), hfound]

theorem unwrapBoundsChild_operand (frozen : Bool) (m : Node) :
    unwrapBoundsChild true (.node m) =
      .node (Options.operand ⟨frozen, true⟩ m).unwrapBounds := by
  rw [operand_eq]
  change Child.node (m.unwrapBounds.comparedInteger?.getD m.unwrapBounds) = _
  rw [comparedInteger?_unwrapBounds]
  cases m.comparedInteger? <;> rfl

theorem mirroring_unwrapBounds (frozen : Bool) :
    Mirroring (fun n n' => n' = n.unwrapBounds)
      (Operands .together ⟨frozen, true⟩ ⟨frozen, false⟩ (fun n n' => n' = n.unwrapBounds)
        fun n n' => n' = n.unwrapBounds)
      fun n n' => n' = n.unwrapBounds := by
  rintro n _ rfl
  refine ⟨rfl, kind_unwrapBounds n, ?_⟩
  rw [children_unwrapBounds, List.forall₂_map_right_iff]
  refine List.forall₂_same.mpr fun c _ => ?_
  cases c with
  | node m =>
    cases hkind : n.kind.isFlipFlop with
    | false =>
      refine .node ?_
      rw [Inside, if_neg (by simp [hkind])]
      rfl
    | true =>
      rw [unwrapBoundsChild_operand frozen]
      refine .node ?_
      rw [Inside, if_pos hkind]
      exact .together rfl rfl
  | _ => exact .same (by rintro m ⟨⟩)

end Legacy.Node

theorem LineTable.span_unwrapBounds {lines : LineTable} {n : Node} {s : Span} :
    lines.span n.unwrapBounds = .ok s ↔ lines.span n = .ok s := by
  rw [span_eq_ok_iff, span_eq_ok_iff, Node.position_unwrapBounds]

/-- Unwrapping in the conversion, beside unwrapping before it. The two may fault about different
nodes of an operand. -/
def Coupling.unwrapping (lines : LineTable) (frozen : Bool) : Coupling where
  lines := lines
  lines' := lines
  options := ⟨frozen, true⟩
  options' := ⟨frozen, false⟩
  accord := .together
  nodes n n' := n' = n.unwrapBounds
  mirroring := Node.mirroring_unwrapBounds frozen
  resolves n n' h := by
    subst h
    cases hs : lines.span n with
    | ok s =>
      rw [LineTable.span_unwrapBounds.mpr hs]
      exact .ok trivial
    | error e =>
      cases hs' : lines.span n.unwrapBounds with
      | ok s =>
        rw [LineTable.span_unwrapBounds.mp hs'] at hs
        cases hs
      | error e' => exact .faults

def Coupling.Alignment.unwrapping (lines : LineTable) (frozen : Bool) :
    (Coupling.unwrapping lines frozen).Alignment where
  toPlacement := by
    refine .unmoved (fun n n' h => ?_) fun n n' s s' h => ?_
    · subst h
      exact (Node.position_unwrapBounds n).symm
    · obtain ⟨rfl, hs, hs'⟩ := h
      exact Except.ok.inj (hs.symm.trans (LineTable.span_unwrapBounds.mp hs'))
  frozen := rfl
  tight h := by cases h.1

def Coupling.unwrappingRight (lines : LineTable) (frozen : Bool) (root : Node) : Coupling where
  lines := lines
  lines' := lines
  options := ⟨frozen, false⟩
  options' := ⟨frozen, true⟩
  accord := .onward
  nodes := root.Diagonal
  mirroring := Node.mirroring_onward rfl rfl fun _ _ h => h.mirrored
  resolves n n' h := LineTable.span_mirrored h (by rw [h.1])

namespace Legacy.Node

/-- Unwrapping the bounds of flip-flops in the conversion comes to the same as doing so in the
legacy tree, and refuses no program that would be converted otherwise. -/
theorem program_unwrapped (lines : LineTable) (frozen : Bool) (root : Node) :
    ((∃ e e', root.program lines ⟨frozen, true⟩ = .error e ∧
          root.unwrapBounds.program lines ⟨frozen, false⟩ = .error e') ∨
        ∃ t, root.program lines ⟨frozen, true⟩ = .ok t ∧
          root.unwrapBounds.program lines ⟨frozen, false⟩ = .ok t) ∧
      ∀ t, root.program lines ⟨frozen, false⟩ = .ok t →
        ∃ t', root.program lines ⟨frozen, true⟩ = .ok t' := by
  constructor
  · let k : Coupling := .unwrapping lines frozen
    have hsteps : k.Steps (Tree.Mirrored k) (root.program lines ⟨frozen, true⟩)
        (root.unwrapBounds.program lines ⟨frozen, false⟩) := k.program_mirrored rfl
    generalize root.program lines ⟨frozen, true⟩ = x at hsteps ⊢
    generalize root.unwrapBounds.program lines ⟨frozen, false⟩ = y at hsteps ⊢
    cases hsteps with
    | @ok _ _ t t' h =>
      have heq : t.mapSpans id = t'.mapSpans id := h.mapSpans_eq (.unwrapping lines frozen)
      rw [Tree.mapSpans_id, Tree.mapSpans_id] at heq
      exact .inr ⟨t, rfl, congrArg Except.ok heq.symm⟩
    | error _ => exact .inl ⟨_, _, rfl, rfl⟩
    | faults => exact .inl ⟨_, _, rfl, rfl⟩
  · intro t ht
    let k : Coupling := .unwrappingRight lines frozen root
    have hsteps : k.Steps (Tree.Mirrored k) (root.program lines ⟨frozen, false⟩)
        (root.program lines ⟨frozen, true⟩) := k.program_mirrored ⟨rfl, .root⟩
    rw [ht] at hsteps
    obtain ⟨t', ht', _⟩ := Mirrored.right_of_ok hsteps
    exact ⟨t', ht'⟩

/-- `1..a`, as the legacy parser gives it where a condition is asked for. -/
def integerToCall : Node :=
  let global := Build.named .GVAR ⟨"$."⟩ ⟨1, 0, 1, 1⟩
  let bound := Build.call .OPCALL (Build.int 1 ⟨1, 0, 1, 1⟩) ⟨"=="⟩
    (some (Build.list [global] ⟨1, 0, 1, 1⟩)) ⟨1, 0, 1, 1⟩
  Build.scope (.table []) none
    (some (.make .FLIP2 [.node bound, .node (Build.named .VCALL ⟨"a"⟩ ⟨1, 3, 1, 4⟩)] ⟨1, 0, 1, 4⟩))
    ⟨1, 0, 1, 4⟩

theorem program_unwrapped_integerToCall :
    ∃ t t', integerToCall.program ⟨[0], 4⟩ ⟨false, false⟩ = .ok t ∧
      integerToCall.program ⟨[0], 4⟩ ⟨false, true⟩ = .ok t' ∧
      integerToCall.unwrapBounds.program ⟨[0], 4⟩ ⟨false, false⟩ = .ok t' := by
  obtain ⟨hsame, honward⟩ := program_unwrapped ⟨[0], 4⟩ false integerToCall
  obtain ⟨t, ht⟩ : ∃ t, integerToCall.program ⟨[0], 4⟩ ⟨false, false⟩ = .ok t := ⟨_, rfl⟩
  obtain ⟨t', ht'⟩ := honward t ht
  rcases hsame with ⟨e, _, he, _⟩ | ⟨u, hu, hbefore⟩
  · rw [ht'] at he
    cases he
  · exact ⟨t, u, ht, hu, hbefore⟩

end Legacy.Node

end RubyTree
