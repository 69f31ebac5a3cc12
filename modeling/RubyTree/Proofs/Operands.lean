import RubyTree.Proofs.Bound
import RubyTree.Proofs.MirroredParts

/-! The operands of flip-flops. With the option to unwrap, an operand `integer == $.` stands for the
integer; what is converted in place of an operand lies in it. Two runs may read the operands of
corresponding flip-flops differently, as long as they convert corresponding nodes. -/

namespace RubyTree

open Canonical (Tree)
open Legacy (Node)
open Legacy.Node (Mirroring)

namespace Options

variable (options : Options) {m : Node}

def bound? (m : Node) : Result (Option Node) :=
  if options.unwrapIntegerFlipFlop then Context.lineNumberBound? m else pure none

def operand (m : Node) : Node :=
  match options.bound? m with
  | .ok (some integer) => integer
  | _ => m

variable {options}

theorem operand_of_bound? {found : Option Node} (h : options.bound? m = .ok found) :
    options.operand m = found.getD m := by
  unfold operand
  rw [h]
  cases found <;> rfl

theorem operand_of_error {e : Fault} (h : options.bound? m = .error e) :
    options.operand m = m := by
  unfold operand
  rw [h]

end Options

theorem Context.flipFlopOperand_eq (c : Context) (m : Node) :
    c.flipFlopOperand m = c.options.bound? m >>= fun found => c.node (found.getD m) := by
  unfold Context.flipFlopOperand Options.bound?
  split
  · congr 1
    funext found
    cases found <;> rfl
  · rfl

theorem Context.height_of_lineNumberBound? {m r : Node}
    (h : lineNumberBound? m = .ok (some r)) : r.height < m.height := by
  have hbelow : m.Below fun k => k.height ≤ m.height - 1 := by
    intro k hk
    have := Legacy.Node.height_lt_of_mem_children hk
    omega
  have hr := lineNumberBound?_all (Legacy.Node.closed_height_le _) hbelow _ h r rfl
  have := m.height_pos
  omega

theorem Options.height_operand_le (options : Options) (m : Node) :
    (options.operand m).height ≤ m.height := by
  cases h : options.bound? m with
  | error e => exact Nat.le_of_eq (congrArg _ (operand_of_error h))
  | ok found =>
    rw [operand_of_bound? h]
    cases found with
    | none => exact Nat.le_refl _
    | some r =>
      unfold bound? at h
      split at h
      · exact Nat.le_of_lt (Context.height_of_lineNumberBound? h)
      · cases h

theorem Context.lineNumberBound?_mirrored {N O D : Node → Node → Prop} {q : Accord} {n n' : Node}
    (hD : Mirroring N O D) (hn : D n n') :
    Mirrored N q (Option.Rel D) (lineNumberBound? n) (lineNumberBound? n') := by
  have hb := hD n n' hn
  unfold Context.lineNumberBound?
  rw [hb.kind]
  split
  · refine .bind (hb.shape hD) fun shape shape' hshape => ?_
    cases hshape with
    | call hreceiver name hargs =>
      cases hreceiver with
      | none => exact .pure .none
      | some hr =>
        cases hargs with
        | none => exact .pure .none
        | @some args args' hargs =>
          have hargs := hD args args' hargs
          dsimp only
          rw [(hD _ _ hr).kind, hargs.kind]
          split
          · next hkinds =>
            have hargs := hargs.opened (by rw [hkinds.2.2]; rfl)
            rcases Legacy.Child.Mirrored.single hargs.children with
              ⟨arg, arg', hcs, hcs', harg⟩ | ⟨hcs, hcs'⟩
            · have harg := hD arg arg' harg
              rw [hcs, hcs']
              dsimp only
              rw [harg.kind]
              split
              · refine .same harg.name fun global => ?_
                split
                · exact .pure (.some hr)
                · exact .pure .none
              · exact .pure .none
            · split
              · next m hm => exact absurd hm (hcs m)
              · exact .pure .none
          · exact .pure .none
    | _ => exact .pure .none
  · exact .pure .none

/-- What two runs make of the operands of corresponding flip-flops. -/
inductive Operands (q : Accord) (o o' : Options) (N D : Node → Node → Prop) (m m' : Node) :
    Prop where
  /-- Both read the operand alike. -/
  | alike (read : Mirrored N q (fun _ _ => True) (o.bound? m) (o'.bound? m'))
      (operand : D (o.operand m) (o'.operand m'))
  /-- Each has its own way to fault about it. -/
  | together (accord : q = .together) (operand : D (o.operand m) (o'.operand m'))
  /-- Only the right unwraps. -/
  | onward (accord : q = .onward) (left : o.unwrapIntegerFlipFlop = false)
      (right : o'.unwrapIntegerFlipFlop = true) (operand : D m m')
      (read : Mirrored N .alike (Option.Rel D) (Context.lineNumberBound? m)
        (Context.lineNumberBound? m'))

variable {N D : Node → Node → Prop} {q : Accord} {o o' : Options} {m m' : Node}

theorem Operands.of_bound? (hread : Mirrored N .alike (Option.Rel D) (o.bound? m) (o'.bound? m'))
    (hm : D m m') : Operands q o o' N D m m' := by
  refine .alike (hread.ofAlike.mono fun _ _ _ => trivial) ?_
  generalize hleft : o.bound? m = x at hread
  generalize hright : o'.bound? m' = y at hread
  cases hread with
  | ok hfound =>
    rw [Options.operand_of_bound? hleft, Options.operand_of_bound? hright]
    cases hfound with
    | none => exact hm
    | some hinteger => exact hinteger
  | error _ =>
    rw [Options.operand_of_error hleft, Options.operand_of_error hright]
    exact hm

namespace Legacy.Node

theorem mirroring_self (h : ∀ n n', N n n' → n.Mirrored N N n') : Mirroring N N N := by
  intro n n' hn
  refine (h n n' hn).imp fun m m' _ _ hm => ?_
  rwa [Inside, ite_self]

theorem mirroring_of_unwrap (ho : o'.unwrapIntegerFlipFlop = o.unwrapIntegerFlipFlop)
    (h : ∀ n n', N n n' → n.Mirrored N N n') : Mirroring N (Operands q o o' N N) N := by
  intro n n' hn
  refine (h n n' hn).imp fun m m' _ _ hm => ?_
  unfold Inside
  split
  · refine .of_bound? ?_ hm
    unfold Options.bound?
    rw [ho]
    split
    · exact Context.lineNumberBound?_mirrored (mirroring_self h) hm
    · exact .pure .none
  · exact hm

/-- It is enough that the side that unwraps gets along with the other. -/
theorem mirroring_onward (ho : o.unwrapIntegerFlipFlop = false)
    (ho' : o'.unwrapIntegerFlipFlop = true) (h : ∀ n n', N n n' → n.Mirrored N N n') :
    Mirroring N (Operands .onward o o' N N) N := by
  intro n n' hn
  refine (h n n' hn).imp fun m m' _ _ hm => ?_
  unfold Inside
  split
  · exact .onward rfl ho ho' hm (Context.lineNumberBound?_mirrored (mirroring_self h) hm)
  · exact hm

def Bounded (N : Node → Node → Prop) (b b' : Nat) (m m' : Node) : Prop :=
  N m m' ∧ m.height ≤ b ∧ m'.height ≤ b'

theorem Bounded.operands {b b' : Nat} (h : Operands q o o' N N m m') (hb : m.height ≤ b)
    (hb' : m'.height ≤ b') : Operands q o o' N (Bounded N b b') m m' := by
  have hoperand (hm : N (o.operand m) (o'.operand m')) :
      Bounded N b b' (o.operand m) (o'.operand m') :=
    ⟨hm, Nat.le_trans (o.height_operand_le m) hb, Nat.le_trans (o'.height_operand_le m') hb'⟩
  cases h with
  | alike read operand => exact .alike read (hoperand operand)
  | together accord operand => exact .together accord (hoperand operand)
  | onward accord left right operand read =>
    refine .onward accord left right ⟨operand, hb, hb'⟩ (read.values.mono fun r r' hr => ?_)
    obtain ⟨hr, hm, hm'⟩ := hr
    cases hr with
    | none => exact .none
    | some hr =>
      have hlt := Context.height_of_lineNumberBound? hm
      have hlt' := Context.height_of_lineNumberBound? hm'
      exact .some ⟨hr, by omega, by omega⟩

theorem Mirrored.within {n n' : Node} {b b' : Nat}
    (hn : n.Mirrored N (n.Inside (Operands q o o' N N) N) n') (hb : n.height ≤ b + 1)
    (hb' : n'.height ≤ b' + 1) :
    n.Mirrored N (n.Inside (Operands q o o' N (Bounded N b b')) (Bounded N b b')) n' := by
  refine hn.imp fun m m' hm hm' h => ?_
  have hlt := height_lt_of_mem_children hm
  have hlt' := height_lt_of_mem_children hm'
  unfold Inside at h ⊢
  split at h
  · next hkind =>
    rw [if_pos hkind]
    exact Bounded.operands h (by omega) (by omega)
  · next hkind =>
    rw [if_neg hkind]
    exact ⟨h, by omega, by omega⟩

theorem Mirroring.within (hN : Mirroring N (Operands q o o' N N) N) (b b' : Nat) :
    Mirroring N (Operands q o o' N (Bounded N b b')) (Bounded N b b') :=
  fun n n' hn => (hN n n' hn.1).within (Nat.le_succ_of_le hn.2.1) (Nat.le_succ_of_le hn.2.2)

end Legacy.Node

theorem Argument.ofNode_single {args arg : Node} (hkind : args.kind = .LIST)
    (hchildren : args.children = [.node arg]) :
    ofNode args = ofElement arg >>= fun argument => pure [argument] := by
  obtain ⟨kind, cs, position⟩ := args
  cases hkind
  cases hchildren
  have hshape : (Legacy.Node.mk .LIST [.node arg] position).shape = .ok (.list [arg]) := rfl
  have hlaid : ofNode (.mk .LIST [.node arg] position) = [arg].mapM ofElement := by
    simp only [ofNode, Legacy.Node.height, ofNodeWithin, hshape]
    rfl
  rw [hlaid, List.mapM_cons, List.mapM_nil]
  rfl

namespace Context

/-- An operand cannot be read for one of its own slots, or for the name of its global variable. -/
theorem lineNumberBound?_eq_error {e : Fault} (h : lineNumberBound? m = .error e) :
    m.shape = .error e ∨ ∃ r name args arg, m.shape = .ok (.call r name (some args)) ∧
      args.kind = .LIST ∧ args.children = [.node arg] ∧ arg.kind = .GVAR ∧
      arg.name 0 = .error e := by
  unfold lineNumberBound? at h
  split at h
  · cases hshape : m.shape with
    | error f =>
      rw [hshape] at h
      cases h
      exact .inl rfl
    | ok shape =>
      rw [hshape] at h
      simp only [bind, Except.bind] at h
      split at h
      · next r name args =>
        split at h
        · next hkinds =>
          split at h
          · next arg hchildren =>
            split at h
            · next hkind =>
              refine .inr ⟨some r, name, args, arg, rfl, hkinds.2.2, hchildren, hkind, ?_⟩
              cases hname : arg.name 0 with
              | error f =>
                rw [hname] at h
                cases h
                rfl
              | ok global =>
                rw [hname] at h
                cases h
            · cases h
          · cases h
        · cases h
      · cases h
  · cases h

theorem step_of_lineNumberBound? {e : Fault} (h : lineNumberBound? m = .error e) (c : Context)
    (pending : Option Tree) : ∃ f, c.step m pending = .error f := by
  cases hstep : c.step m pending with
  | error f => exact ⟨f, rfl⟩
  | ok t =>
    unfold step at hstep
    split at hstep
    · cases hstep
    obtain ⟨location, _, hstep⟩ := bind_eq_ok_iff.mp hstep
    obtain ⟨shape, hshape, hstep⟩ := bind_eq_ok_iff.mp hstep
    rcases lineNumberBound?_eq_error h with he | ⟨r, name, args, arg, hs, hlist, hcs, hkind, hname⟩
    · rw [he] at hshape
      cases hshape
    · rw [hs] at hshape
      cases hshape
      obtain ⟨_, harguments, _⟩ := bind_eq_ok_iff.mp hstep
      obtain ⟨arguments, hlaid, _⟩ := bind_eq_ok_iff.mp harguments
      have harg : arg.shape = .error e := by
        simp only [Legacy.Node.shape, hkind, hname]
        rfl
      rw [Argument.ofNode_single hlist hcs, Argument.ofElement, harg] at hlaid
      cases hlaid

theorem shape_of_lineNumberBound? {r : Node} (h : lineNumberBound? m = .ok (some r)) :
    ∃ name args, m.shape = .ok (.call (some r) name args) := by
  unfold lineNumberBound? at h
  split at h
  · obtain ⟨shape, hshape, h⟩ := bind_eq_ok_iff.mp h
    split at h
    · next receiver name args =>
      split at h
      · split at h
        · split at h
          · obtain ⟨global, _, h⟩ := bind_eq_ok_iff.mp h
            split at h
            · cases h
              exact ⟨name, some args, hshape⟩
            · cases h
          · cases h
        · cases h
      · cases h
    · cases h
  · cases h

end Context

namespace Legacy.Node

variable {lines : LineTable} {options : Options} {scope : Scope}

theorem convert_eq_step (lines : LineTable) (options : Options) (scope : Scope) (n : Node)
    (pending : Option Tree) :
    ∃ bound, n.height = bound + 1 ∧ n.convert lines options scope pending =
      Context.step { lines, options, scope, convert := convertWithin lines options bound } n
        pending := by
  obtain ⟨kind, cs, position⟩ := n
  exact ⟨_, rfl, rfl⟩

theorem convert_of_lineNumberBound?_error {e : Fault} (h : Context.lineNumberBound? m = .error e)
    (pending : Option Tree) : ∃ f, m.convert lines options scope pending = .error f := by
  obtain ⟨bound, _, hstep⟩ := convert_eq_step lines options scope m pending
  rw [hstep]
  exact Context.step_of_lineNumberBound? h _ pending

theorem convert_of_lineNumberBound? {r : Node} (h : Context.lineNumberBound? m = .ok (some r))
    {t : Tree} (ht : m.convert lines options scope none = .ok t) :
    ∃ u, r.convert lines options scope none = .ok u := by
  obtain ⟨bound, hheight, hstep⟩ := convert_eq_step lines options scope m none
  have hlt := Context.height_of_lineNumberBound? h
  obtain ⟨name, args, hshape⟩ := Context.shape_of_lineNumberBound? h
  rw [hstep, Context.step, if_neg (by simp)] at ht
  obtain ⟨location, _, ht⟩ := bind_eq_ok_iff.mp ht
  obtain ⟨shape, hfound, ht⟩ := bind_eq_ok_iff.mp ht
  rw [hshape] at hfound
  cases hfound
  obtain ⟨parts, _, ht⟩ := bind_eq_ok_iff.mp ht
  obtain ⟨receiver, hreceiver, _⟩ := bind_eq_ok_iff.mp ht
  obtain ⟨u, hu, _⟩ := bind_eq_ok_iff.mp hreceiver
  have hle : r.height ≤ bound := by omega
  refine ⟨u, ?_⟩
  rw [← convertWithin_eq_convert hle]
  exact hu

end Legacy.Node

end RubyTree
