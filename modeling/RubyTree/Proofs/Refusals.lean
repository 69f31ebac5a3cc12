import RubyTree.Legacy.Build
import RubyTree.Proofs.Locations

/-! What a program is refused for. A fault is about a node of the legacy tree. The kinds without a
canonical form are known beforehand, and so are those that stand where an expression is asked for
but are none. -/

namespace RubyTree

open Legacy (Node)

theorem Legacy.Kind.head?_text (kind : Kind) : ∃ c, kind.text.toList.head? = some c ∧ c ≠ 'e' := by
  cases kind <;> exact ⟨_, rfl, by decide⟩

namespace Expectation

theorem head?_kinds (kinds : List Legacy.Kind) :
    (" or ".intercalate (kinds.map Legacy.Kind.text)).toList.head? ≠ some 'e' := by
  cases kinds with
  | nil => nofun
  | cons kind rest =>
    obtain ⟨c, hc, hne⟩ := kind.head?_text
    have hhead (more : String) : (kind.text ++ more).toList.head? ≠ some 'e' := by
      rw [String.toList_append, List.head?_append, hc]
      simpa using hne
    cases rest with
    | nil => simpa [hc] using hne
    | cons next rest =>
      rw [List.map_cons, List.map_cons, String.intercalate_cons_cons, String.append_assoc]
      exact hhead _

theorem asksExpression_of_text {expected : Expectation} (h : expected.text = "expression") :
    expected.asksExpression = true := by
  -- Wordings with a part that varies differ in their first letter.
  have hhead : expected.text.toList.head? = some 'e' := by
    rw [h]
    rfl
  cases expected with
  | expression => rfl
  | other s =>
    have hs : s = "expression" := h
    simp [asksExpression, hs]
  | slot use index found =>
    change (use.text ++ " in child " ++ Nat.repr index ++ " (found " ++ found.text ++
      ")").toList.head? = _ at hhead
    cases use <;> simp [SlotUse.text] at hhead
  | kinds accepted => exact absurd hhead (head?_kinds accepted)
  | numericLiteral found =>
    change ("numeric literal, not " ++ found).toList.head? = _ at hhead
    simp at hhead
  | matchingLiteral kind found =>
    change ("literal matching " ++ kind.text ++ ", not " ++ found).toList.head? = _ at hhead
    simp at hhead
  | _ => exact absurd h (by decide)

end Expectation

namespace Legacy.Node

variable {n : Node}

/-- Only `ERRINFO` has a shape that other kinds are converted from. -/
theorem shape_of_isUnsupported (hkind : n.kind.isUnsupported = true) (hne : n.kind ≠ .ATTRASGN) :
    n.shape = .ok .unsupported ∨ n.kind = .ERRINFO ∧ n.shape = .ok .leaf := by
  unfold Node.shape
  generalize n.kind = kind at hkind hne
  cases kind with
  | ATTRASGN => exact absurd rfl hne
  | ERRINFO => exact .inr ⟨rfl, rfl⟩
  | CASE3 | IN | FOR_MASGN | ARYPTN | FNDPTN | HSHPTN | ERROR | ARGS_AUX => exact .inl rfl
  | _ => cases hkind

theorem convert_of_isUnsupported {lines : LineTable} {options : Options} {scope : Scope} {s : Span}
    (hkind : n.kind.isUnsupported = true) (hne : n.kind ≠ .ATTRASGN)
    (hs : lines.span n = .ok s) :
    n.convert lines options scope none = .error n.notSupported := by
  obtain ⟨bound, _, hstep⟩ := convert_eq_step lines options scope n none
  rw [hstep, Context.step, if_neg (by simp), Context.span, hs]
  rcases shape_of_isUnsupported hkind hne with hshape | ⟨herrinfo, hshape⟩
  · rw [hshape]
    rfl
  · rw [hshape]
    change Context.leaf n none s = _
    rw [Context.leaf, herrinfo]
    rfl

end Legacy.Node

/-- The fault is about a node of the tree, of a kind that gives rise to such a fault. -/
structure Fault.Grounded (root : Node) (e : Fault) : Prop where
  node : ∃ n, root.Contains n ∧ n.kind = e.kind ∧ n.position = e.position
  notSupported : ∀ kind position, e = .notSupported kind position → kind.isUnsupported = true
  expression : ∀ expected kind position, e = .unexpected expected kind position →
    expected.text = "expression" → kind.isFragment = true

theorem Fault.Mirrored.grounded {root : Node} {e f : Fault} (h : e.Mirrored root.Diagonal f) :
    e.Grounded root := by
  cases h with
  | notSupported hn hkind =>
    refine ⟨⟨_, hn.2, rfl, rfl⟩, fun kind position he => ?_, fun expected kind position he => ?_⟩
    · cases he
      exact hkind
    · cases he
  | unexpected hn expected hkind =>
    refine ⟨⟨_, hn.2, rfl, rfl⟩, fun kind position he => ?_, fun _ kind position he htext => ?_⟩
    · cases he
    · cases he
      exact hkind (Expectation.asksExpression_of_text htext)

namespace Legacy.Node

/-- A program is refused for one of its nodes: as not supported only for a kind without a canonical
form, which is never converted, and as no expression only for a kind that is a part of others. -/
theorem program_refused (lines : LineTable) (options : Options) (root : Node) :
    (∀ e, root.program lines options = .error e → e.Grounded root) ∧
      ∀ scope n s, n.kind.isUnsupported = true → n.kind ≠ .ATTRASGN → lines.span n = .ok s →
        n.convert lines options scope none = .error n.notSupported := by
  refine ⟨fun e he => ?_, fun scope n s => convert_of_isUnsupported⟩
  let run : Canonical.Run := ⟨lines, options, root⟩
  have hroot : run.diagonal.Steps (Canonical.Tree.Mirrored run.diagonal)
      (root.program lines options) (root.program lines options) :=
    run.diagonal.program_mirrored ⟨rfl, .root⟩
  rw [he] at hroot
  cases hroot with
  | error hfault => exact hfault.grounded

/-- `$!` behind a number. -/
def numberThenErrinfo : Node :=
  Build.scope (.table []) none
    (some (Build.block [Build.int 1 ⟨1, 0, 1, 1⟩, .make .ERRINFO [] ⟨1, 3, 1, 5⟩] ⟨1, 0, 1, 5⟩))
    ⟨1, 0, 1, 5⟩

theorem program_refused_numberThenErrinfo :
    ∃ e, numberThenErrinfo.program ⟨[0], 5⟩ {} = .error e ∧ e.Grounded numberThenErrinfo ∧
      (mk .ERRINFO [] ⟨1, 3, 1, 5⟩).convert ⟨[0], 5⟩ {} [] none = .error e := by
  have he : numberThenErrinfo.program ⟨[0], 5⟩ {} =
      .error (.notSupported .ERRINFO ⟨1, 3, 1, 5⟩) := rfl
  obtain ⟨hgrounded, hconvert⟩ := program_refused ⟨[0], 5⟩ {} numberThenErrinfo
  exact ⟨_, he, hgrounded _ he, hconvert [] (mk .ERRINFO [] ⟨1, 3, 1, 5⟩) _ rfl nofun rfl⟩

end Legacy.Node

end RubyTree
