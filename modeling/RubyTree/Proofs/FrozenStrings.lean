import RubyTree.Proofs.Relocation

/-! Freezing string literals. The option decides one bit in the flags of the strings that stand for
literals; it neither changes anything else in a tree, nor whether there is one. -/

namespace RubyTree

open Canonical
open Legacy (Node)

namespace Canonical

def Flags.thaw (f : Flags) : Flags := f &&& ~~~Flags.frozen

mutual

/-- The tree with the frozen bit cleared in the flags of its strings. -/
def Tree.thaw : Tree → Tree
  | .mk kind fields location => .mk kind (fields.thaw (kind == .stringNode)) location

def Fields.thaw (isString : Bool) : {fields : List Field} → Fields fields → Fields fields
  | _, .nil => .nil
  | _, .cons value values => .cons (value.thaw isString) (values.thaw isString)

def Value.thaw (isString : Bool) : {sort : FieldSort} → Value sort → Value sort
  | _, .flags f => .flags (if isString then f.thaw else f)
  | _, .tree t => .tree t.thaw
  | _, .optTree none => .optTree none
  | _, .optTree (some t) => .optTree (some t.thaw)
  | _, .trees ts => .trees (Tree.thawList ts)
  | _, .span s => .span s
  | _, .name n => .name n
  | _, .optName n => .optName n
  | _, .names ns => .names ns
  | _, .nat n => .nat n
  | _, .int i => .int i
  | _, .float x => .float x
  | _, .text s => .text s

def Tree.thawList : List Tree → List Tree
  | [] => []
  | t :: ts => t.thaw :: Tree.thawList ts

end

def Tree.ThawsTo (t t' : Tree) : Prop := t.thaw = t'.thaw

theorem Tree.thawList_eq {ts ts' : List Tree} (h : List.Forall₂ Tree.ThawsTo ts ts') :
    Tree.thawList ts = Tree.thawList ts' := by
  induction h with
  | nil => rfl
  | cons h _ ih =>
    unfold Tree.ThawsTo at h
    rw [Tree.thawList, Tree.thawList, h, ih]

section

variable {isString : Bool} {F : Flags → Flags → Prop}
  (hF : ∀ f f', F f f' → if isString then f.thaw = f'.thaw else f' = f)

include hF

theorem Value.Related.thaw_eq {S : Span → Span → Prop} {sort : FieldSort} {v w : Value sort}
    (hS : ∀ s s', S s s' → s = s') (h : Value.Related Tree.ThawsTo S F v w) :
    v.thaw isString = w.thaw isString := by
  cases h with
  | span h => exact congrArg Value.span (hS _ _ h)
  | flags h =>
    have hflags := hF _ _ h
    cases isString with
    | false => exact congrArg Value.flags hflags.symm
    | true => exact congrArg Value.flags hflags
  | tree h => exact congrArg Value.tree h
  | optTree h =>
    cases h with
    | none => rfl
    | some h => exact congrArg (Value.optTree ∘ some) h
  | trees h => exact congrArg Value.trees (Tree.thawList_eq h)
  | fixed h => rfl

theorem Fields.Related.thaw_eq {S : String → Span → Span → Prop} {fields : List Field}
    {fs gs : Fields fields} (hS : ∀ label s s', S label s s' → s = s')
    (h : Fields.Related Tree.ThawsTo S F fs gs) : fs.thaw isString = gs.thaw isString := by
  induction fields with
  | nil =>
    cases h
    rfl
  | cons field rest ih =>
    cases h with
    | cons value values =>
      rw [Fields.thaw, Fields.thaw, value.thaw_eq hF (hS _), ih values]

end

theorem Tree.flags?_of_hasStringFlags {t : Tree} (h : t.kind.hasStringFlags = true) :
    ∃ f, t.flags? = some f := by
  obtain ⟨kind, fields, location⟩ := t
  change kind.hasStringFlags = true at h
  cases kind with
  | stringNode | xStringNode | interpolatedStringNode | sourceFileNode =>
    rcases fields with _ | ⟨_ | _ | _ | _ | f, rest⟩
    exact ⟨f, rfl⟩
  | _ => cases h

section

variable {R : Tree → Tree → Prop} {F : Flags → Flags → Prop} {f : Flags}

theorem Value.Related.of_flags? {S : Span → Span → Prop} {sort : FieldSort} {v w : Value sort}
    (h : Value.Related R S F v w) (hf : v.flags? = some f) : ∃ f', F f f' := by
  cases h with
  | flags h =>
    cases hf
    exact ⟨_, h⟩
  | fixed hfixed =>
    cases v with
    | flags => cases hfixed
    | _ => cases hf
  | _ => cases hf

theorem Fields.Related.of_flags? {S : String → Span → Span → Prop} {fields : List Field}
    {fs gs : Fields fields} {label : String} (h : Fields.Related R S F fs gs)
    (hf : fs.get? Value.flags? label = some f) : ∃ f', F f f' := by
  induction fields with
  | nil =>
    cases h
    cases hf
  | cons field rest ih =>
    cases h with
    | cons value values =>
      rw [Fields.get?] at hf
      split at hf
      · exact value.of_flags? hf
      · exact ih values hf

end

namespace Tree

/-- The string stands for a `STR` of the legacy tree. -/
def IsLiteral (run : Run) (t : Tree) : Prop :=
  ∃ n text, run.root.Contains n ∧ n.kind = .STR ∧ n.literal 0 = .ok (.string text) ∧
    run.lines.span n = .ok t.location ∧ t.text? = some text

/-- The string is the text in front of an interpolation of the legacy tree. -/
def IsLeading (run : Run) (t : Tree) : Prop :=
  ∃ n text head tail options, run.root.Contains n ∧
    n.shape = .ok (.interpolation (some text) head tail options) ∧ t.location = .null ∧
    t.text? = some text

/-- Literals have the flags that the options ask for; no other node has the flags of strings. -/
def Flagged (run : Run) (t : Tree) : Prop :=
  t.kind = .stringNode ∧ t.IsLiteral run ∧ t.flags? = some run.options.stringFlags ∨
    t.kind = .stringNode ∧ t.IsLeading run ∧ t.flags? = some Flags.empty ∨
    t.kind ≠ .stringNode ∧ t.flags? = some Flags.empty

def IsFrozen (t : Tree) : Prop :=
  t.kind.hasStringFlags = true ∧ ∃ f, t.flags? = some f ∧ f.contains Flags.frozen = true

theorem flagged_of_mirrored {run : Run} {t t' : Tree} (h : t.Mirrored run.diagonal t')
    (hkind : t.kind.hasStringFlags = true) : t.Flagged run := by
  obtain ⟨f, hf⟩ := flags?_of_hasStringFlags hkind
  cases h with
  | @mk kind fs gs s s' fields _ =>
    obtain ⟨f', hwords⟩ := fields.of_flags? hf
    by_cases hstring : kind = .stringNode
    · unfold Coupling.Words at hwords
      rw [Tree.kind, if_pos hstring] at hwords
      rcases hwords with ⟨n, _, text, hn, hstr, hread, htext, rfl, _⟩ |
        ⟨n, _, text, head, tail, options, hn, hshape, htext, hnull, _, rfl, _⟩
      · exact .inl ⟨hstring, ⟨n, text, hn.nodes.2, hstr, hread, hn.left, htext⟩, hf⟩
      · exact .inr (.inl ⟨hstring, ⟨n, text, head, tail, options, hn.2, hshape, hnull, htext⟩, hf⟩)
    · change kind.hasStringFlags = true at hkind
      rw [words_iff hstring, if_pos hkind] at hwords
      rw [hwords.1] at hf
      exact .inr (.inr ⟨hstring, hf⟩)
  | flipFlop hloose => exact absurd rfl hloose.2

theorem Flagged.not_isFrozen {run : Run} {t : Tree} (h : t.Flagged run)
    (hoptions : run.options.frozenStringLiteral = false) : ¬t.IsFrozen := by
  have hempty : run.options.stringFlags = Flags.empty := by simp [Options.stringFlags, hoptions]
  rintro ⟨_, f, hf, hfrozen⟩
  have hf' : t.flags? = some Flags.empty := by
    rcases h with ⟨_, _, h⟩ | ⟨_, _, h⟩ | ⟨_, h⟩
    · rw [h, hempty]
    · exact h
    · exact h
  rw [hf'] at hf
  cases hf
  exact absurd hfrozen (by decide)

end Tree

end Canonical

theorem Coupling.Words.thaw_eq {k : Coupling} {t t' : Tree} {f f' : Flags}
    (h : k.Words t t' f f') :
    if t.kind == .stringNode then f.thaw = f'.thaw else f' = f := by
  have hthaw (options : Options) : options.stringFlags.thaw = Flags.empty := by
    unfold Options.stringFlags
    split <;> decide
  unfold Coupling.Words at h
  by_cases hstring : t.kind = .stringNode
  · rw [if_pos hstring] at h
    rw [if_pos (beq_iff_eq.mpr hstring)]
    rcases h with ⟨_, _, _, _, _, _, _, rfl, rfl⟩ | ⟨_, _, _, _, _, _, _, _, _, _, _, rfl, rfl⟩
    · rw [hthaw, hthaw]
    · rfl
  · rw [if_neg hstring] at h
    rw [if_neg (by simpa using hstring)]
    split at h
    · rw [h.1, h.2]
    · exact h

theorem Canonical.Tree.Mirrored.thaw_eq {lines : LineTable} {options options' : Options}
    {root : Node} {hunwrap : options'.unwrapIntegerFlipFlop = options.unwrapIntegerFlipFlop}
    {t t' : Tree} (h : t.Mirrored (.beside lines options options' root hunwrap) t') :
    t.thaw = t'.thaw := by
  let place := Coupling.Placement.beside lines options options' root hunwrap
  have htight : ¬(Coupling.beside lines options options' root hunwrap).Loose :=
    fun hloose => hloose.2 hunwrap.symm
  refine h.induct (motive := Tree.ThawsTo) htight ?_
  intro kind fs gs s s' fields location
  have hfields : fs.thaw (kind == .stringNode) = gs.thaw (kind == .stringNode) :=
    fields.thaw_eq (fun _ _ h => h.thaw_eq) fun _ _ _ h => place.inner location h
  unfold Tree.ThawsTo
  rw [Tree.thaw, Tree.thaw, hfields]
  exact congrArg (Tree.mk kind _) (place.locations location)

theorem Fault.Mirrored.eq_of_diagonal {root : Node} {e e' : Fault}
    (h : e.Mirrored root.Diagonal e') : e' = e := by
  cases h with
  | notSupported hn _ => rw [hn.1]
  | unexpected hn _ _ => rw [hn.1]

namespace Legacy.Node

variable {lines : LineTable} {options : Options} {root : Node}

theorem flagged_of_program {t u : Tree} (h : root.program lines options = .ok t)
    (hu : t.Contains u) (hkind : u.kind.hasStringFlags = true) :
    u.Flagged ⟨lines, options, root⟩ := by
  let run : Run := ⟨lines, options, root⟩
  have hroot : run.diagonal.Steps (Tree.Mirrored run.diagonal) (root.program lines options)
      (root.program lines options) := run.diagonal.program_mirrored ⟨rfl, .root⟩
  rw [h] at hroot
  cases hroot with
  | ok hroot =>
    obtain ⟨u', hu'⟩ := hroot.of_contains hu
    exact Tree.flagged_of_mirrored hu' hkind

theorem convert_STR {scope : Scope} {n : Node} {pending : Option Tree} {t : Tree}
    (hkind : n.kind = .STR) (h : n.convert lines options scope pending = .ok t) :
    ∃ text location, t = .string options.stringFlags text location := by
  obtain ⟨bound, _, hstep⟩ := convert_eq_step lines options scope n pending
  rw [hstep] at h
  obtain ⟨location, shape, hshape, hshaped, _⟩ := Context.step_eq_ok h
  unfold Node.shape at hshape
  rw [hkind] at hshape
  obtain ⟨value, _, hvalue⟩ := bind_eq_ok_iff.mp hshape
  cases hvalue
  change Context.literal _ n value location = .ok t at hshaped
  unfold Context.literal at hshaped
  rw [hkind] at hshaped
  cases value with
  | string text =>
    cases hshaped
    exact ⟨text, location, rfl⟩
  | _ => cases hshaped

theorem program_beside (lines : LineTable) {options options' : Options} (root : Node)
    (hunwrap : options'.unwrapIntegerFlipFlop = options.unwrapIntegerFlipFlop) :
    (∃ e, root.program lines options = .error e ∧ root.program lines options' = .error e) ∨
      ∃ t t', root.program lines options = .ok t ∧ root.program lines options' = .ok t' ∧
        t.Mirrored (.beside lines options options' root hunwrap) t' := by
  let k : Coupling := .beside lines options options' root hunwrap
  have hroot : k.Steps (Tree.Mirrored k) (root.program lines options)
      (root.program lines options') := k.program_mirrored ⟨rfl, .root⟩
  generalize root.program lines options = x at hroot ⊢
  generalize root.program lines options' = y at hroot ⊢
  cases hroot with
  | ok h => exact .inr ⟨_, _, rfl, rfl, h⟩
  | error h => exact .inl ⟨_, rfl, congrArg Except.error h.eq_of_diagonal⟩

/-- Freezing string literals sets one bit in the strings that stand for them. -/
theorem program_frozen (lines : LineTable) (unwrap : Bool) (root : Node) :
    ((∃ e, root.program lines ⟨false, unwrap⟩ = .error e ∧
          root.program lines ⟨true, unwrap⟩ = .error e) ∨
        ∃ t t', root.program lines ⟨false, unwrap⟩ = .ok t ∧
          root.program lines ⟨true, unwrap⟩ = .ok t' ∧ t.thaw = t'.thaw ∧
          (∀ u, t.Contains u → ¬u.IsFrozen) ∧
          ∀ u, t'.Contains u → u.kind.hasStringFlags = true →
            u.Flagged ⟨lines, ⟨true, unwrap⟩, root⟩) ∧
      ∀ scope (n : Node) pending r, n.kind = .STR →
        n.convert lines ⟨true, unwrap⟩ scope pending = .ok r →
          r.kind = .stringNode ∧ r.IsFrozen := by
  constructor
  · have hunwrap : (Options.mk true unwrap).unwrapIntegerFlipFlop = unwrap := rfl
    refine (program_beside lines root hunwrap).imp id ?_
    rintro ⟨t, t', hoff, hon, hmirrored⟩
    refine ⟨t, t', hoff, hon, hmirrored.thaw_eq, fun u hu hfrozen => ?_, fun u => ?_⟩
    · have hflagged := flagged_of_program hoff hu hfrozen.1
      exact hflagged.not_isFrozen rfl hfrozen
    · exact flagged_of_program hon
  · intro scope n pending r hkind hr
    obtain ⟨text, location, rfl⟩ := convert_STR hkind hr
    have hfrozen : Flags.contains Flags.frozen Flags.frozen = true := by decide
    exact ⟨rfl, rfl, Flags.frozen, rfl, hfrozen⟩

/-- A literal embedded in a string, behind a text. -/
def literalInText : Node :=
  let inner := Build.string "b" ⟨1, 4, 1, 7⟩
  Build.scope (.table []) none
    (some (.make .DSTR
      [.literal (.string "a"), .node (.make .EVSTR [.node inner] ⟨1, 2, 1, 8⟩), .nil]
      ⟨1, 0, 1, 9⟩))
    ⟨1, 0, 1, 9⟩

theorem program_frozen_literalInText :
    (∃ t t', literalInText.program ⟨[0], 9⟩ ⟨false, true⟩ = .ok t ∧
        literalInText.program ⟨[0], 9⟩ ⟨true, true⟩ = .ok t' ∧ t.thaw = t'.thaw) ∧
      ∃ r, (Build.string "b" ⟨1, 4, 1, 7⟩).convert ⟨[0], 9⟩ ⟨true, true⟩ [] none = .ok r ∧
        r.IsFrozen := by
  obtain ⟨hprogram, hliteral⟩ := program_frozen ⟨[0], 9⟩ true literalInText
  obtain ⟨t, ht⟩ : ∃ t, literalInText.program ⟨[0], 9⟩ ⟨false, true⟩ = .ok t := ⟨_, rfl⟩
  obtain ⟨r, hr⟩ : ∃ r, (Build.string "b" ⟨1, 4, 1, 7⟩).convert ⟨[0], 9⟩ ⟨true, true⟩ [] none =
    .ok r := ⟨_, rfl⟩
  refine ⟨?_, r, hr, (hliteral [] _ none r rfl hr).2⟩
  rcases hprogram with ⟨e, he, _⟩ | ⟨t, t', hoff, hon, hthaw, _⟩
  · rw [ht] at he
    cases he
  · exact ⟨t, t', hoff, hon, hthaw⟩

end Legacy.Node

end RubyTree
