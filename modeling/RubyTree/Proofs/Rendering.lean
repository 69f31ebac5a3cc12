import RubyTree.Canonical.Render
import RubyTree.Proofs.DecimalText
import RubyTree.Proofs.JsonReading
import RubyTree.Proofs.Places

/-! The indented text of a tree can be read in one way only. A header ends its line, a quoted text
ends with its quote, and the items of a list end where the lines are indented less. Infinities and
NaNs have no text of their own, so this is about trees without them. -/

namespace RubyTree

/-- The texts of a family tell where they end, whatever follows. -/
def Delimited {α : Type} (text : α → String) : Prop :=
  ∀ ⦃a b : α⦄ ⦃r r' : List Char⦄, (text a).toList ++ r = (text b).toList ++ r' → a = b ∧ r = r'

namespace Delimited

variable {α β : Type} {text : α → String}

theorem append (h : Delimited text) (back : String) : Delimited fun a => text a ++ back := by
  intro a b r r' heq
  simp only [String.toList_append, List.append_assoc] at heq
  obtain ⟨hab, hrest⟩ := h heq
  exact ⟨hab, List.append_cancel_left hrest⟩

theorem comp (h : Delimited text) {f : β → α} (hf : Function.Injective f) :
    Delimited fun b => text (f b) := by
  intro a b r r' heq
  obtain ⟨hab, hrest⟩ := h heq
  exact ⟨hf hab, hrest⟩

end Delimited

theorem append_cons_inj {c : Char} {s t r r' : List Char} (hs : c ∉ s) (ht : c ∉ t)
    (h : s ++ c :: r = t ++ c :: r') : s = t ∧ r = r' := by
  have hfront : s = t := by
    rw [← Double.takeWhile_bne hs (t := r), h, Double.takeWhile_bne ht]
  subst hfront
  exact ⟨rfl, (List.cons.inj (List.append_cancel_left h)).2⟩

theorem delimited_line {α : Type} {text : α → String} (hinj : Function.Injective text)
    (hline : ∀ a, '\n' ∉ (text a).toList) : Delimited fun a => text a ++ "\n" := by
  intro a b r r' h
  have hchars (a : α) (r : List Char) :
      (text a ++ "\n").toList ++ r = (text a).toList ++ '\n' :: r := by simp
  rw [hchars, hchars] at h
  obtain ⟨hab, hrest⟩ := append_cons_inj (hline a) (hline b) h
  exact ⟨hinj (String.toList_inj.mp hab), hrest⟩

theorem notMem_toDigits {c : Char} (hc : c.isDigit = false) (n : Nat) : c ∉ Nat.toDigits 10 n :=
  Double.notMem_digits (Double.isDigit_toDigits n) hc

theorem toDigits_injective : Function.Injective (Nat.toDigits 10) := by
  intro m n h
  rw [← Nat.ofDigitChars_ten_toDigits (n := m), h, Nat.ofDigitChars_ten_toDigits]

/-! Scalars. -/

namespace Json

theorem delimited_quote : Delimited quote := by
  intro s t r r' h
  -- Reading the quoted text stops at its quote, and what was read is the text.
  have hbytes := congrArg encode h
  rw [encode_append, encode_append, Draft.encode_quote_append, Draft.encode_quote_append] at hbytes
  obtain ⟨ps, hps, hs⟩ := Draft.pieces?_escaped_append s (encode r)
  obtain ⟨qs, hqs, ht⟩ := Draft.pieces?_escaped_append t (encode r')
  rw [(List.cons.inj hbytes).2, hqs, Option.some.injEq, Prod.mk.injEq] at hps
  rw [← hps.1, ht, Option.some.injEq] at hs
  subst hs
  exact ⟨rfl, List.append_cancel_left h⟩

theorem toList_intText (i : Int) :
    (intText i).toList =
      (if 0 ≤ i then "" else "-" : String).toList ++ Nat.toDigits 10 i.natAbs := by
  cases i with
  | ofNat n => simp [intText]
  | negSucc n => simp [intText]

theorem intText_injective : Function.Injective intText := by
  intro i j h
  have hread (i : Int) : Double.readExponent (intText i).toList = i := by
    rw [toList_intText]
    exact Double.readExponent_signed false rfl
  rw [← hread i, h, hread]

theorem delimited_intLine : Delimited fun i => intText i ++ "\n" := by
  apply delimited_line intText_injective
  intro i
  rw [toList_intText, List.mem_append, not_or]
  refine ⟨?_, notMem_toDigits (by decide) _⟩
  split <;> simp

end Json

namespace Span

theorem toList_text_of_isNull {s : Span} (h : s.isNull = true) :
    s.text.toList = ['(', 'n', 'u', 'l', 'l', ')'] := by
  simp [text, h]

theorem toList_text_of_not_isNull {s : Span} (h : ¬s.isNull = true) :
    s.text.toList = ('(' :: Nat.toDigits 10 s.start) ++
      '.' :: '.' :: '.' :: (Nat.toDigits 10 s.stop ++ [')']) := by
  simp [text, h]

theorem point_mem_text_iff (s : Span) : '.' ∈ s.text.toList ↔ ¬s.isNull = true := by
  by_cases h : s.isNull = true
  · simp [toList_text_of_isNull h, h]
  · simp [toList_text_of_not_isNull h, h]

theorem text_injective : Function.Injective text := by
  intro s t h
  have hnull : s.isNull = true ↔ t.isNull = true := by
    rw [← not_iff_not, ← point_mem_text_iff, ← point_mem_text_iff, h]
  by_cases hs : s.isNull = true
  · rw [isNull_iff.mp hs, isNull_iff.mp (hnull.mp hs)]
  · have hchars := congrArg String.toList h
    have hstart (n : Nat) : '.' ∉ '(' :: Nat.toDigits 10 n := by
      simp [notMem_toDigits]
    rw [toList_text_of_not_isNull hs, toList_text_of_not_isNull (hnull.not.mp hs)] at hchars
    obtain ⟨hstarts, hrest⟩ := append_cons_inj (hstart _) (hstart _) hchars
    have hstarts := toDigits_injective (List.cons.inj hstarts).2
    have hstops := toDigits_injective
      (List.append_cancel_right (List.cons.inj (List.cons.inj hrest).2).2)
    rw [stop, stop, hstarts] at hstops
    obtain ⟨start, length⟩ := s
    obtain ⟨start', length'⟩ := t
    rw [Span.mk.injEq]
    exact ⟨hstarts, Nat.add_left_cancel hstops⟩

theorem delimited_textLine : Delimited fun s => text s ++ "\n" := by
  apply delimited_line text_injective
  intro s
  by_cases h : s.isNull = true
  · simp [toList_text_of_isNull h]
  · simp [toList_text_of_not_isNull h, notMem_toDigits]

end Span

namespace Canonical

namespace Kind

-- A literal is a list of characters made into a string: no check has to decode its bytes.
theorem all_ofList {p : Char → Bool} {chars : List Char} (h : chars.all p = true) :
    (String.ofList chars).toList.all p = true := by
  rwa [String.toList_ofList]

theorem head?_ofList_ne {c d : Char} {chars : List Char} (h : (c == d) = false) :
    (String.ofList (c :: chars)).toList.head? ≠ some d := by
  rw [String.toList_ofList, List.head?_cons, ne_eq, Option.some.injEq]
  exact ne_of_beq_false h

theorem variant_isAlpha (kind : Kind) : kind.variant.toList.all Char.isAlpha = true := by
  cases kind <;> exact all_ofList rfl

theorem notMem_typeName {c : Char} (hc : c.isAlpha = false) (kind : Kind) :
    c ∉ kind.typeName.toList := by
  have hnode : "Node".toList.all Char.isAlpha = true := all_ofList rfl
  have hall : kind.typeName.toList.all Char.isAlpha = true := by
    rw [typeName, String.toList_append, List.all_append, variant_isAlpha, hnode]
    rfl
  intro h
  rw [List.all_eq_true.mp hall c h] at hc
  cases hc

theorem typeName_injective : Function.Injective typeName := by
  intro k l h
  apply variant_injective
  rw [typeName, typeName] at h
  exact String.append_left_inj _ |>.mp h

theorem labels_head?_ne (kind : Kind) :
    ∀ field ∈ kind.fields, field.label.toList.head? ≠ some ' ' := by
  cases kind
  all_goals
    simp only [fields, List.forall_mem_cons, List.not_mem_nil, false_imp_iff, implies_true,
      and_true]
  all_goals repeat' apply And.intro
  all_goals exact head?_ofList_ne rfl

end Kind

namespace Tree

theorem delimited_header :
    Delimited fun node : Kind × Span => node.1.typeName ++ " " ++ node.2.text ++ "\n" := by
  rintro ⟨k, s⟩ ⟨l, t⟩ r r' h
  have hchars (k : Kind) (s : Span) (r : List Char) :
      (k.typeName ++ " " ++ s.text ++ "\n").toList ++ r =
        k.typeName.toList ++ ' ' :: ((s.text ++ "\n").toList ++ r) := by simp
  rw [hchars, hchars] at h
  obtain ⟨hname, hrest⟩ := append_cons_inj (k.notMem_typeName rfl) (l.notMem_typeName rfl) h
  obtain ⟨hspan, hend⟩ := Span.delimited_textLine hrest
  exact ⟨Prod.ext (Kind.typeName_injective (String.toList_inj.mp hname)) hspan, hend⟩

theorem delimited_name : Delimited fun n : Name => Json.quote n.text := by
  apply Json.delimited_quote.comp
  rintro ⟨s⟩ ⟨t⟩ h
  rw [Name.mk.injEq]
  exact h

def furtherNames : List Name → List Char
  | [] => [']']
  | n :: ns => ',' :: ' ' :: ((Json.quote n.text).toList ++ furtherNames ns)

theorem toList_namesText_cons (n : Name) (ns : List Name) :
    (namesText (n :: ns)).toList = '[' :: ((Json.quote n.text).toList ++ furtherNames ns) := by
  have hlist : (", ".intercalate ((n :: ns).map fun n => Json.quote n.text)).toList ++ [']'] =
      (Json.quote n.text).toList ++ furtherNames ns := by
    induction ns generalizing n with
    | nil => simp [furtherNames]
    | cons m ns ih =>
      have htail := ih m
      rw [List.map_cons] at htail
      rw [List.map_cons, List.map_cons, String.intercalate_cons_cons, String.toList_append,
        List.append_assoc, htail, furtherNames]
      simp
  rw [← hlist]
  simp [namesText]

theorem furtherNames_append_inj {ns ms : List Name} {r r' : List Char}
    (h : furtherNames ns ++ r = furtherNames ms ++ r') : ns = ms ∧ r = r' := by
  induction ns generalizing ms with
  | nil =>
    cases ms with
    | nil => exact ⟨rfl, (List.cons.inj h).2⟩
    | cons m ms => simp [furtherNames] at h
  | cons n ns ih =>
    cases ms with
    | nil => simp [furtherNames] at h
    | cons m ms =>
      simp only [furtherNames, List.cons_append, List.append_assoc, List.cons.injEq, true_and] at h
      obtain ⟨hname, hrest⟩ := delimited_name h
      obtain ⟨hnames, hend⟩ := ih hrest
      exact ⟨by rw [hname, hnames], hend⟩

theorem delimited_namesText : Delimited namesText := by
  intro ns ms r r' h
  have hempty : (namesText []).toList = ['[', ']'] := by simp [namesText]
  cases ns with
  | nil =>
    cases ms with
    | nil => exact ⟨rfl, List.append_cancel_left h⟩
    | cons m ms =>
      rw [hempty, toList_namesText_cons] at h
      simp [Json.quote] at h
  | cons n ns =>
    cases ms with
    | nil =>
      rw [hempty, toList_namesText_cons] at h
      simp [Json.quote] at h
    | cons m ms =>
      rw [toList_namesText_cons, toList_namesText_cons] at h
      simp only [List.cons_append, List.append_assoc, List.cons.injEq, true_and] at h
      obtain ⟨hname, hrest⟩ := delimited_name h
      obtain ⟨hnames, hend⟩ := furtherNames_append_inj hrest
      exact ⟨by rw [hname, hnames], hend⟩

/-! Indentation. -/

def blanks (s : List Char) : Nat := (s.takeWhile (· == ' ')).length

theorem blanks_eq_zero {s : List Char} (h : s.head? ≠ some ' ') : blanks s = 0 := by
  cases s with
  | nil => rfl
  | cons c s =>
    have hc : c ≠ ' ' := by simpa using h
    simp [blanks, hc]

theorem toList_indent (depth : Nat) : (indent depth).toList = List.replicate (2 * depth) ' ' := by
  rw [indent, String.toList_join]
  induction depth with
  | zero => rfl
  | succ depth ih =>
    rw [List.replicate_succ, List.flatMap_cons, ih]
    rfl

theorem blanks_indent_append (depth : Nat) {s : List Char} (h : s.head? ≠ some ' ') :
    blanks ((indent depth).toList ++ s) = 2 * depth := by
  have hzero := blanks_eq_zero h
  rw [blanks] at hzero ⊢
  rw [toList_indent, List.takeWhile_append_of_pos (by simp), List.length_append,
    List.length_replicate, hzero, Nat.add_zero]

theorem blanks_fieldLines_le {depth : Nat} {fields : List Field} (fs : Fields fields)
    (hlabels : ∀ field ∈ fields, field.label.toList.head? ≠ some ' ') {r : List Char}
    (hr : blanks r ≤ 2 * depth) : blanks ((fieldLines depth fs).toList ++ r) ≤ 2 * depth := by
  cases fs with
  | nil => simpa [fieldLines] using hr
  | @cons field rest v vs =>
    have hlabel := hlabels field List.mem_cons_self
    have hchars : (fieldLines depth (.cons v vs)).toList ++ r =
        (indent depth).toList ++ (field.label.toList ++
          ':' :: ((valueLines depth v ++ fieldLines depth vs).toList ++ r)) := by
      simp [fieldLines]
    rw [hchars, blanks_indent_append]
    rw [List.head?_append]
    cases hhead : field.label.toList.head? with
    | none => simp
    | some c => simpa [hhead] using hlabel

theorem toList_itemLines_cons (depth : Nat) (t : Tree) (ts : List Tree) (r : List Char) :
    (itemLines depth (t :: ts)).toList ++ r = (indent depth).toList ++
      '-' :: ' ' :: ((lines depth t).toList ++ ((itemLines depth ts).toList ++ r)) := by
  simp [itemLines]

theorem blanks_itemLines_cons (depth : Nat) (t : Tree) (ts : List Tree) (r : List Char) :
    blanks ((itemLines depth (t :: ts)).toList ++ r) = 2 * depth := by
  rw [toList_itemLines_cons]
  exact blanks_indent_append depth (by simp)

theorem blanks_itemLines_le {depth : Nat} (ts : List Tree) {r : List Char}
    (hr : blanks r < 2 * depth) : blanks ((itemLines depth ts).toList ++ r) ≤ 2 * depth := by
  cases ts with
  | nil =>
    rw [itemLines]
    exact hr.le
  | cons t ts => exact (blanks_itemLines_cons depth t ts r).le

theorem toList_lines (depth : Nat) (k : Kind) (fs : Fields k.fields) (s : Span) (r : List Char) :
    (lines depth (.mk k fs s)).toList ++ r = (k.typeName ++ " " ++ s.text ++ "\n").toList ++
      ((fieldLines (depth + 1) fs).toList ++ r) := by
  rw [lines, String.toList_append, List.append_assoc]

theorem none_ne_lines (depth : Nat) (t : Tree) (r r' : List Char) :
    " (none)\n".toList ++ r ≠ (" " ++ lines depth t).toList ++ r' := by
  obtain ⟨k, fs, s⟩ := t
  intro h
  rw [String.toList_append, List.append_assoc, toList_lines] at h
  have hparenthesis : '(' ∉ k.typeName.toList := k.notMem_typeName rfl
  cases hname : k.typeName.toList with
  | nil => simp [hname] at h
  | cons c cs =>
    obtain ⟨hc, -⟩ : '(' = c ∧ _ := by simpa [hname] using h
    rw [hname, ← hc] at hparenthesis
    exact hparenthesis List.mem_cons_self

/-! Finite floats. -/

theorem finite_fields_cons {field : Field} {rest : List Field} {v : Value field.sort}
    {vs : Fields rest} : (Fields.cons v vs).parts.Finite ↔
      Outline.Finite (([], v.mark) :: v.parts) ∧ vs.parts.Finite := by
  rw [Fields.parts, Outline.finite_append, Outline.finite_below]

theorem finite_items_cons {i : Nat} {t : Tree} {ts : List Tree} :
    (Outline.items i (Tree.outlines (t :: ts))).Finite ↔
      t.parts.Finite ∧ (Outline.items (i + 1) (Tree.outlines ts)).Finite := by
  rw [Tree.outlines, Outline.items, Outline.finite_append, Outline.finite_below]
  refine and_congr_left fun _ => ⟨Outline.Finite.of_cons, fun h => ?_⟩
  exact List.forall_mem_cons.mpr ⟨rfl, h⟩

theorem value_append_inj {α : Type} {text : α → String} (hline : Delimited fun a => text a ++ "\n")
    {sort : FieldSort} (make : α → Value sort) {a b : α} {r r' : List Char}
    (h : (" " ++ text a ++ "\n").toList ++ r = (" " ++ text b ++ "\n").toList ++ r') :
    make a = make b ∧ r = r' := by
  have hblank (a : α) (r : List Char) :
      (" " ++ text a ++ "\n").toList ++ r = ' ' :: ((text a ++ "\n").toList ++ r) := by simp
  rw [hblank, hblank, List.cons.injEq] at h
  obtain ⟨hab, hend⟩ := hline h.2
  exact ⟨by rw [hab], hend⟩

theorem scalarLines_append_inj (depth : Nat) {sort : FieldSort} (v w : Value sort)
    (hsort : sort ≠ .tree ∧ sort ≠ .optTree ∧ sort ≠ .trees) (hv : v.mark.isFinite = true)
    (hw : w.mark.isFinite = true) {r r' : List Char}
    (h : (valueLines depth v).toList ++ r = (valueLines depth w).toList ++ r') :
    v = w ∧ r = r' := by
  have hname : Delimited fun n : Name => Json.quote n.text ++ "\n" := delimited_name.append "\n"
  have hnat : Delimited fun n : Nat => Nat.repr n ++ "\n" :=
    Json.delimited_intLine.comp (f := Int.ofNat) fun m n => Int.ofNat.inj
  -- One case for each sort; only an optional name is written in two forms to tell apart.
  cases v with
  | span s =>
    cases w with
    | span t =>
      exact value_append_inj Span.delimited_textLine .span h
  | name n =>
    cases w with
    | name m => exact value_append_inj hname .name h
  | optName n =>
    cases w with
    | optName m =>
      cases n with
      | none =>
        cases m with
        | none => exact ⟨rfl, List.append_cancel_left h⟩
        | some m => simp [valueLines, Json.quote] at h
      | some n =>
        cases m with
        | none => simp [valueLines, Json.quote] at h
        | some m => exact value_append_inj hname (fun n => .optName (some n)) h
  | names ns =>
    cases w with
    | names ms => exact value_append_inj (delimited_namesText.append "\n") .names h
  | flags f =>
    cases w with
    | flags g =>
      have hflags : Delimited fun f : Flags => Nat.repr f.toNat ++ "\n" :=
        hnat.comp fun f g => UInt32.toNat_inj.mp
      exact value_append_inj hflags .flags h
  | nat m =>
    cases w with
    | nat n => exact value_append_inj hnat .nat h
  | int i =>
    cases w with
    | int j =>
      exact value_append_inj Json.delimited_intLine .int h
  | float x =>
    cases w with
    | float y =>
      have hx : x.isFinite = true := hv
      have hy : y.isFinite = true := hw
      simp only [valueLines, hx, hy, if_true] at h
      exact value_append_inj (delimited_line (Double.text_injective Json.floatLayout)
        (Double.newline_notMem_text Json.floatLayout)) .float h
  | text s =>
    cases w with
    | text t => exact value_append_inj (Json.delimited_quote.append "\n") .text h
  | tree t => exact absurd rfl hsort.1
  | optTree t => exact absurd rfl hsort.2.1
  | trees ts => exact absurd rfl hsort.2.2

mutual

theorem lines_append_inj (depth : Nat) (t u : Tree) (ht : t.parts.Finite) (hu : u.parts.Finite)
    {r r' : List Char} (hr : blanks r ≤ 2 * depth) (hr' : blanks r' ≤ 2 * depth)
    (h : (lines depth t).toList ++ r = (lines depth u).toList ++ r') : t = u ∧ r = r' := by
  -- By induction on the first tree: what follows a node is indented no deeper than the node.
  obtain ⟨k, fs, s⟩ := t
  obtain ⟨l, gs, s'⟩ := u
  rw [toList_lines, toList_lines] at h
  obtain ⟨hheader, hrest⟩ := delimited_header (a := (k, s)) (b := (l, s')) h
  obtain ⟨rfl, rfl⟩ := Prod.mk.inj hheader
  obtain ⟨hfields, hend⟩ := fieldLines_append_inj (depth + 1) fs gs ht.of_cons hu.of_cons
    k.labels_head?_ne (by omega) (by omega) hrest
  exact ⟨by rw [hfields], hend⟩
termination_by structural t

theorem fieldLines_append_inj (depth : Nat) {fields : List Field} (fs gs : Fields fields)
    (hfs : fs.parts.Finite) (hgs : gs.parts.Finite)
    (hlabels : ∀ field ∈ fields, field.label.toList.head? ≠ some ' ') {r r' : List Char}
    (hr : blanks r ≤ 2 * depth) (hr' : blanks r' ≤ 2 * depth)
    (h : (fieldLines depth fs).toList ++ r = (fieldLines depth gs).toList ++ r') :
    fs = gs ∧ r = r' := by
  cases fs with
  | nil =>
    cases gs with
    | nil =>
      rw [fieldLines] at h
      exact ⟨rfl, h⟩
  | @cons field rest v vs =>
    cases gs with
    | cons w ws =>
      have hrest : ∀ field ∈ rest, field.label.toList.head? ≠ some ' ' :=
        fun field hfield => hlabels field (List.mem_cons_of_mem _ hfield)
      obtain ⟨hv, hvs⟩ := finite_fields_cons.mp hfs
      obtain ⟨hw, hws⟩ := finite_fields_cons.mp hgs
      simp only [fieldLines, String.toList_append, List.append_assoc,
        List.append_cancel_left_eq] at h
      obtain ⟨hvalue, hnext⟩ := valueLines_append_inj depth v w hv hw
        (blanks_fieldLines_le vs hrest hr) (blanks_fieldLines_le ws hrest hr') h
      obtain ⟨hvalues, hend⟩ := fieldLines_append_inj depth vs ws hvs hws hrest hr hr' hnext
      exact ⟨by rw [hvalue, hvalues], hend⟩
termination_by structural fs

theorem valueLines_append_inj (depth : Nat) {sort : FieldSort} (v w : Value sort)
    (hv : Outline.Finite (([], v.mark) :: v.parts)) (hw : Outline.Finite (([], w.mark) :: w.parts))
    {r r' : List Char} (hr : blanks r ≤ 2 * depth) (hr' : blanks r' ≤ 2 * depth)
    (h : (valueLines depth v).toList ++ r = (valueLines depth w).toList ++ r') :
    v = w ∧ r = r' := by
  cases v with
  | tree t =>
    cases w with
    | tree u =>
      rw [valueLines, valueLines, String.toList_append, List.append_assoc, String.toList_append,
        List.append_assoc] at h
      obtain ⟨htree, hend⟩ := lines_append_inj depth t u hv.of_cons hw.of_cons hr hr'
        (List.append_cancel_left h)
      exact ⟨by rw [htree], hend⟩
  | optTree t =>
    cases w with
    | optTree u =>
      cases t with
      | none =>
        cases u with
        | none => exact ⟨rfl, List.append_cancel_left h⟩
        | some u => exact absurd h (none_ne_lines depth u r r')
      | some t =>
        cases u with
        | none => exact absurd h.symm (none_ne_lines depth t r' r)
        | some u =>
          rw [valueLines, valueLines, String.toList_append, List.append_assoc,
            String.toList_append, List.append_assoc] at h
          obtain ⟨htree, hend⟩ := lines_append_inj depth t u hv.of_cons hw.of_cons hr hr'
            (List.append_cancel_left h)
          exact ⟨by rw [htree], hend⟩
  | trees ts =>
    cases w with
    | trees us =>
      cases ts with
      | nil =>
        cases us with
        | nil => exact ⟨rfl, List.append_cancel_left h⟩
        | cons u us => simp [valueLines] at h
      | cons t ts =>
        cases us with
        | nil => simp [valueLines] at h
        | cons u us =>
          rw [valueLines, valueLines, String.toList_append, List.append_assoc,
            String.toList_append, List.append_assoc] at h
          obtain ⟨htrees, hend⟩ := itemLines_append_inj (depth + 1) (t :: ts) (u :: us) hv.of_cons
            hw.of_cons (by omega) (by omega) (List.append_cancel_left h)
          exact ⟨by rw [htrees], hend⟩
  | _ =>
    exact scalarLines_append_inj depth _ w (by decide) (hv _ List.mem_cons_self)
      (hw _ List.mem_cons_self) h
termination_by structural v

theorem itemLines_append_inj (depth : Nat) (ts us : List Tree) {i j : Nat}
    (hts : (Outline.items i (Tree.outlines ts)).Finite)
    (hus : (Outline.items j (Tree.outlines us)).Finite) {r r' : List Char}
    (hr : blanks r < 2 * depth) (hr' : blanks r' < 2 * depth)
    (h : (itemLines depth ts).toList ++ r = (itemLines depth us).toList ++ r') :
    ts = us ∧ r = r' := by
  cases ts with
  | nil =>
    cases us with
    | nil =>
      rw [itemLines] at h
      exact ⟨rfl, h⟩
    | cons u us =>
      have hblanks := blanks_itemLines_cons depth u us r'
      rw [← h, itemLines] at hblanks
      exact absurd hblanks hr.ne
  | cons t ts =>
    cases us with
    | nil =>
      have hblanks := blanks_itemLines_cons depth t ts r
      rw [h, itemLines] at hblanks
      exact absurd hblanks hr'.ne
    | cons u us =>
      obtain ⟨ht, hts⟩ := finite_items_cons.mp hts
      obtain ⟨hu, hus⟩ := finite_items_cons.mp hus
      rw [toList_itemLines_cons, toList_itemLines_cons] at h
      simp only [List.append_cancel_left_eq, List.cons.injEq, true_and] at h
      obtain ⟨htree, hnext⟩ := lines_append_inj depth t u ht hu (blanks_itemLines_le ts hr)
        (blanks_itemLines_le us hr') h
      obtain ⟨htrees, hend⟩ := itemLines_append_inj depth ts us hts hus hr hr' hnext
      exact ⟨by rw [htree, htrees], hend⟩
termination_by structural ts

end

/-- Trees without infinities and NaNs are equal if their texts are. -/
theorem render_eq_iff (t u : Tree) (ht : t.Finite) (hu : u.Finite) :
    t.render = u.render ↔ t = u := by
  constructor
  · intro h
    have hlines : (lines 0 t).toList ++ [] = (lines 0 u).toList ++ [] :=
      congrArg (fun s => s.toList ++ []) h
    have hnone : blanks [] ≤ 2 * 0 := Nat.le_refl 0
    exact (lines_append_inj 0 t u ht.of_cons hu.of_cons hnone hnone hlines).1
  · intro h
    rw [h]

/-- The zeros of both signs are one number, but two texts. -/
theorem render_eq_iff_zeros :
    let zero := floatInSplat ⟨0⟩ ⟨4, 3⟩
    let negativeZero := floatInSplat ⟨0x8000000000000000⟩ ⟨4, 3⟩
    zero.Finite ∧ negativeZero.Finite ∧ zero.render ≠ negativeZero.render := by
  intro zero negativeZero
  have hzero : zero.Finite := by decide
  have hnegative : negativeZero.Finite := by decide
  refine ⟨hzero, hnegative, fun h => ?_⟩
  have htrees : zero = negativeZero := (render_eq_iff zero negativeZero hzero hnegative).mp h
  have hparts : zero.parts = negativeZero.parts := congrArg Tree.parts htrees
  cases hparts

end Tree

end Canonical

end RubyTree
