import RubyTree.Proofs.Coupling
import RubyTree.Proofs.Interpolations

/-! The known text of an interpolation. It stands in one of three slots, and the part it becomes
keeps the text wherever it stood. The flags of the part are those of a literal string in the second
and the third slot, and none at all in the leading one, so all parts are flagged alike unless the
options freeze string literals. -/

namespace RubyTree

open Canonical (Tree Flags)
open Legacy (Node Child)

inductive TextSlot where
  | leading | head | tail
deriving DecidableEq, Repr

/-- The flags of the part that a text in this slot becomes. -/
def TextSlot.flags (options : Options) : TextSlot → Flags
  | .leading => Flags.empty
  | .head | .tail => options.stringFlags

theorem Options.stringFlags_eq_empty_iff {options : Options} :
    options.stringFlags = Flags.empty ↔ options.frozenStringLiteral = false := by
  unfold Options.stringFlags
  cases options.frozenStringLiteral <;> decide

theorem TextSlot.flags_eq_iff {options : Options} {slot slot' : TextSlot} :
    slot.flags options = slot'.flags options ↔
      options.frozenStringLiteral = false ∨ (slot = .leading ↔ slot' = .leading) := by
  rw [← Options.stringFlags_eq_empty_iff]
  cases slot <;> cases slot' <;> simp [TextSlot.flags, eq_comm]

def Canonical.Tree.part? (t : Tree) (i : Nat) : Option Tree :=
  (t.trees? "parts").bind (·[i]?)

namespace Legacy.Node

/-- The number of parts that the leading slot gives. -/
def leadingCount (n : Node) : Nat :=
  match n.child 0 with
  | .literal (.string s) => if s.isEmpty then 0 else 1
  | _ => 0

/-- The number of parts that the second slot gives. -/
def headCount (n : Node) : Nat :=
  match n.child 1 with
  | .node _ => 1
  | _ => 0

/-- The text `s` stands in a slot of the interpolation, as its part `i`. -/
inductive HasText (n : Node) : TextSlot → String → Nat → Prop where
  | leading {s : String} (hslot : n.child 0 = .literal (.string s)) (hs : s.isEmpty = false) :
      HasText n .leading s 0
  | head {m : Node} {s : String} (hslot : n.child 1 = .node m) (hm : m.Holds (.text s)) :
      HasText n .head s n.leadingCount
  | tail {list m : Node} {s : String} {i : Nat} (hslot : n.child 2 = .node list)
      (hchild : list.child i = .node m) (hm : m.Holds (.text s)) :
      HasText n .tail s (n.leadingCount + n.headCount + i)

variable {lines : LineTable} {options : Options} {scope : Scope} {n m : Node}

theorem length_leadingPart {found : Option String} (h : n.child 0 = leadingSlot found) :
    (Context.leadingPart found).length = n.leadingCount := by
  rw [leadingCount, h]
  cases found with
  | none => rfl
  | some s =>
    simp only [leadingSlot, Context.leadingPart]
    split <;> rfl

theorem length_head {head : Option Node} (h : n.child 1 = .ofNode? head) :
    head.toList.length = n.headCount := by
  rw [headCount, h]
  cases head <;> rfl

theorem leadingSlot_inj {found found' : Option String}
    (h : leadingSlot found = leadingSlot found') : found = found' := by
  cases found <;> cases found' <;> simp_all [leadingSlot]

theorem getElem?_of_children {nodes : List Node} (h : n.children = nodes.map .node) {i : Nat}
    (hm : n.child i = .node m) : nodes[i]? = some m := by
  rw [child, h, List.getElem?_map] at hm
  cases hi : nodes[i]? with
  | none => simp [hi] at hm
  | some k =>
    rw [hi] at hm
    cases hm
    rfl

theorem exists_follows_of_convert (hkind : n.kind ∈ [.DSTR, .DXSTR, .DSYM, .DREGX]) {t : Tree}
    (h : n.convert lines options scope none = .ok t) : ∃ nodes, n.Follows nodes := by
  obtain ⟨_, shape, _, hshape⟩ := exists_shape_of_convert h
  obtain ⟨location, _, h⟩ := (convert_eq_ok_iff hshape).mp h
  obtain ⟨found, head, tail, bits, _, hhead, htail, _, rfl⟩ :=
    (shape_of_interpolation hkind).mp hshape
  obtain ⟨parts, hparts, _⟩ := (interpolation_eq_ok_iff hkind).mp h
  cases tail with
  | none => exact ⟨_, head, none, [], hhead, htail, rfl, rfl⟩
  | some list =>
    obtain ⟨_, _, rest, hrest, _⟩ := by
      simpa only [Context.interpolationParts, bind_eq_ok_iff] using hparts
    obtain ⟨found, hlist, nodes, hnodes, _⟩ := by
      simpa only [Context.fragments, bind_eq_ok_iff] using hrest
    obtain ⟨hkind, rfl⟩ := expectKind_eq_ok_iff.mp hlist
    have hchildren : found.children = nodes.map .node := nodesAt_eq_ok_iff.mp hnodes
    exact ⟨_, head, some found, nodes, hhead, htail, ⟨List.mem_singleton.mp hkind, hchildren⟩, rfl⟩

theorem getElem?_of_fragment {nodes : List Node} {trees : List Tree}
    (htrees : List.Forall₂ (fun m u => (Context.whole lines options scope).fragment m = .ok u)
      nodes trees) {i : Nat} (hi : nodes[i]? = some m) {s : String} (hm : m.Holds (.text s)) :
    ∃ location, trees[i]? = some (.string options.stringFlags s location) := by
  induction htrees generalizing i with
  | nil => simp at hi
  | cons hfirst _ ih =>
    cases i with
    | zero =>
      obtain rfl : _ = m := by simpa using hi
      cases hm with
      | text hkind htext =>
        obtain ⟨location, _, rfl⟩ := (fragment_of_STR hkind htext).mp hfirst
        exact ⟨location, rfl⟩
    | succ i => exact ih hi

theorem part?_of_hasText (hkind : n.kind ∈ [.DSTR, .DXSTR, .DSYM, .DREGX]) {t : Tree}
    (h : n.convert lines options scope none = .ok t) {slot : TextSlot} {s : String} {i : Nat}
    (hs : n.HasText slot s i) :
    ∃ location, t.part? i = some (.string (slot.flags options) s location) := by
  obtain ⟨nodes, hfollows⟩ := exists_follows_of_convert hkind h
  obtain ⟨found, bits, trees, place, hfound, _, htrees, _, hform⟩ :=
    (convert_eq_ok_iff_interpolated hkind hfollows).mp h
  obtain ⟨head, tail, rest, hhead, htail, hlists, rfl⟩ := hfollows
  have hpart (i : Nat) : t.part? i = (Context.leadingPart found ++ trees)[i]? := by
    rw [Tree.part?, hform.parts]
    rfl
  have hbehind (i : Nat) : t.part? (n.leadingCount + i) = trees[i]? := by
    rw [hpart, ← length_leadingPart hfound, List.getElem?_append_right (Nat.le_add_right _ _),
      Nat.add_sub_cancel_left]
  cases hs with
  | leading hslot hs =>
    obtain rfl : found = some s := leadingSlot_inj (hfound.symm.trans hslot)
    refine ⟨.null, (hpart 0).trans ?_⟩
    simp [Context.leadingPart, hs, TextSlot.flags]
  | @head m s hslot hm =>
    obtain rfl : head = some m := ofNode?_inj (hhead.symm.trans hslot)
    obtain ⟨location, htext⟩ := getElem?_of_fragment htrees (i := 0) rfl hm
    exact ⟨location, (hbehind 0).trans htext⟩
  | @tail list m s i hslot hchild hm =>
    obtain rfl : tail = some list := ofNode?_inj (htail.symm.trans hslot)
    have hrest : rest[i]? = some m := getElem?_of_children hlists.2 hchild
    have hnode : (head.toList ++ rest)[n.headCount + i]? = some m := by
      rw [← length_head hhead, List.getElem?_append_right (Nat.le_add_right _ _),
        Nat.add_sub_cancel_left, hrest]
    obtain ⟨location, htext⟩ := getElem?_of_fragment htrees hnode hm
    refine ⟨location, ?_⟩
    rw [Nat.add_assoc, hbehind]
    exact htext

/-- Two texts of interpolations, of one or of two, whatever their slots: each becomes a string with
that text, and the strings have the same flags exactly if literals are not frozen or both or none
of the texts is a leading one. -/
theorem convert_texts {lines' : LineTable} {scope' : Scope} {n' : Node}
    (hkind : n.kind ∈ [.DSTR, .DXSTR, .DSYM, .DREGX])
    (hkind' : n'.kind ∈ [.DSTR, .DXSTR, .DSYM, .DREGX]) {t t' : Tree}
    (h : n.convert lines options scope none = .ok t)
    (h' : n'.convert lines' options scope' none = .ok t') {slot slot' : TextSlot} {s s' : String}
    {i i' : Nat} (hs : n.HasText slot s i) (hs' : n'.HasText slot' s' i') :
    ∃ flags flags' location location', t.part? i = some (.string flags s location) ∧
      t'.part? i' = some (.string flags' s' location') ∧
      (flags = flags' ↔
        options.frozenStringLiteral = false ∨ (slot = .leading ↔ slot' = .leading)) := by
  obtain ⟨location, hpart⟩ := part?_of_hasText hkind h hs
  obtain ⟨location', hpart'⟩ := part?_of_hasText hkind' h' hs'
  exact ⟨_, _, location, location', hpart, hpart', TextSlot.flags_eq_iff⟩

/-- `"a#{x}"`, with its text in the leading slot. -/
def leadingA : Node :=
  .make .DSTR [.literal (.string "a"), .node embeddedCall, .nil] default

/-- `"a#{x}"`, with its text in the second slot. -/
def headA : Node :=
  .make .DSTR [.nil, .node (Build.string "a" default), .node (Build.list [embeddedCall] default)]
    default

/-- The same text in the same place of two interpolations that differ in its slot only. -/
theorem convert_texts_of_a :
    ∃ t t' location location', leadingA.convert ⟨[], 0⟩ {} [] none = .ok t ∧
      headA.convert ⟨[], 0⟩ {} [] none = .ok t' ∧ leadingA.HasText .leading "a" 0 ∧
      headA.HasText .head "a" 0 ∧ ∃ flags, t.part? 0 = some (.string flags "a" location) ∧
      t'.part? 0 = some (.string flags "a" location') := by
  have hleading : leadingA.HasText .leading "a" 0 := .leading rfl rfl
  have hhead : headA.HasText .head "a" 0 := .head rfl (.text rfl rfl)
  obtain ⟨t, ht⟩ : ∃ t, leadingA.convert ⟨[], 0⟩ {} [] none = .ok t := ⟨_, rfl⟩
  obtain ⟨t', ht'⟩ : ∃ t, headA.convert ⟨[], 0⟩ {} [] none = .ok t := ⟨_, rfl⟩
  obtain ⟨flags, flags', location, location', hpart, hpart', hflags⟩ :=
    convert_texts (by decide) (by decide) ht ht' hleading hhead
  obtain rfl : flags = flags' := hflags.mpr (.inl rfl)
  exact ⟨t, t', location, location', ht, ht', hleading, hhead, flags, hpart, hpart'⟩

/-- With frozen literals the text is frozen in the second slot only. -/
theorem parts_of_a_frozen :
    ∃ t t' location location',
      leadingA.convert ⟨[], 0⟩ { frozenStringLiteral := true } [] none = .ok t ∧
      headA.convert ⟨[], 0⟩ { frozenStringLiteral := true } [] none = .ok t' ∧
      t.part? 0 = some (.string Flags.empty "a" location) ∧
      t'.part? 0 = some (.string Flags.frozen "a" location') ∧ Flags.empty ≠ Flags.frozen :=
  ⟨_, _, .null, .null, rfl, rfl, rfl, rfl, by decide⟩

end Legacy.Node

end RubyTree
