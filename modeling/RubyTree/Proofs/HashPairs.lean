import Mathlib.Order.Lattice
import RubyTree.Proofs.CaseChains
import RubyTree.Proofs.LineShift

/-! The pairs of a hash. A `LIST` holds keys and values in turn, and a key that is absent makes a
double splat; the nil that ends a list as it is written is no absent key. The location of a pair is
the cover of two spans. Covering is the join of an order in which the null span is below every other
one. -/

namespace RubyTree

namespace Span

variable {s t u : Span}

def Within (s t : Span) : Prop := t.start ≤ s.start ∧ s.stop ≤ t.stop

theorem Within.trans (h : s.Within t) (h' : t.Within u) : s.Within u :=
  ⟨Nat.le_trans h'.1 h.1, Nat.le_trans h.2 h'.2⟩

theorem Within.antisymm (h : s.Within t) (h' : t.Within s) : s = t := by
  obtain ⟨start, length⟩ := s
  obtain ⟨start', length'⟩ := t
  simp only [Within, stop] at h h'
  rw [Span.mk.injEq]
  omega

theorem eq_null_of_within_null (h : s.Within null) : s = null := by
  obtain ⟨start, length⟩ := s
  have hstop : start + length ≤ 0 := h.2
  rw [null, Span.mk.injEq]
  omega

/-- A span that tells nothing is below any other. -/
instance : PartialOrder Span where
  le s t := s = null ∨ s.Within t
  le_refl s := .inr ⟨Nat.le_refl _, Nat.le_refl _⟩
  le_trans s t u hst htu := by
    rcases hst with rfl | hst
    · exact .inl rfl
    · rcases htu with rfl | htu
      · exact .inl (eq_null_of_within_null hst)
      · exact .inr (hst.trans htu)
  le_antisymm s t hst hts := by
    rcases hst with rfl | hst
    · rcases hts with rfl | hts
      · rfl
      · exact (eq_null_of_within_null hts).symm
    · rcases hts with rfl | hts
      · exact eq_null_of_within_null hst
      · exact hst.antisymm hts

theorem le_iff_within (hs : s ≠ null) : s ≤ t ↔ s.Within t := or_iff_right hs

theorem null_cover (t : Span) : null.cover t = t := rfl

theorem isNull_eq_false_iff_ne : s.isNull = false ↔ s ≠ null := by
  obtain ⟨start, length⟩ := s
  simp only [isNull_eq_false_iff, null, ne_eq, Span.mk.injEq]
  omega

theorem cover_null (s : Span) : s.cover null = s := by
  by_cases hs : s = null
  · rw [hs, null_cover]
  · have hknown : s.isNull = false := isNull_eq_false_iff_ne.mpr hs
    simp [cover, hknown, show null.isNull = true from rfl]

theorem cover_ne_null (hs : s ≠ null) (ht : t ≠ null) : s.cover t ≠ null := by
  rw [← isNull_eq_false_iff_ne] at hs ht ⊢
  exact isNull_cover_eq_false hs ht

theorem cover_within_iff (hs : s ≠ null) (ht : t ≠ null) :
    (s.cover t).Within u ↔ s.Within u ∧ t.Within u := by
  rw [cover_of_known (isNull_eq_false_iff_ne.mpr hs) (isNull_eq_false_iff_ne.mpr ht)]
  have hstop : s.start ≤ s.stop := Nat.le_add_right _ _
  have hstop' : t.start ≤ t.stop := Nat.le_add_right _ _
  have hbounds : (ofBounds (min s.start t.start) (max s.stop t.stop)).stop =
      max s.stop t.stop := by
    simp only [ofBounds, stop] at hstop hstop' ⊢
    omega
  simp only [Within, hbounds]
  simp only [ofBounds]
  omega

theorem cover_le_iff : s.cover t ≤ u ↔ s ≤ u ∧ t ≤ u := by
  by_cases hs : s = null
  · have hnull : s ≤ u := .inl hs
    rw [hs, null_cover, ← hs, and_iff_right hnull]
  · by_cases ht : t = null
    · have hnull : t ≤ u := .inl ht
      rw [ht, cover_null, ← ht, and_iff_left hnull]
    · rw [le_iff_within (cover_ne_null hs ht), le_iff_within hs, le_iff_within ht,
        cover_within_iff hs ht]

instance : SemilatticeSup Span where
  sup := cover
  le_sup_left s t := (cover_le_iff.mp (le_refl (s.cover t))).1
  le_sup_right s t := (cover_le_iff.mp (le_refl (s.cover t))).2
  sup_le _ _ _ hs ht := cover_le_iff.mpr ⟨hs, ht⟩

/-- An operation that joins spans: the order and the number of the spans make no difference, the
null span adds nothing, and around known spans it finds the least span that contains them. It does
not go beyond the ends of what it joins. -/
structure IsJoin (join : Span → Span → Span) : Prop where
  comm (s t : Span) : join s t = join t s
  assoc (s t u : Span) : join (join s t) u = join s (join t u)
  self (s : Span) : join s s = s
  null_left (s : Span) : join null s = s
  null_right (s : Span) : join s null = s
  known {s t : Span} : s ≠ null → t ≠ null → join s t ≠ null
  left {s t : Span} : s ≠ null → t ≠ null → s.Within (join s t)
  right {s t : Span} : s ≠ null → t ≠ null → t.Within (join s t)
  least {s t u : Span} : s ≠ null → t ≠ null → s.Within u → t.Within u → (join s t).Within u
  stop_le {s t : Span} {bound : Nat} : s.stop ≤ bound → t.stop ≤ bound → (join s t).stop ≤ bound

theorem isJoin_cover : IsJoin cover where
  comm := sup_comm
  assoc := sup_assoc
  self := sup_idem
  null_left := null_cover
  null_right := cover_null
  known := cover_ne_null
  left hs ht := ((cover_within_iff hs ht).mp ⟨Nat.le_refl _, Nat.le_refl _⟩).1
  right hs ht := ((cover_within_iff hs ht).mp ⟨Nat.le_refl _, Nat.le_refl _⟩).2
  least hs ht hsu htu := (cover_within_iff hs ht).mpr ⟨hsu, htu⟩
  stop_le := stop_cover_le

end Span

open Canonical (Tree)
open Legacy (Node Child)

/-- A key, which a double splat lacks, and its value. -/
structure HashPair where
  key : Option Node
  value : Node

namespace HashPair

def slots (pair : HashPair) : List Child := [.ofNode? pair.key, .node pair.value]

/-- The tree of a pair. A double splat has no location, and other pairs cover key and value. -/
inductive Gives (lines : LineTable) (options : Options) (scope : Scope) :
    HashPair → Tree → Prop where
  | splat {value : Node} {v : Tree} (hvalue : value.convert lines options scope none = .ok v) :
      Gives lines options scope ⟨none, value⟩ (.assocSplat v .null)
  | entry {key value : Node} {k v : Tree} {s u : Span}
      (hkey : key.convert lines options scope none = .ok k)
      (hvalue : value.convert lines options scope none = .ok v)
      (hkeySpan : lines.span key = .ok s) (hvalueSpan : lines.span value = .ok u) :
      Gives lines options scope ⟨some key, value⟩ (.assoc k v (s.cover u))

theorem length_flatMap_slots (pairs : List HashPair) :
    (pairs.flatMap slots).length = 2 * pairs.length := by
  induction pairs with
  | nil => rfl
  | cons pair pairs ih =>
    rw [List.flatMap_cons, List.length_append, ih, List.length_cons]
    simp only [slots, List.length_cons, List.length_nil]
    omega

/-- A list of pairs reads the same with and without the nil at its end: the last of its slots holds
a value. -/
theorem children_make_slots (pairs : List HashPair) (position : Position) :
    (Node.make .LIST (pairs.flatMap slots ++ [.nil]) position).children = pairs.flatMap slots ∧
      (Node.make .LIST (pairs.flatMap slots) position).children = pairs.flatMap slots := by
  refine ⟨Legacy.Node.dropTerminator_concat_nil _, ?_⟩
  show Legacy.Node.dropTerminator (pairs.flatMap slots) = pairs.flatMap slots
  rcases List.eq_nil_or_concat pairs with rfl | ⟨front, last, rfl⟩
  · rfl
  · have hlast : (front.concat last).flatMap slots =
        (front.flatMap slots ++ [.ofNode? last.key]) ++ [.node last.value] := by
      simp [slots]
    rw [hlast]
    exact Legacy.Node.dropTerminator_concat_of_not_isNil rfl

end HashPair

namespace Context

open HashPair (slots Gives)

variable {lines : LineTable} {options : Options} {scope : Scope} {list : Node} {t : Tree}

theorem hashElement_eq_ok_iff {i : Nat} :
    (whole lines options scope).hashElement list i = .ok t ↔
      ∃ pair : HashPair, list.child i = .ofNode? pair.key ∧
        list.child (i + 1) = .node pair.value ∧ Gives lines options scope pair t := by
  rw [hashElement, bind_eq_ok_iff]
  simp only [Legacy.Node.node_eq_ok_iff]
  constructor
  · rintro ⟨value, hvalue, h⟩
    obtain ⟨key, hkey, h⟩ := bind_eq_ok_iff.mp h
    refine ⟨⟨key, value⟩, Legacy.Node.node?_eq_ok_iff.mp hkey, hvalue, ?_⟩
    cases key with
    | none =>
      simp only [bind_eq_ok_iff, pure_eq_ok_iff] at h
      obtain ⟨v, hv, rfl⟩ := h
      exact .splat hv
    | some key =>
      simp only [bind_eq_ok_iff, pure_eq_ok_iff] at h
      obtain ⟨s, hs, u, hu, k, hk, v, hv, rfl⟩ := h
      exact .entry hk hv hs hu
  · rintro ⟨⟨key, value⟩, hkey, hvalue, h⟩
    refine ⟨value, hvalue, bind_eq_ok_iff.mpr ⟨key, Legacy.Node.node?_eq_ok_iff.mpr hkey, ?_⟩⟩
    cases h with
    | splat hv =>
      simp only [bind_eq_ok_iff, pure_eq_ok_iff]
      exact ⟨_, hv, rfl⟩
    | entry hk hv hs hu =>
      simp only [bind_eq_ok_iff, pure_eq_ok_iff]
      exact ⟨_, hs, _, hu, _, hk, _, hv, rfl⟩

theorem forall₂_hashElement_iff {count : Nat} {front rest : List Child} {before : Nat}
    {elements : List Tree} (hchildren : list.children = front ++ rest)
    (hfront : front.length = 2 * before) (hrest : rest.length = 2 * count) :
    List.Forall₂
        (fun k t => (whole lines options scope).hashElement list (2 * (before + k)) = .ok t)
        (List.range count) elements ↔
      ∃ pairs : List HashPair, rest = pairs.flatMap slots ∧
        List.Forall₂ (Gives lines options scope) pairs elements := by
  -- By induction on the number of pairs that are left, behind those in `front`.
  induction count generalizing front rest before elements with
  | zero =>
    have hnil : rest = [] := List.eq_nil_of_length_eq_zero hrest
    rw [List.range_zero, List.forall₂_nil_left_iff, hnil]
    constructor
    · rintro rfl
      exact ⟨[], rfl, .nil⟩
    · rintro ⟨pairs, hpairs, h⟩
      have hnone : pairs = [] := by
        have hlength := congrArg List.length hpairs
        rw [HashPair.length_flatMap_slots, List.length_nil] at hlength
        exact List.eq_nil_of_length_eq_zero (by omega)
      rw [hnone] at h
      exact List.forall₂_nil_left_iff.mp h
  | succ count ih =>
    obtain ⟨key, value, rest, rfl⟩ : ∃ key value others, rest = key :: value :: others := by
      rcases rest with _ | ⟨key, _ | ⟨value, others⟩⟩
      · simp at hrest
      · rw [List.length_singleton] at hrest
        omega
      · exact ⟨key, value, others, rfl⟩
    have hkey : list.child (2 * before) = key := by
      simp [Legacy.Node.child, hchildren, ← hfront]
    have hvalue : list.child (2 * before + 1) = value := by
      simp [Legacy.Node.child, hchildren, ← hfront]
    have hbehind (elements : List Tree) := @ih (front ++ [key, value]) rest (before + 1) elements
      (by simp [hchildren]) (by simp [hfront, Nat.mul_add])
      (by simp only [List.length_cons] at hrest; omega)
    have hshift (elements : List Tree) : List.Forall₂ (fun k t =>
        (whole lines options scope).hashElement list (2 * (before + k)) = .ok t)
          ((List.range count).map Nat.succ) elements ↔
        List.Forall₂ (fun k t =>
          (whole lines options scope).hashElement list (2 * (before + 1 + k)) = .ok t)
          (List.range count) elements := by
      rw [List.forall₂_map_left_iff]
      have hindex (k : Nat) : before + k.succ = before + 1 + k := by omega
      exact ⟨fun h => h.imp fun k _ hk => hindex k ▸ hk, fun h => h.imp fun k _ hk => hindex k ▸ hk⟩
    rw [List.range_succ_eq_map, List.forall₂_cons_left_iff]
    simp only [hshift, hbehind]
    simp only [Nat.add_zero, hashElement_eq_ok_iff, hkey, hvalue]
    constructor
    · rintro ⟨t, trees, ⟨pair, hpairKey, hpairValue, ht⟩, ⟨pairs, rfl, htrees⟩, rfl⟩
      refine ⟨pair :: pairs, ?_, .cons ht htrees⟩
      rw [hpairKey, hpairValue]
      rfl
    · rintro ⟨pairs, hpairs, h⟩
      cases h with
      | nil => cases hpairs
      | @cons pair t pairs trees ht htrees =>
        simp only [List.flatMap_cons, slots, List.cons_append, List.nil_append,
          List.cons.injEq] at hpairs
        obtain ⟨hpairKey, hpairValue, hrest⟩ := hpairs
        exact ⟨t, trees, ⟨pair, hpairKey, hpairValue, ht⟩, ⟨pairs, hrest, htrees⟩, rfl⟩

theorem hashElements_eq_ok_iff (hlist : list.kind = .LIST) {elements : List Tree} :
    (whole lines options scope).hashElements (some list) = .ok elements ↔
      ∃ pairs : List HashPair, list.children = pairs.flatMap slots ∧
        List.Forall₂ (Gives lines options scope) pairs elements := by
  rw [hashElements, Legacy.Node.expectKind_of_kind hlist]
  show (if list.children.length % 2 = 0 then _ else _) = _ ↔ _
  by_cases heven : list.children.length % 2 = 0
  · rw [if_pos heven, mapM_eq_ok_iff]
    have h := @forall₂_hashElement_iff lines options scope list (list.children.length / 2) []
      list.children 0 elements rfl rfl (by omega)
    simpa only [Nat.zero_add] using h
  · rw [if_neg heven]
    constructor
    · intro h
      cases h
    · rintro ⟨pairs, hpairs, _⟩
      rw [hpairs, HashPair.length_flatMap_slots] at heven
      omega

end Context

namespace Legacy.Node

variable {lines : LineTable} {options : Options} {scope : Scope} {n list : Node} {t : Tree}

theorem shape_of_HASH {shape : Legacy.Shape} (hkind : n.kind = .HASH) :
    n.shape = .ok shape ↔ ∃ pairs, n.child 0 = .ofNode? pairs ∧ shape = .hash pairs := by
  simp only [Node.shape, hkind, bind_eq_ok_iff, node?_eq_ok_iff, pure_eq_ok_iff]

/-- The tree of a hash: one element for each pair, in order. -/
def HashTree (lines : LineTable) (options : Options) (scope : Scope) (n list : Node) (t : Tree) :
    Prop :=
  ∃ pairs elements location, list.children = pairs.flatMap HashPair.slots ∧
    List.Forall₂ (HashPair.Gives lines options scope) pairs elements ∧
    lines.span n = .ok location ∧ t = .hash elements location

theorem convert_eq_ok_iff_hashTree (hkind : n.kind = .HASH) (hslot : n.child 0 = .node list)
    (hlist : list.kind = .LIST) :
    n.convert lines options scope none = .ok t ↔ HashTree lines options scope n list t := by
  have hshape : n.shape = .ok (.hash (some list)) :=
    (shape_of_HASH hkind).mpr ⟨some list, hslot, rfl⟩
  rw [convert_eq_ok_iff hshape]
  simp only [Context.shaped, bind_eq_ok_iff, pure_eq_ok_iff, Context.hashElements_eq_ok_iff hlist]
  constructor
  · rintro ⟨location, hlocation, elements, ⟨pairs, hpairs, helements⟩, rfl⟩
    exact ⟨pairs, elements, location, hpairs, helements, hlocation, rfl⟩
  · rintro ⟨pairs, elements, location, hpairs, helements, hlocation, rfl⟩
    exact ⟨location, hlocation, elements, ⟨pairs, hpairs, helements⟩, rfl⟩

theorem HashTree.length_children (h : HashTree lines options scope n list t) :
    ∃ elements location, t = .hash elements location ∧
      list.children.length = 2 * elements.length := by
  obtain ⟨pairs, elements, location, hpairs, helements, _, rfl⟩ := h
  refine ⟨elements, location, rfl, ?_⟩
  rw [hpairs, HashPair.length_flatMap_slots, helements.length_eq]

/-- The elements of a hash are its pairs, one for one and in order. A pair without a key gives a
double splat without a location, and any other one is located at the cover of its key and its value.
Slots of odd number never make pairs, and the nil that ends a list as it is written makes none. -/
theorem convert_hashPairs (hkind : n.kind = .HASH) (hslot : n.child 0 = .node list)
    (hlist : list.kind = .LIST) :
    (∀ t, n.convert lines options scope none = .ok t ↔ HashTree lines options scope n list t) ∧
      (∀ count t, list.children.length = 2 * count →
        n.convert lines options scope none = .ok t →
        ∃ elements location, t = .hash elements location ∧ elements.length = count) ∧
      (list.children.length % 2 = 1 → ∃ fault, n.convert lines options scope none = .error fault) ∧
      (∀ (pairs : List HashPair) (position : Position),
        (Node.make .LIST (pairs.flatMap HashPair.slots ++ [.nil]) position).children =
            pairs.flatMap HashPair.slots ∧
          (Node.make .LIST (pairs.flatMap HashPair.slots) position).children =
            pairs.flatMap HashPair.slots) ∧
      Span.IsJoin Span.cover := by
  have htree (t : Tree) :=
    @convert_eq_ok_iff_hashTree lines options scope n list t hkind hslot hlist
  refine ⟨htree, ?_, ?_, HashPair.children_make_slots, Span.isJoin_cover⟩
  · intro count t hcount ht
    obtain ⟨elements, location, rfl, hlength⟩ := ((htree t).mp ht).length_children
    exact ⟨elements, location, rfl, by omega⟩
  · intro hodd
    cases hresult : n.convert lines options scope none with
    | error fault => exact ⟨fault, rfl⟩
    | ok t =>
      obtain ⟨elements, location, _, hlength⟩ := ((htree t).mp hresult).length_children
      omega

/-- `{a => b, **h}`, with the nil at the end of the list. -/
def pairAndSplat : Node :=
  let call (name : String) (first last : Nat) : Node :=
    Build.named .VCALL ⟨name⟩ ⟨1, first, 1, last⟩
  .make .LIST [.node (call "a" 1 2), .node (call "b" 6 7), .nil, .node (call "h" 11 12), .nil]
    ⟨1, 1, 1, 12⟩

theorem convert_hashPairs_pairAndSplat :
    let n := Node.make .HASH [.node pairAndSplat] ⟨1, 0, 1, 13⟩
    n.kind = .HASH ∧ n.child 0 = .node pairAndSplat ∧ pairAndSplat.kind = .LIST ∧
      pairAndSplat.children.length = 2 * 2 ∧
      ∃ a b h location, n.convert ⟨[0], 13⟩ {} [[]] none =
          .ok (.hash [.assoc a b ⟨1, 6⟩, .assocSplat h .null] location) ∧
        HashTree ⟨[0], 13⟩ {} [[]] n pairAndSplat
          (.hash [.assoc a b ⟨1, 6⟩, .assocSplat h .null] location) := by
  intro n
  obtain ⟨htree, _⟩ := @convert_hashPairs ⟨[0], 13⟩ {} [[]] n pairAndSplat rfl rfl rfl
  exact ⟨rfl, rfl, rfl, rfl, _, _, _, _, rfl, (htree _).mp rfl⟩

end Legacy.Node

end RubyTree
