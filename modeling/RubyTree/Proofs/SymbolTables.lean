import Mathlib.Data.Finset.Card
import RubyTree.Proofs.ByteOrder
import RubyTree.Symbol

/-! Symbols stand for names. Whatever names a table has met, its two directions are the same
numbering: the number found for a name is the place where the name stands. Places are never given
up, so a symbol keeps its name in every later table, and as long as the places fit into the numbers
no two names share one. Symbols can then be compared, ordered and extended in place of their
names. -/

namespace RubyTree

namespace Interner

variable {table : Interner} {name other : Name} {id : UInt32} {i : Nat}

/-- The tables of both directions hold the same numbering. -/
structure Linked (table : Interner) : Prop where
  nodup : table.names.toList.Nodup
  id?_eq_some_iff : ∀ {name id},
    table.id? name = some id ↔ ∃ i, table.names[i]? = some name ∧ UInt32.ofNat i = id

/-! One call. A name that is known changes nothing, any other takes the place after the last. -/

theorem intern_of_id? (h : table.id? name = some id) : table.intern name = (id, table) := by
  rw [intern, h]

theorem intern_of_id?_eq_none (h : table.id? name = none) : table.intern name = table.add name := by
  rw [intern, h]

theorem id?_add (table : Interner) (name other : Name) :
    (table.add name).2.id? other =
      if name = other then some (UInt32.ofNat table.names.size) else table.id? other := by
  unfold id? add
  by_cases h : name = other <;> simp [h]

theorem getElem?_add :
    (table.add name).2.names[i]? = some other ↔
      i = table.names.size ∧ name = other ∨ table.names[i]? = some other := by
  change (table.names.push name)[i]? = some other ↔ _
  rw [Array.getElem?_push]
  by_cases h : i = table.names.size <;> simp [h]

theorem id?_intern (table : Interner) (name : Name) :
    (table.intern name).2.id? name = some (table.intern name).1 := by
  cases h : table.id? name with
  | some id => rw [intern_of_id? h, h]
  | none => rw [intern_of_id?_eq_none h, id?_add, if_pos rfl, add]

theorem id?_intern_of_id? (h : table.id? name = some id) (other : Name) :
    (table.intern other).2.id? name = some id := by
  cases hother : table.id? other with
  | some id => rw [intern_of_id? hother, h]
  | none =>
    have hne : other ≠ name := by
      rintro rfl
      rw [h] at hother
      cases hother
    rw [intern_of_id?_eq_none hother, id?_add, if_neg hne, h]

theorem size_intern_le (table : Interner) (name : Name) :
    (table.intern name).2.size ≤ table.size + 1 := by
  cases h : table.id? name with
  | some id =>
    rw [intern_of_id? h]
    exact Nat.le_succ _
  | none =>
    rw [intern_of_id?_eq_none h]
    exact (Array.size_push name).le

theorem linked_empty : empty.Linked where
  nodup := List.nodup_nil
  id?_eq_some_iff := by simp [id?, empty]

namespace Linked

theorem mem_names_iff (h : table.Linked) :
    name ∈ table.names.toList ↔ ∃ id, table.id? name = some id := by
  simp only [h.id?_eq_some_iff, List.mem_iff_getElem?, Array.getElem?_toList]
  constructor
  · rintro ⟨i, hi⟩
    exact ⟨_, i, hi, rfl⟩
  · rintro ⟨_, i, hi, -⟩
    exact ⟨i, hi⟩

theorem not_mem_names (h : table.Linked) (hnew : table.id? name = none) :
    name ∉ table.names.toList := by
  rw [h.mem_names_iff, hnew]
  rintro ⟨id, hid⟩
  cases hid

theorem add (h : table.Linked) (hnew : table.id? name = none) : (table.add name).2.Linked where
  nodup := by
    rw [Interner.add, Array.toList_push, List.nodup_append]
    refine ⟨h.nodup, List.nodup_singleton name, ?_⟩
    rintro a ha b hb rfl
    exact h.not_mem_names hnew (List.mem_singleton.mp hb ▸ ha)
  id?_eq_some_iff := by
    intro other id
    rw [id?_add]
    constructor
    · split
      case isTrue heq =>
        intro hid
        exact ⟨_, getElem?_add.mpr (.inl ⟨rfl, heq⟩), Option.some.inj hid⟩
      case isFalse =>
        intro hid
        obtain ⟨i, hi, hplace⟩ := h.id?_eq_some_iff.mp hid
        exact ⟨i, getElem?_add.mpr (.inr hi), hplace⟩
    · rintro ⟨i, hi, rfl⟩
      rcases getElem?_add.mp hi with ⟨rfl, heq⟩ | hi
      · rw [if_pos heq]
      · have hid := h.id?_eq_some_iff.mpr ⟨i, hi, rfl⟩
        rw [if_neg, hid]
        rintro rfl
        rw [hnew] at hid
        cases hid

theorem intern (h : table.Linked) (name : Name) : (table.intern name).2.Linked := by
  cases hname : table.id? name with
  | some id => rwa [intern_of_id? hname]
  | none =>
    rw [intern_of_id?_eq_none hname]
    exact h.add hname

theorem mem_names_intern (h : table.Linked) :
    other ∈ (table.intern name).2.names.toList ↔ other = name ∨ other ∈ table.names.toList := by
  cases hname : table.id? name with
  | some number =>
    have hmem := h.mem_names_iff.mpr ⟨number, hname⟩
    rw [intern_of_id? hname]
    exact ⟨.inr, fun hother => hother.elim (fun heq => heq ▸ hmem) id⟩
  | none =>
    rw [intern_of_id?_eq_none hname, Interner.add, Array.toList_push, List.mem_append,
      List.mem_singleton, or_comm]

/-- The number of a name leads back to it, as long as there is a number for every place. -/
theorem id?_eq_some_iff_name? (h : table.Linked) (hsize : table.size ≤ 2 ^ 32) :
    table.id? name = some id ↔ table.name? id = some name := by
  rw [h.id?_eq_some_iff, name?]
  constructor
  · rintro ⟨i, hi, rfl⟩
    have hlt : i < table.names.size := (Array.getElem?_eq_some_iff.mp hi).1
    rwa [UInt32.toNat_ofNat_of_lt' (hlt.trans_le hsize)]
  · intro hid
    exact ⟨id.toNat, hid, UInt32.ofNat_toNat⟩

end Linked

/-! A run of calls. -/

theorem internAll_append (table : Interner) (names rest : List Name) :
    (table.internAll (names ++ rest)).2 = ((table.internAll names).2.internAll rest).2 := by
  induction names generalizing table with
  | nil => rfl
  | cons name names ih => exact ih (table.intern name).2

theorem id?_internAll_of_id? (h : table.id? name = some id) (names : List Name) :
    (table.internAll names).2.id? name = some id := by
  induction names generalizing table with
  | nil => exact h
  | cons other names ih => exact ih (id?_intern_of_id? h other)

theorem Linked.internAll (h : table.Linked) (names : List Name) :
    (table.internAll names).2.Linked := by
  induction names generalizing table with
  | nil => exact h
  | cons name names ih => exact ih (h.intern name)

theorem Linked.mem_names_internAll (h : table.Linked) (names : List Name) :
    other ∈ (table.internAll names).2.names.toList ↔
      other ∈ names ∨ other ∈ table.names.toList := by
  induction names generalizing table with
  | nil => exact ⟨.inr, fun hother => hother.resolve_left List.not_mem_nil⟩
  | cons name names ih =>
    refine (ih (h.intern name)).trans ?_
    rw [h.mem_names_intern, List.mem_cons, or_left_comm, or_assoc]

/-- A table that was empty has one place for each different name it has met. -/
theorem size_internAll (names : List Name) :
    (empty.internAll names).2.size = names.toFinset.card := by
  have hlinked := linked_empty.internAll names
  have hnames : names.toFinset = (empty.internAll names).2.names.toList.toFinset := by
    ext name
    rw [List.mem_toFinset, List.mem_toFinset, linked_empty.mem_names_internAll]
    exact ⟨.inl, fun h => h.resolve_right List.not_mem_nil⟩
  rw [hnames, List.toFinset_card_of_nodup hlinked.nodup, Array.length_toList, size]

def after (names : List Name) (k : Nat) : Interner := (empty.internAll (names.take k)).2

section Runs

variable {names : List Name} {k l : Nat}

theorem linked_after (names : List Name) (k : Nat) : (after names k).Linked :=
  linked_empty.internAll _

theorem after_length (names : List Name) :
    after names names.length = (empty.internAll names).2 := by
  rw [after, List.take_length]

theorem size_after_le (names : List Name) (k : Nat) :
    (after names k).size ≤ names.toFinset.card := by
  rw [after, size_internAll]
  apply Finset.card_le_card
  intro name h
  exact List.mem_toFinset.mpr (List.mem_of_mem_take (List.mem_toFinset.mp h))

theorem after_succ (h : names[i]? = some name) :
    after names (i + 1) = ((after names i).intern name).2 := by
  rw [after, List.take_add_one, h, Option.toList_some, internAll_append]
  rfl

theorem id?_after_mono (h : (after names k).id? name = some id) (hkl : k ≤ l) :
    (after names l).id? name = some id := by
  obtain ⟨rest, hrest⟩ := List.take_prefix_take_left hkl
  rw [after, ← hrest, internAll_append]
  exact id?_internAll_of_id? h rest

end Runs

end Interner

namespace Symbol

open Interner (after)
open Utf8 (bytes)

/-- One call of a run on a table that was empty: the name it is made for, and the symbol that it
returns with the table for the next call. -/
structure Call (names : List Name) (i : Nat) (name : Name) (symbol : Symbol) : Prop where
  asks : names[i]? = some name
  returns : ofName (after names i) name = (symbol, after names (i + 1))

variable {names : List Name} {i j k : Nat} {s t : Name} {a b : Symbol}

theorem exists_call (h : names[i]? = some s) : ∃ a, Call names i s a := by
  refine ⟨(ofName (after names i) s).1, h, ?_⟩
  rw [Interner.after_succ h]
  rfl

theorem exists_call_of_mem (h : s ∈ names) : ∃ i a, Call names i s a := by
  obtain ⟨i, hi⟩ := List.mem_iff_getElem?.mp h
  exact ⟨i, exists_call hi⟩

namespace Call

theorem lt_length (h : Call names i s a) : i < names.length :=
  (List.getElem?_eq_some_iff.mp h.asks).1

theorem id? (h : Call names i s a) (hk : i < k) : (after names k).id? s = some a.id := by
  have hreturns : ((after names i).intern s).1 = a.id := congrArg (·.1.id) h.returns
  have hid := Interner.id?_intern (after names i) s
  rw [← Interner.after_succ h.asks, hreturns] at hid
  exact Interner.id?_after_mono hid hk

theorem ofName_eq (h : Call names i s a) (hk : i < k) :
    ofName (after names k) s = (a, after names k) := by
  rw [ofName, Interner.intern_of_id? (h.id? hk)]

variable (hfew : names.toFinset.card ≤ 2 ^ 32)

include hfew

theorem id?_iff_name? (k : Nat) :
    (after names k).id? s = some a.id ↔ a.name? (after names k) = some s :=
  (Interner.linked_after names k).id?_eq_some_iff_name?
    ((Interner.size_after_le names k).trans hfew)

theorem name? (h : Call names i s a) (hk : i < k) : a.name? (after names k) = some s :=
  (id?_iff_name? hfew k).mp (h.id? hk)

theorem eq_iff (ha : Call names i s a) (hb : Call names j t b) : a = b ↔ s = t := by
  -- Both names are known after the later one of the two calls.
  have hs := ha.id? (k := max i j + 1) (by omega)
  have ht := hb.id? (k := max i j + 1) (by omega)
  constructor
  · rintro rfl
    rw [id?_iff_name? hfew] at hs ht
    exact Option.some.inj (hs.symm.trans ht)
  · rintro rfl
    exact Symbol.ext (Option.some.inj (hs.symm.trans ht))

theorem compare_eq (ha : Call names i s a) (hb : Call names j t b) (hi : i < k) (hj : j < k) :
    a.compare (after names k) b = some (Ord.compare (bytes s.text) (bytes t.text)) := by
  rw [← Name.compare_eq, Symbol.compare]
  split
  case isTrue heq => rw [(ha.eq_iff hfew hb).mp heq, Name.compare_eq, Std.ReflOrd.compare_self]
  case isFalse =>
    rw [ha.name? hfew hi, hb.name? hfew hj]
    rfl

theorem compare_eq_eq_iff (ha : Call names i s a) (hb : Call names j t b) (hi : i < k)
    (hj : j < k) : a.compare (after names k) b = some .eq ↔ a = b := by
  rw [ha.compare_eq hfew hb hi hj, Utf8.compare_bytes, Option.some_inj, Std.compare_eq_iff_eq,
    ha.eq_iff hfew hb, Name.ext_iff]

theorem withSuffix_eq (h : Call names i s a) (hk : i < k) (suffix : String) :
    a.withSuffix (after names k) suffix =
      some (ofName (after names k) ⟨s.text ++ suffix⟩) := by
  rw [withSuffix, h.name? hfew hk]
  rfl

end Call

/-- The numbers that the calls of a run return are the first ones, one for each different name. -/
theorem exists_call_iff (hfew : names.toFinset.card ≤ 2 ^ 32) (id : UInt32) :
    (∃ i s, Call names i s ⟨id⟩) ↔ id.toNat < names.toFinset.card := by
  rw [← Interner.size_internAll, ← Interner.after_length]
  constructor
  · rintro ⟨i, s, h⟩
    exact (Array.getElem?_eq_some_iff.mp (h.name? hfew h.lt_length)).1
  · intro hlt
    obtain ⟨s, hs⟩ : ∃ s, (Symbol.mk id).name? (after names names.length) = some s :=
      ⟨_, Array.getElem?_eq_getElem hlt⟩
    have hid := (Call.id?_iff_name? hfew names.length).mpr hs
    -- The name at this place was met in the run, by a call that returned its number.
    have hmem := (Interner.linked_after names names.length).mem_names_iff.mpr ⟨id, hid⟩
    rw [Interner.after_length, Interner.linked_empty.mem_names_internAll] at hmem
    obtain ⟨i, a, ha⟩ := exists_call_of_mem (hmem.resolve_right List.not_mem_nil)
    have heq : a = ⟨id⟩ := Symbol.ext (Option.some.inj ((ha.id? ha.lt_length).symm.trans hid))
    exact ⟨i, s, heq ▸ ha⟩

theorem name?_ofName {table : Interner} (h : table.Linked) (hsize : table.size < 2 ^ 32)
    (name : Name) : (ofName table name).1.name? (ofName table name).2 = some name :=
  ((h.intern name).id?_eq_some_iff_name? ((Interner.size_intern_le table name).trans hsize)).mp
    (Interner.id?_intern table name)

/-- Symbols tell the names of a run apart just when there is a number for each of them. -/
theorem names_eq_iff_card_le :
    (∀ i j s t a, Call names i s a → Call names j t a → s = t) ↔
      names.toFinset.card ≤ 2 ^ 32 := by
  constructor
  · intro hinj
    by_contra hmany
    have hcard : (Finset.range (2 ^ 32)).card < names.toFinset.card := by
      rw [Finset.card_range]
      exact Nat.lt_of_not_le hmany
    -- Two of the names are found under one number in the last table.
    obtain ⟨s, hs, t, ht, hne, heq⟩ := Finset.exists_ne_map_eq_of_card_lt_of_maps_to hcard
      (f := fun name => (((after names names.length).id? name).getD 0).toNat)
      (fun name _ => Finset.mem_range.mpr (UInt32.toNat_lt _))
    obtain ⟨i, a, ha⟩ := exists_call_of_mem (List.mem_toFinset.mp hs)
    obtain ⟨j, b, hb⟩ := exists_call_of_mem (List.mem_toFinset.mp ht)
    rw [ha.id? ha.lt_length, hb.id? hb.lt_length] at heq
    have hab : a = b := Symbol.ext (UInt32.toNat_inj.mp heq)
    exact hne (hinj i j s t a ha (hab ▸ hb))
  · intro hfew i j s t a ha hb
    exact (ha.eq_iff hfew hb).mp rfl

/-- In a run that meets fewer than 2³² different names on a table that was empty, symbols and names
correspond one to one. Every call returns a symbol, and two calls return the same number just when
they are made for the same text. From then on the symbol has that text in every later table. The
numbers returned are those below the count of different names. So symbols are equal just when their
texts are, they are ordered as the bytes of their texts, and a symbol with a suffix is that of the
text with the suffix. -/
theorem calls_bijective (names : List Name) (hfew : names.toFinset.card < 2 ^ 32) :
    (∀ i s, names[i]? = some s → ∃ a, Call names i s a) ∧
    (∀ i j s t a b, Call names i s a → Call names j t b → (a.id = b.id ↔ s.text = t.text)) ∧
    (∀ i s a, Call names i s a → ∀ k, i < k → (after names k).name? a.id = some s) ∧
    (∀ id : UInt32, (∃ i s a, Call names i s a ∧ a.id = id) ↔ id.toNat < names.toFinset.card) ∧
    (∀ i j s t a b, Call names i s a → Call names j t b →
      (a = b ↔ s.text = t.text) ∧
      ∀ k, i < k → j < k →
        a.compare (after names k) b = some (Ord.compare (bytes s.text) (bytes t.text)) ∧
        (a.compare (after names k) b = some .eq ↔ a = b)) ∧
    ∀ i s a, Call names i s a → ∀ k, i < k → ∀ suffix, ∃ b later,
      a.withSuffix (after names k) suffix = some (b, later) ∧
      ofName (after names k) ⟨s.text ++ suffix⟩ = (b, later) ∧
      b.name? later = some ⟨s.text ++ suffix⟩ ∧
      ∀ j c, j < k → Call names j ⟨s.text ++ suffix⟩ c → b = c := by
  have hnumbers := hfew.le
  refine ⟨fun i s h => exists_call h, ?_, fun i s a h k hk => h.name? hnumbers hk, ?_, ?_, ?_⟩
  · intro i j s t a b ha hb
    rw [← Symbol.ext_iff, ha.eq_iff hnumbers hb, Name.ext_iff]
  · intro id
    rw [← exists_call_iff hnumbers id]
    constructor
    · rintro ⟨i, s, a, h, rfl⟩
      exact ⟨i, s, h⟩
    · rintro ⟨i, s, h⟩
      exact ⟨i, s, _, h, rfl⟩
  · intro i j s t a b ha hb
    refine ⟨by rw [ha.eq_iff hnumbers hb, Name.ext_iff], fun k hi hj => ?_⟩
    exact ⟨ha.compare_eq hnumbers hb hi hj, ha.compare_eq_eq_iff hnumbers hb hi hj⟩
  · intro i s a h k hk suffix
    refine ⟨_, _, h.withSuffix_eq hnumbers hk suffix, rfl, ?_, ?_⟩
    · exact name?_ofName (Interner.linked_after names k)
        ((Interner.size_after_le names k).trans_lt hfew) _
    · intro j c hj hc
      exact congrArg Prod.fst (hc.ofName_eq hj)

/-- The name met first is the later one in the order of the bytes, and it is met again. -/
theorem calls_bijective_widths :
    let names : List Name := [⟨"😀"⟩, ⟨"ｚ"⟩, ⟨"😀"⟩, ⟨"ｚ="⟩]
    names.toFinset.card < 2 ^ 32 ∧ ∃ a b c,
      Call names 0 ⟨"😀"⟩ a ∧ Call names 1 ⟨"ｚ"⟩ b ∧ Call names 2 ⟨"😀"⟩ a ∧
      Call names 3 ⟨"ｚ="⟩ c ∧ a ≠ b ∧ b.compare (after names 4) a = some .lt ∧
      (b.withSuffix (after names 4) "=").map (·.1) = some c := by
  intro names
  have hfew : names.toFinset.card < 2 ^ 32 := (List.toFinset_card_le names).trans_lt (by decide)
  obtain ⟨hcalls, -, -, -, hsymbols, hsuffix⟩ := calls_bijective names hfew
  obtain ⟨a, ha⟩ := hcalls 0 ⟨"😀"⟩ rfl
  obtain ⟨b, hb⟩ := hcalls 1 ⟨"ｚ"⟩ rfl
  obtain ⟨a', ha'⟩ := hcalls 2 ⟨"😀"⟩ rfl
  obtain ⟨c, hc⟩ := hcalls 3 ⟨"ｚ="⟩ rfl
  cases (hsymbols 0 2 _ _ a a' ha ha').1.mpr rfl
  obtain ⟨hne, horder⟩ := hsymbols 1 0 _ _ b a hb ha
  obtain ⟨d, later, hd, -, -, hlisted⟩ := hsuffix 1 _ b hb 4 (by decide) "="
  have hlt : Ord.compare (bytes "ｚ") (bytes "😀") = .lt := (Utf8.compare_bytes_of_lt (by decide)).1
  refine ⟨hfew, a, b, c, ha, hb, ha', hc, ?_, ?_, ?_⟩
  · rintro rfl
    exact absurd (hne.mp rfl) (by decide)
  · rw [(horder 4 (by decide) (by decide)).1, hlt]
  · rw [hd, hlisted 3 c (by decide) hc]
    rfl

end Symbol

end RubyTree
