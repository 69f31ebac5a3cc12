import RubyTree.Proofs.Similarity

/-! What a comparison with the tree of another tool tells. That tree may be any JSON value. Where it
writes every canonical kind with the fields that the kind has, a comparison without a difference
means one value up to the order of members and up to null spans. A kind without its fields is taken
for one that has none, and nothing but its name and the location is compared. -/

namespace RubyTree

open Canonical (Kind Fields Field FieldSort Value Tree)

namespace Json

variable {e a : Json} {es as : List (String × Json)}

/-- One value up to the order of members. Spans that face each other may differ if one of them is
null, and the two zeros are one number. -/
inductive Same : Json → Json → Prop where
  | scalar {v : Json} (h : v.isScalar = true) : Same v v
  | zeros {x y : Double} (hx : x.isZero = true) (hy : y.isZero = true) :
      Same (.number (.float x)) (.number (.float y))
  | array {es as : List Json} (h : List.Forall₂ Same es as) : Same (.array es) (.array as)
  | object {es as : List (String × Json)}
      (h : ∀ key, Option.Rel Same (member? es key) (member? as key)) :
      Same (.object es) (.object as)
  | nullSpan {e a : Json} {s t : Span} (he : e.span? = some s) (ha : a.span? = some t)
      (h : s = .null ∨ t = .null) : Same e a

/-- The fields are there exactly if the kind of this name has any. -/
def HasFieldsOf (kind : Json) (k : Kind) : Prop :=
  kind.kindParts.2.isNone = k.fields.isEmpty

/-- The kind may have any name, but if that is a canonical one, it is written with its fields. -/
def IsFullKind (kind : Json) : Prop :=
  ∀ k : Kind, kind.kindParts.1 = k.variant → kind.HasFieldsOf k

def IsCanonicalKind (kind : Json) : Prop :=
  ∃ k : Kind, kind.kindParts.1 = k.variant ∧ kind.HasFieldsOf k

/-- If the value is a node, its kind passes. -/
def NodeKind (Passes : Json → Prop) (value : Json) : Prop :=
  ∀ kind location, value.node? = some (kind, location) → Passes kind

mutual

/-- The kind of every node in the value passes. -/
def Kinds (Passes : Json → Prop) : Json → Prop
  | .array items => KindsOfItems Passes items
  | .object members => NodeKind Passes (.object members) ∧ KindsOfMembers Passes members
  | _ => True

def KindsOfItems (Passes : Json → Prop) : List Json → Prop
  | [] => True
  | item :: items => Kinds Passes item ∧ KindsOfItems Passes items

def KindsOfMembers (Passes : Json → Prop) : List (String × Json) → Prop
  | [] => True
  | (_, value) :: members => Kinds Passes value ∧ KindsOfMembers Passes members

end

/-- Every node in the value that has a canonical kind writes it with the fields that it has. -/
abbrev KindsInFull : Json → Prop := Kinds IsFullKind

section

variable {Passes : Json → Prop}

theorem kindsOfItems_iff {items : List Json} :
    KindsOfItems Passes items ↔ ∀ item ∈ items, item.Kinds Passes := by
  induction items with
  | nil => simp [KindsOfItems]
  | cons item items ih => simp [KindsOfItems, ih]

theorem kindsOfMembers_iff {members : List (String × Json)} :
    KindsOfMembers Passes members ↔ ∀ member ∈ members, member.2.Kinds Passes := by
  induction members with
  | nil => simp [KindsOfMembers]
  | cons member members ih => simp [KindsOfMembers, ih]

end

/-! Members of objects. -/

theorem mem_of_member? {key : String} {value : Json} (h : member? es key = some value) :
    (key, value) ∈ es := by
  obtain ⟨⟨k, v⟩, hfind, rfl⟩ := Option.map_eq_some_iff.mp h
  have hkey : k = key := by simpa using List.find?_some hfind
  exact hkey ▸ List.mem_of_find?_eq_some hfind

theorem Kinds.member {Passes : Json → Prop} {key : String} {value : Json}
    (h : (Json.object es).Kinds Passes) (hv : member? es key = some value) : value.Kinds Passes :=
  kindsOfMembers_iff.mp h.2 (key, value) (mem_of_member? hv)

theorem member?_eq_none_of_pair {k l key : String} {v w : Json} (hlen : es.length = 2)
    (hk : member? es k = some v) (hl : member? es l = some w) (hkl : k ≠ l) (hkey : key ≠ k)
    (hkey' : key ≠ l) : member? es key = none := by
  obtain ⟨⟨k₁, v₁⟩, ⟨k₂, v₂⟩, rfl⟩ := List.length_eq_two.mp hlen
  have hmem := mem_of_member? hk
  have hmem' := mem_of_member? hl
  rw [member?_eq_none_iff]
  simp only [List.mem_cons, Prod.mk.injEq, List.not_mem_nil, or_false] at hmem hmem'
  simp only [List.map_cons, List.map_nil, List.mem_cons, List.not_mem_nil, or_false]
  grind

theorem Same.pair {k l : String} {v w v' w' : Json} (hkl : k ≠ l) (hes : es.length = 2)
    (has : as.length = 2) (hk : member? es k = some v) (hl : member? es l = some w)
    (hk' : member? as k = some v') (hl' : member? as l = some w') (hv : Same v v')
    (hw : Same w w') : Same (.object es) (.object as) := by
  refine .object fun key => ?_
  by_cases h : key = k
  · subst h
    rw [hk, hk']
    exact .some hv
  · by_cases h' : key = l
    · subst h'
      rw [hl, hl']
      exact .some hw
    · rw [member?_eq_none_of_pair hes hk hl hkl h h', member?_eq_none_of_pair has hk' hl' hkl h h']
      exact .none

/-! What spans and nodes are made of. -/

theorem nat64?_eq_some {value : Json} {n : Nat} (h : value.nat64? = some n) : value = ofNat n := by
  unfold nat64? natBelow? at h
  split at h
  · split at h
    · cases h
      rfl
    · cases h
  · cases h

theorem span?_eq_some {s : Span} (h : e.span? = some s) :
    ∃ es, e = .object es ∧ es.length = 2 ∧ member? es "start" = some (ofNat s.start) ∧
      member? es "length" = some (ofNat s.length) := by
  cases e with
  | object es =>
    simp only [span?] at h
    split at h
    · next hlen =>
      simp only [Option.bind_eq_bind, Option.bind_eq_some_iff, Option.some.injEq] at h
      obtain ⟨start, hstart, length, hlength, m, hm, n, hn, rfl⟩ := h
      rw [nat64?_eq_some hm] at hstart
      rw [nat64?_eq_some hn] at hlength
      exact ⟨es, rfl, hlen, hstart, hlength⟩
    · cases h
  | _ => cases h

theorem node?_eq_some {kind location : Json} (h : e.node? = some (kind, location)) :
    ∃ es, e = .object es ∧ es.length = 2 ∧ member? es "kind" = some kind ∧
      member? es "location" = some location := by
  cases e with
  | object es =>
    simp only [node?] at h
    split at h
    · next hlen =>
      simp only [Option.bind_eq_bind, Option.bind_eq_some_iff, Option.some.injEq,
        Prod.mk.injEq] at h
      obtain ⟨k, hk, l, hl, rfl, rfl⟩ := h
      exact ⟨es, rfl, hlen, hk, hl⟩
    · cases h
  | _ => cases h

theorem span?_eq_none_of_node? {kind location : Json} (h : e.node? = some (kind, location)) :
    e.span? = none := by
  obtain ⟨es, rfl, hlen, hkind, hlocation⟩ := node?_eq_some h
  have hstart : member? es "start" = none :=
    member?_eq_none_of_pair hlen hkind hlocation (by decide) (by decide) (by decide)
  simp [span?, hlen, hstart]

theorem same_of_equal_spans {s : Span} (he : e.span? = some s) (ha : a.span? = some s) :
    Same e a := by
  obtain ⟨es, rfl, hes, hstart, hlength⟩ := span?_eq_some he
  obtain ⟨as, rfl, has, hstart', hlength'⟩ := span?_eq_some ha
  exact .pair (by decide) hes has hstart hlength hstart' hlength' (.scalar rfl) (.scalar rfl)

/-! Kinds. -/

theorem kindParts_eq_some {kind fields : Json} (h : kind.kindParts.2 = some fields) :
    kind = .object [(kind.kindParts.1, fields)] := by
  unfold kindParts at h ⊢
  split at h
  · cases h
  · cases h
    rfl
  · cases h

theorem eq_string_of_kindParts {kind : Json} {k : Kind} (hname : kind.kindParts.1 = k.variant)
    (hfields : kind.kindParts.2 = none) : kind = .string kind.kindParts.1 := by
  have hne : k.variant ≠ "?" := by cases k <;> decide
  unfold kindParts at hname hfields ⊢
  split at hname
  · rfl
  · cases hfields
  · exact absurd hname.symm hne

theorem IsFullKind.same {kind kind' : Json} (h : kind.IsFullKind) (h' : kind'.IsCanonicalKind)
    (hname : kind.kindParts.1 = kind'.kindParts.1)
    (hsame : ∀ f f', kind.kindParts.2 = some f → kind'.kindParts.2 = some f' → Same f f') :
    Same kind kind' := by
  obtain ⟨k, hk', hfields'⟩ := h'
  have hk := hname.trans hk'
  have hnone : kind.kindParts.2.isNone = kind'.kindParts.2.isNone := (h k hk).trans hfields'.symm
  cases hf : kind.kindParts.2 with
  | none =>
    rw [hf] at hnone
    have hf' : kind'.kindParts.2 = none := by simpa using hnone.symm
    rw [eq_string_of_kindParts hk hf, eq_string_of_kindParts hk' hf', hname]
    exact .scalar rfl
  | some f =>
    rw [hf] at hnone
    obtain ⟨f', hf'⟩ := Option.isSome_iff_exists.mp (by simpa using hnone)
    rw [kindParts_eq_some hf, kindParts_eq_some hf', hname]
    refine .object fun key => ?_
    by_cases hkey : kind'.kindParts.1 = key
    · simpa [member?, hkey] using hsame f f' hf hf'
    · simp [member?, hkey]

/-! The comparison. -/

theorem same_of_sameScalar (h : sameScalar e a = true) : Same e a := by
  unfold sameScalar at h
  split at h
  · exact .scalar rfl
  · rw [eq_of_beq h]
    exact .scalar rfl
  · rw [eq_of_beq h]
    exact .scalar rfl
  · next x y =>
    simp only [Double.sameNumber, Bool.or_eq_true, beq_iff_eq, Bool.and_eq_true] at h
    rcases h with h | ⟨hx, hy⟩
    · obtain rfl : x = y := congrArg Double.mk h
      exact .scalar rfl
    · exact .zeros hx hy
  · rw [eq_of_beq h]
    exact .scalar rfl
  · cases h

theorem difference_of_differenceOfMembers (h : differenceOfMembers es as = none) {key : String}
    {value : Json} (hmem : (key, value) ∈ es) :
    ∃ other, member? as key = some other ∧ difference value other = none := by
  induction es with
  | nil => simp at hmem
  | cons member es ih =>
    obtain ⟨k, v⟩ := member
    rw [differenceOfMembers] at h
    cases hother : member? as k with
    | none => simp [hother] at h
    | some other =>
      cases hdiff : difference v other with
      | some m => simp [hother, hdiff] at h
      | none =>
        rcases List.mem_cons.mp hmem with heq | hmem
        · cases heq
          exact ⟨other, hother, hdiff⟩
        · exact ih (by simpa [hother, hdiff] using h) hmem

theorem parts_of_difference (hspan : e.span? = none ∨ a.span? = none)
    (hnode : e.node? = none ∨ a.node? = none) (h : difference e a = none) :
    (∃ es as, e = .object es ∧ a = .object as ∧ differenceOfMembers es as = none ∧
      ∀ key value, (key, value) ∈ as → member? es key ≠ none) ∨
    (∃ es as, e = .array es ∧ a = .array as ∧
      List.Forall₂ (fun e a => difference e a = none) es as) ∨
    sameScalar e a = true := by
  rw [difference] at h
  split at h
  · next hs ht => simp [hs, ht] at hspan
  · split at h
    · next hn hm => simp [hn, hm] at hnode
    · split at h
      · refine .inl ⟨_, _, rfl, rfl, ?_⟩
        split at h
        · cases h
        · next hmembers =>
          refine ⟨hmembers, fun key value hmem hnone => ?_⟩
          split at h
          · cases h
          · next hfind => simpa [hnone] using List.find?_eq_none.mp hfind (key, value) hmem
      · refine .inr (.inl ⟨_, _, rfl, rfl, ?_⟩)
        split at h
        · cases h
        · next hlen => exact (differenceOfItems_eq_none_iff 0 (Decidable.not_not.mp hlen)).mp h
      · refine .inr (.inr ?_)
        split at h
        · next hsame => exact hsame
        · cases h

theorem forall₂_imp_of_mem {R S : Json → Json → Prop} {es as : List Json}
    (h : List.Forall₂ R es as) (himp : ∀ e ∈ es, ∀ a ∈ as, R e a → S e a) :
    List.Forall₂ S es as := by
  induction h with
  | nil => exact .nil
  | cons hea _ ih =>
    refine .cons (himp _ (by simp) _ (by simp) hea) (ih fun e he a ha => ?_)
    exact himp e (by simp [he]) a (by simp [ha])

/-- A value that writes kinds in full and has no difference to one of canonical kinds is the same.
The induction is on the size of the first, as in the comparison itself. -/
theorem same_of_difference_eq_none {e a : Json} (he : e.KindsInFull)
    (ha : a.Kinds IsCanonicalKind)
    (h : difference e a = none) : Same e a := by
  by_cases hspans : e.span? = none ∨ a.span? = none
  · by_cases hnodes : e.node? = none ∨ a.node? = none
    · rcases parts_of_difference hspans hnodes h with
        ⟨es, as, rfl, rfl, hmembers, hextra⟩ | ⟨es, as, rfl, rfl, hitems⟩ | hscalar
      · refine .object fun key => ?_
        cases hv : member? es key with
        | none =>
          cases hw : member? as key with
          | none => exact .none
          | some w => exact absurd hv (hextra key w (mem_of_member? hw))
        | some v =>
          obtain ⟨w, hw, hdiff⟩ := difference_of_differenceOfMembers hmembers (mem_of_member? hv)
          have hsize : sizeOf v < sizeOf es := sizeOf_lt_of_member? hv
          rw [hw]
          exact .some (same_of_difference_eq_none (he.member hv) (ha.member hw) hdiff)
      · refine .array (forall₂_imp_of_mem hitems fun v hv w hw hdiff => ?_)
        have hsize : sizeOf v < sizeOf es := List.sizeOf_lt_of_mem hv
        exact same_of_difference_eq_none (kindsOfItems_iff.mp he v hv)
          (kindsOfItems_iff.mp ha w hw) hdiff
      · exact same_of_sameScalar hscalar
    · obtain ⟨⟨⟨k, l⟩, hn⟩, ⟨⟨k', l'⟩, hn'⟩⟩ : (∃ n, e.node? = some n) ∧ ∃ n, a.node? = some n := by
        simpa [Option.ne_none_iff_exists'] using hnodes
      obtain ⟨hname, hlocation, hfields⟩ :=
        (difference_nodes (span?_eq_none_of_node? hn) hn hn').mp h
      have hsize := sizeOf_lt_of_node? hn
      obtain ⟨es, rfl, hes, hk, hl⟩ := node?_eq_some hn
      obtain ⟨as, rfl, has, hk', hl'⟩ := node?_eq_some hn'
      have hkind : Same k k' := by
        refine (he.1 k l hn).same (ha.1 k' l' hn') hname fun f f' hf hf' => ?_
        have hless : sizeOf f < sizeOf k := sizeOf_lt_of_kindParts (Prod.ext rfl hf)
        have hfull := he.member hk
        have hfull' := ha.member hk'
        rw [kindParts_eq_some hf] at hfull
        rw [kindParts_eq_some hf'] at hfull'
        exact same_of_difference_eq_none hfull.2.1 hfull'.2.1 (hfields f f' hf hf')
      have hlocations : Same l l' :=
        same_of_difference_eq_none (he.member hl) (ha.member hl') hlocation
      exact .pair (by decide) hes has hk hl hk' hl' hkind hlocations
  · obtain ⟨⟨s, hs⟩, ⟨t, ht⟩⟩ : (∃ s, e.span? = some s) ∧ ∃ t, a.span? = some t := by
      simpa [Option.ne_none_iff_exists'] using hspans
    rcases Span.agrees_iff.mp ((difference_spans hs ht).mp h) with rfl | hnull
    · exact same_of_equal_spans hs ht
    · exact .nullSpan hs ht hnull
termination_by sizeOf e
decreasing_by
  all_goals simp_all
  all_goals omega

end Json

namespace Canonical

namespace Tree

open Json (Kinds KindsOfItems KindsOfMembers NodeKind IsCanonicalKind)

theorem isCanonicalKind_kindToJson (kind : Kind) (fs : Fields kind.fields) :
    (kindToJson kind (membersOf fs)).IsCanonicalKind := by
  refine ⟨kind, kindParts_name kind fs, ?_⟩
  unfold Json.HasFieldsOf
  generalize kind.fields = fields at fs
  cases fs <;> rfl

theorem nodeKind_record (kind : Kind) (fs : Fields kind.fields) :
    NodeKind IsCanonicalKind (.object (membersOf fs)) := by
  have hkind : Json.member? (membersOf fs) "kind" = none := by
    rw [Json.member?_eq_none_iff, membersOf_labels]
    exact kind.not_mem_labels.2
  intro k l h
  simp [Json.node?, hkind] at h

theorem kinds_span {Passes : Json → Prop} (s : Span) : s.toJson.Kinds Passes := by
  refine ⟨?_, trivial, trivial, trivial⟩
  intro kind location h
  cases h

theorem kinds_ofDouble {Passes : Json → Prop} (x : Double) : (Json.ofDouble x).Kinds Passes := by
  unfold Json.ofDouble
  split
  · trivial
  · trivial

theorem kindsOfItems_names (ns : List Name) :
    KindsOfItems IsCanonicalKind (ns.map fun n => .string n.text) := by
  induction ns with
  | nil => trivial
  | cons n ns ih => exact ⟨trivial, ih⟩

mutual

theorem kinds_toJson : (t : Tree) → t.toJson.Kinds IsCanonicalKind
  | .mk kind fields location => by
    have hmembers := kindsOfMembers_membersOf fields
    have hkind : (kindToJson kind (membersOf fields)).Kinds IsCanonicalKind := by
      unfold kindToJson
      split
      · trivial
      · next hne =>
        refine ⟨?_, ⟨nodeKind_record kind fields, hmembers⟩, trivial⟩
        intro k l h
        simp [Json.node?] at h
    rw [toJson]
    refine ⟨?_, hkind, kinds_span location, trivial⟩
    intro k l h
    cases h
    exact isCanonicalKind_kindToJson kind fields

theorem kindsOfMembers_membersOf :
    {fields : List Field} → (fs : Fields fields) → KindsOfMembers IsCanonicalKind (membersOf fs)
  | _, .nil => by
    rw [membersOf]
    trivial
  | _, .cons value values => by
    rw [membersOf]
    exact ⟨kinds_valueToJson value, kindsOfMembers_membersOf values⟩

theorem kinds_valueToJson :
    {sort : FieldSort} → (value : Value sort) → (valueToJson value).Kinds IsCanonicalKind
  | _, .span s => kinds_span s
  | _, .name _ => trivial
  | _, .optName none => trivial
  | _, .optName (some _) => trivial
  | _, .names ns => kindsOfItems_names ns
  | _, .flags _ => trivial
  | _, .nat _ => trivial
  | _, .int _ => trivial
  | _, .float x => kinds_ofDouble x
  | _, .text _ => trivial
  | _, .tree t => kinds_toJson t
  | _, .optTree none => trivial
  | _, .optTree (some t) => kinds_toJson t
  | _, .trees ts => kindsOfItems_toJson ts

theorem kindsOfItems_toJson : (ts : List Tree) → KindsOfItems IsCanonicalKind (treesToJson ts)
  | [] => trivial
  | t :: ts => ⟨kinds_toJson t, kindsOfItems_toJson ts⟩

end

/-- A reference that writes canonical kinds in full and has no difference to a tree is the same
value as the tree: no field of either is left out. -/
theorem same_of_no_difference (expected : Json) (actual : Tree) (hfull : expected.KindsInFull)
    (h : Json.difference expected actual.toJson = none) : Json.Same expected actual.toJson :=
  Json.same_of_difference_eq_none hfull (kinds_toJson actual) h

def readX : Tree := read ⟨0, 1⟩ (.localVariable ⟨"x"⟩ 0)

/-- The read of `x`, with its members in another order and a location that is not known. -/
def referenceRead : Json :=
  .object
    [("location", Span.null.toJson),
      ("kind", .object [("LocalVariableRead",
        .object [("depth", .ofNat 0), ("name", .string "x")])])]

theorem same_of_no_difference_referenceRead :
    referenceRead.KindsInFull ∧ Json.difference referenceRead readX.toJson = none ∧
      Json.Same referenceRead readX.toJson := by
  have hfull : referenceRead.KindsInFull := by
    refine ⟨?_, kinds_span _, ⟨?_, ⟨?_, trivial, trivial, trivial⟩, trivial⟩, trivial⟩
    · intro kind location h
      cases h
      intro k hk
      obtain rfl : Kind.localVariableReadNode = k := Kind.variant_injective hk
      rfl
    · intro kind location h
      cases h
    · intro kind location h
      cases h
  have hnone : Json.difference referenceRead readX.toJson = none := by decide +kernel
  exact ⟨hfull, hnone, same_of_no_difference _ _ hfull hnone⟩

/-- The read of some local that is not named. -/
def bareRead : Json :=
  .object [("kind", .string "LocalVariableRead"), ("location", Span.null.toJson)]

/-- A kind without its fields is accepted for any node of that kind, whatever its fields. -/
theorem difference_accepts_bareRead :
    Json.difference bareRead readX.toJson = none ∧ ¬ Json.Same bareRead readX.toJson := by
  refine ⟨by decide +kernel, ?_⟩
  intro h
  rw [readX, read, toJson, bareRead] at h
  cases h with
  | object hmembers =>
    have hkind := hmembers "kind"
    cases hkind with
    | some hsame =>
      cases hsame with
      | nullSpan he _ _ => cases he
  | nullSpan he _ _ => cases he

end Tree

end Canonical

end RubyTree
