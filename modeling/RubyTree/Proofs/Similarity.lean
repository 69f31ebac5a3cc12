import Mathlib.Data.List.Nodup
import RubyTree.Canonical.Compare
import RubyTree.Canonical.Forms
import RubyTree.Proofs.DoubleValue
import RubyTree.Proofs.JsonDifference

/-! Trees that are alike up to spans that one side does not know. The comparison goes through JSON
and tells spans, nodes and records of fields apart by their members only; no record of fields can be
taken for a span or a node, so it finds a difference exactly between trees that are not alike. -/

namespace RubyTree

namespace Span

variable {s t : Span}

/-- The spans are equal, or one side tells nothing. -/
def Matches (s t : Span) : Prop := s = t ∨ s = null ∨ t = null

def fits (s : Span) : Bool := decide (s.start < UInt64.size) && decide (s.length < UInt64.size)

theorem isNull_iff : s.isNull = true ↔ s = null := by
  cases s
  simp [isNull, null]

theorem agrees_iff : s.agrees t = true ↔ s.Matches t := by
  simp only [agrees, Matches, Bool.or_eq_true, isNull_iff, beq_iff_eq]
  tauto

theorem span?_toJson (h : s.fits = true) : s.toJson.span? = some s := by
  simp only [fits, Bool.and_eq_true, decide_eq_true_eq] at h
  simp [toJson, Json.span?, Json.member?, Json.ofNat, Json.nat64?, Json.natBelow?, h.1, h.2]

theorem difference_toJson (hs : s.fits = true) (ht : t.fits = true) :
    Json.difference s.toJson t.toJson = none ↔ s.Matches t := by
  rw [Json.difference_spans (span?_toJson hs) (span?_toJson ht), agrees_iff]

end Span

namespace Json

variable {members front : List (String × Json)} {key : String}

theorem member?_eq_none_iff : member? members key = none ↔ key ∉ members.map (·.1) := by
  rw [member?, Option.map_eq_none_iff, List.find?_eq_none]
  simp only [beq_iff_eq, List.mem_map, not_exists, not_and]

theorem member?_append_of_not_mem (h : member? front key = none) :
    member? (front ++ members) key = member? members key := by
  simp only [member?, Option.map_eq_none_iff] at h ⊢
  rw [List.find?_append, h, Option.none_or]

end Json

namespace Canonical

namespace FieldSort

def isScalar : FieldSort → Bool
  | span => false
  | float => false
  | tree => false
  | optTree => false
  | trees => false
  | _ => true

end FieldSort

namespace Kind

-- The kinds by their numbers: a split over pairs of kinds would make a goal for each pair.
theorem variants_nodup : ((List.range 124).map fun i => (ofNat i).variant).Nodup := by
  decide +kernel

theorem ctorIdx_lt (kind : Kind) : kind.ctorIdx < 124 := by
  cases kind <;> decide

theorem variant_injective {k l : Kind} (h : k.variant = l.variant) : k = l := by
  have hk : ofNat k.ctorIdx = k := ofNat_ctorIdx k
  have hl : ofNat l.ctorIdx = l := ofNat_ctorIdx l
  have hidx : k.ctorIdx = l.ctorIdx :=
    List.inj_on_of_nodup_map variants_nodup (List.mem_range.mpr (ctorIdx_lt k))
      (List.mem_range.mpr (ctorIdx_lt l)) (by simpa only [hk, hl] using h)
  rw [← hk, ← hl, hidx]

theorem labels_nodup (kind : Kind) : (kind.fields.map (·.label)).Nodup := by
  cases kind <;> decide

theorem not_mem_labels (kind : Kind) :
    "start" ∉ kind.fields.map (·.label) ∧ "kind" ∉ kind.fields.map (·.label) := by
  cases kind <;> decide

end Kind

mutual

/-- One kind, similar fields and matching locations. -/
inductive Tree.Similar : Tree → Tree → Prop where
  | mk {kind : Kind} {fs gs : Fields kind.fields} {s t : Span} (fields : Fields.Similar fs gs)
      (location : s.Matches t) : Tree.Similar (.mk kind fs s) (.mk kind gs t)

inductive Fields.Similar : {fields : List Field} → Fields fields → Fields fields → Prop where
  | nil : Fields.Similar .nil .nil
  | cons {field : Field} {rest : List Field} {v w : Value field.sort} {vs ws : Fields rest}
      (value : Value.Similar v w) (values : Fields.Similar vs ws) :
      Fields.Similar (.cons v vs) (.cons w ws)

/-- Spans match, floats are the same number, children are similar one by one, and anything else is
equal. -/
inductive Value.Similar : {sort : FieldSort} → Value sort → Value sort → Prop where
  | span {s t : Span} (h : s.Matches t) : Value.Similar (.span s) (.span t)
  | float {x y : Double} (h : x.Equal y) : Value.Similar (.float x) (.float y)
  | tree {t u : Tree} (h : Tree.Similar t u) : Value.Similar (.tree t) (.tree u)
  | optTree {t u : Option Tree} (h : Option.Rel Tree.Similar t u) :
      Value.Similar (.optTree t) (.optTree u)
  | trees {ts us : List Tree} (h : List.Forall₂ Tree.Similar ts us) :
      Value.Similar (.trees ts) (.trees us)
  | scalar {sort : FieldSort} (h : sort.isScalar = true) (v : Value sort) : Value.Similar v v

end

mutual

/-- Every span fits into words and every float is finite. -/
def Tree.fits : Tree → Bool
  | .mk _ fields location => Fields.fits fields && location.fits

def Fields.fits : {fields : List Field} → Fields fields → Bool
  | _, .nil => true
  | _, .cons value values => Value.fits value && Fields.fits values

def Value.fits : {sort : FieldSort} → Value sort → Bool
  | _, .span s => s.fits
  | _, .float x => x.isFinite
  | _, .tree t => Tree.fits t
  | _, .optTree none => true
  | _, .optTree (some t) => Tree.fits t
  | _, .trees ts => Tree.allFit ts
  | _, _ => true

def Tree.allFit : List Tree → Bool
  | [] => true
  | t :: ts => Tree.fits t && Tree.allFit ts

end

namespace Value

@[simp] theorem similar_span {s t : Span} : (span s).Similar (span t) ↔ s.Matches t := by
  refine ⟨?_, .span⟩
  intro h
  cases h with
  | span h => exact h
  | scalar h => cases h

@[simp] theorem similar_float {x y : Double} : (float x).Similar (float y) ↔ x.Equal y := by
  refine ⟨?_, .float⟩
  intro h
  cases h with
  | float h => exact h
  | scalar h => cases h

@[simp] theorem similar_tree {t u : Tree} : (tree t).Similar (tree u) ↔ t.Similar u := by
  refine ⟨?_, .tree⟩
  intro h
  cases h with
  | tree h => exact h
  | scalar h => cases h

@[simp] theorem similar_optTree {t u : Option Tree} :
    (optTree t).Similar (optTree u) ↔ Option.Rel Tree.Similar t u := by
  refine ⟨?_, .optTree⟩
  intro h
  cases h with
  | optTree h => exact h
  | scalar h => cases h

@[simp] theorem similar_trees {ts us : List Tree} :
    (trees ts).Similar (trees us) ↔ List.Forall₂ Tree.Similar ts us := by
  refine ⟨?_, .trees⟩
  intro h
  cases h with
  | trees h => exact h
  | scalar h => cases h

theorem similar_scalar {sort : FieldSort} (hscalar : sort.isScalar = true) {v w : Value sort} :
    v.Similar w ↔ v = w := by
  constructor
  · intro h
    cases h with
    | scalar => rfl
    | _ => cases hscalar
  · rintro rfl
    exact .scalar hscalar v

end Value

namespace Fields

@[simp] theorem similar_nil : Similar .nil .nil := .nil

@[simp] theorem similar_cons {field : Field} {rest : List Field} {v w : Value field.sort}
    {vs ws : Fields rest} :
    (cons v vs).Similar (cons w ws) ↔ v.Similar w ∧ vs.Similar ws := by
  constructor
  · intro h
    cases h with
    | cons value values => exact ⟨value, values⟩
  · rintro ⟨value, values⟩
    exact .cons value values

end Fields

namespace Tree

open Json (member? member?_eq_none_iff member?_append_of_not_mem)

variable {fields : List Field} {sort : FieldSort}

@[simp] theorem similar_mk {kind : Kind} {fs gs : Fields kind.fields} {s t : Span} :
    (mk kind fs s).Similar (mk kind gs t) ↔ fs.Similar gs ∧ s.Matches t := by
  constructor
  · intro h
    cases h with
    | mk fields location => exact ⟨fields, location⟩
  · rintro ⟨fields, location⟩
    exact .mk fields location

theorem difference_names (n m : Name) :
    Json.difference (.string n.text) (.string m.text) = none ↔ n = m := by
  rw [Json.difference_strings]
  cases n
  cases m
  simp

theorem difference_scalarField (h : sort.isScalar = true) (v w : Value sort) :
    Json.difference (valueToJson v) (valueToJson w) = none ↔ v = w := by
  cases v with
  | name n =>
    cases w with
    | name m => simp only [valueToJson, difference_names, Value.name.injEq]
  | optName n =>
    cases w with
    | optName m =>
      cases m with
      | none =>
        cases n with
        | none => simp [valueToJson, Json.difference_null_right]
        | some n => simp [valueToJson, Json.difference_null_right]
      | some m =>
        cases n with
        | none => simp [valueToJson, Json.difference_null_left]
        | some n => simp [valueToJson, difference_names]
  | names ns =>
    cases w with
    | names ms =>
      simp only [valueToJson, Json.difference_arrays, List.forall₂_map_left_iff,
        List.forall₂_map_right_iff, difference_names, List.forall₂_eq_eq_eq, Value.names.injEq]
  | flags f =>
    cases w with
    | flags g => simp only [valueToJson, Json.difference_nats, UInt32.toNat_inj, Value.flags.injEq]
  | nat n =>
    cases w with
    | nat m => simp only [valueToJson, Json.difference_nats, Value.nat.injEq]
  | int i =>
    cases w with
    | int j => simp only [valueToJson, Json.difference_ints, Value.int.injEq]
  | text s =>
    cases w with
    | text t => simp only [valueToJson, Json.difference_strings, Value.text.injEq]
  | _ => cases h

theorem membersOf_labels (fs : Fields fields) :
    (membersOf fs).map (·.1) = fields.map (·.label) := by
  induction fields with
  | nil =>
    cases fs
    rfl
  | cons field rest ih =>
    cases fs with
    | cons value values => rw [membersOf, List.map_cons, List.map_cons, ih]

theorem kindParts_name (kind : Kind) (fs : Fields fields) :
    (kindToJson kind (membersOf fs)).kindParts.1 = kind.variant := by
  cases fs <;> rfl

theorem difference_kindParts (k l : Kind) (fs gs : Fields fields) :
    (∀ f f', (kindToJson k (membersOf fs)).kindParts.2 = some f →
      (kindToJson l (membersOf gs)).kindParts.2 = some f' → Json.difference f f' = none) ↔
    Json.difference (.object (membersOf fs)) (.object (membersOf gs)) = none := by
  cases fs with
  | nil =>
    cases gs
    rw [membersOf, Json.difference_objects (.inl rfl) (.inl rfl)]
    simp [kindToJson, Json.kindParts, Json.differenceOfMembers]
  | cons v vs =>
    cases gs
    simp [membersOf, kindToJson, Json.kindParts]

theorem node?_toJson (kind : Kind) (fs : Fields kind.fields) (s : Span) :
    (toJson (.mk kind fs s)).node? = some (kindToJson kind (membersOf fs), s.toJson) := by
  rw [toJson]
  rfl

theorem toJson_ne_null (t : Tree) : t.toJson ≠ .null := by
  cases t
  rw [toJson]
  exact nofun

theorem span?_toJson (t : Tree) : t.toJson.span? = none := by
  cases t
  rw [toJson]
  rfl

theorem differenceOfMembers_cons {field : Field} {rest : List Field} (v w : Value field.sort)
    (vs ws : Fields rest) {front : List (String × Json)}
    (hfront : member? front field.label = none) :
    Json.differenceOfMembers (membersOf (.cons v vs)) (front ++ membersOf (.cons w ws)) =
      ((Json.difference (valueToJson v) (valueToJson w)).map (.under (.field field.label))).or
        (Json.differenceOfMembers (membersOf vs)
          ((front ++ [(field.label, valueToJson w)]) ++ membersOf ws)) := by
  have hmember : member? (front ++ membersOf (.cons w ws)) field.label = some (valueToJson w) := by
    rw [member?_append_of_not_mem hfront]
    simp [membersOf, member?]
  rw [membersOf, Json.differenceOfMembers, hmember]
  cases hd : Json.difference (valueToJson v) (valueToJson w) with
  | some m => simp [hd]
  | none => simp [hd, membersOf]

theorem member?_snoc_eq_none {front : List (String × Json)} {labels : List String}
    {label compared : String} {value : Json} (hfront : member? front label = none)
    (hcompared : compared ∉ labels) (hlabel : label ∈ labels) :
    member? (front ++ [(compared, value)]) label = none := by
  rw [member?_append_of_not_mem hfront, member?_eq_none_iff]
  intro hmem
  have heq : label = compared := List.mem_singleton.mp hmem
  exact hcompared (heq ▸ hlabel)

theorem difference_record (kind : Kind) (fs gs : Fields kind.fields) :
    Json.difference (.object (membersOf fs)) (.object (membersOf gs)) =
      Json.differenceOfMembers (membersOf fs) (membersOf gs) := by
  have hstart : member? (membersOf fs) "start" = none := by
    rw [member?_eq_none_iff, membersOf_labels]
    exact kind.not_mem_labels.1
  have hkind : member? (membersOf fs) "kind" = none := by
    rw [member?_eq_none_iff, membersOf_labels]
    exact kind.not_mem_labels.2
  have hextra : (membersOf gs).find? (fun member => (member? (membersOf fs) member.1).isNone) =
      none := by
    rw [List.find?_eq_none]
    intro member hmem hnone
    rw [Option.isNone_iff_eq_none, member?_eq_none_iff, membersOf_labels, ← membersOf_labels gs]
      at hnone
    exact hnone (List.mem_map.mpr ⟨_, hmem, rfl⟩)
  rw [Json.difference_objects_eq (.inl (by simp [Json.span?, hstart]))
    (.inl (by simp [Json.node?, hkind])), hextra, Option.map_none, Option.or_none]

mutual

theorem difference_toJson_iff (t u : Tree) (ht : t.fits = true) (hu : u.fits = true) :
    Json.difference t.toJson u.toJson = none ↔ t.Similar u := by
  obtain ⟨k, fs, s⟩ := t
  obtain ⟨l, gs, s'⟩ := u
  simp only [fits, Bool.and_eq_true] at ht hu
  rw [Json.difference_nodes (span?_toJson _) (node?_toJson k fs s) (node?_toJson l gs s'),
    kindParts_name, kindParts_name, Span.difference_toJson ht.2 hu.2]
  by_cases hkind : k = l
  · subst hkind
    have hfields := differenceOfMembers_iff fs gs ht.1 hu.1 [] k.labels_nodup fun _ _ => rfl
    rw [List.nil_append] at hfields
    rw [difference_kindParts, difference_record, hfields, similar_mk, and_comm (a := fs.Similar gs)]
    exact and_iff_right rfl
  · constructor
    · rintro ⟨hvariant, -⟩
      exact absurd (Kind.variant_injective hvariant) hkind
    · intro h
      cases h
      exact absurd rfl hkind
termination_by structural t

theorem differenceOfMembers_iff {fields : List Field} (fs gs : Fields fields)
    (hfs : fs.fits = true) (hgs : gs.fits = true) (front : List (String × Json))
    (hnodup : (fields.map (·.label)).Nodup)
    (hfront : ∀ label ∈ fields.map (·.label), member? front label = none) :
    Json.differenceOfMembers (membersOf fs) (front ++ membersOf gs) = none ↔ fs.Similar gs := by
  match fields, fs, gs with
  | _, .nil, .nil =>
    simp [membersOf, Json.differenceOfMembers]
  | field :: rest, .cons v vs, .cons w ws =>
    -- `front` holds the members that have been compared; labels differ, so none is found there.
    simp only [Fields.fits, Bool.and_eq_true] at hfs hgs
    rw [List.map_cons, List.nodup_cons] at hnodup
    rw [differenceOfMembers_cons v w vs ws (hfront _ (List.mem_cons_self ..)),
      Option.or_eq_none_iff, Option.map_eq_none_iff, difference_value_iff v w hfs.1 hgs.1,
      differenceOfMembers_iff vs ws hfs.2 hgs.2 _ hnodup.2]
    · rw [Fields.similar_cons]
    · intro label hlabel
      exact member?_snoc_eq_none (hfront label (List.mem_cons_of_mem _ hlabel)) hnodup.1 hlabel
termination_by structural fs

theorem difference_value_iff {sort : FieldSort} (v w : Value sort)
    (hv : v.fits = true) (hw : w.fits = true) :
    Json.difference (valueToJson v) (valueToJson w) = none ↔ v.Similar w := by
  by_cases hscalar : sort.isScalar = true
  · rw [difference_scalarField hscalar, Value.similar_scalar hscalar]
  · match sort, v, w with
    | _, .span s, .span t =>
      rw [valueToJson, valueToJson, Span.difference_toJson hv hw, Value.similar_span]
    | _, .float x, .float y =>
      rw [valueToJson, valueToJson, Json.ofDouble_of_isFinite hv, Json.ofDouble_of_isFinite hw,
        Json.difference_floats, Double.sameNumber_iff hv hw, Value.similar_float]
    | _, .tree t, .tree u =>
      rw [valueToJson, valueToJson, difference_toJson_iff t u hv hw, Value.similar_tree]
    | _, .optTree none, .optTree none =>
      simp [valueToJson, Json.difference_null_left, Value.similar_optTree]
    | _, .optTree none, .optTree (some u) =>
      simp [valueToJson, Json.difference_null_left, Value.similar_optTree, toJson_ne_null]
    | _, .optTree (some t), .optTree none =>
      simp [valueToJson, Json.difference_null_right, Value.similar_optTree, toJson_ne_null]
    | _, .optTree (some t), .optTree (some u) =>
      rw [valueToJson, valueToJson, difference_toJson_iff t u hv hw, Value.similar_optTree]
      simp
    | _, .trees ts, .trees us =>
      rw [valueToJson, valueToJson, Json.difference_arrays, difference_trees_iff ts us hv hw,
        Value.similar_trees]
termination_by structural v

theorem difference_trees_iff (ts us : List Tree)
    (hts : allFit ts = true) (hus : allFit us = true) :
    List.Forall₂ (fun e a => Json.difference e a = none) (treesToJson ts) (treesToJson us) ↔
      List.Forall₂ Similar ts us := by
  match ts, us with
  | [], [] => simp [treesToJson]
  | [], u :: us => simp [treesToJson]
  | t :: ts, [] => simp [treesToJson]
  | t :: ts, u :: us =>
    simp only [allFit, Bool.and_eq_true] at hts hus
    rw [treesToJson, treesToJson, List.forall₂_cons, List.forall₂_cons,
      difference_toJson_iff t u hts.1 hus.1, difference_trees_iff ts us hts.2 hus.2]
termination_by structural ts

end

/-- The comparison finds a difference exactly between trees that are not similar. -/
theorem difference_eq_none_iff_similar (expected actual : Tree) (he : expected.fits = true)
    (ha : actual.fits = true) :
    (expected.difference actual = none ↔ expected.Similar actual) ∧
      (expected.agrees actual = true ↔ expected.Similar actual) := by
  have hdifference : expected.difference actual = none ↔ expected.Similar actual :=
    difference_toJson_iff expected actual he ha
  refine ⟨hdifference, ?_⟩
  rw [agrees, Option.isNone_iff_eq_none]
  exact hdifference

def floatInSplat (x : Double) (location : Span) : Tree :=
  statements [splat (some (float x location)) location] location

theorem similar_floatInSplat {x y : Double} {s t : Span} :
    (floatInSplat x s).Similar (floatInSplat y t) ↔ x.Equal y ∧ s.Matches t := by
  have hnull : Span.null.Matches Span.null := .inl rfl
  simp [floatInSplat, statements, splat, float, hnull]

/-- The zeros of both signs are one number, and a null span stands for any other; another number
is a difference. -/
theorem difference_eq_none_iff_similar_zeros :
    let zero := floatInSplat ⟨0⟩ ⟨4, 3⟩
    let negativeZero := floatInSplat ⟨0x8000000000000000⟩ Span.null
    let one := floatInSplat ⟨0x3ff0000000000000⟩ ⟨4, 3⟩
    zero.fits = true ∧ negativeZero.fits = true ∧ one.fits = true ∧
      zero.difference negativeZero = none ∧ zero.agrees negativeZero = true ∧
      zero.difference one ≠ none := by
  intro zero negativeZero one
  have hzero : zero.fits = true := by decide
  have hnegative : negativeZero.fits = true := by decide
  have hone : one.fits = true := by decide
  have hequal : Double.Equal ⟨0⟩ ⟨0x8000000000000000⟩ :=
    (Double.sameNumber_iff (by decide) (by decide)).mp (by decide)
  have hsimilar : zero.Similar negativeZero :=
    similar_floatInSplat.mpr ⟨hequal, .inr (.inr rfl)⟩
  have hzeros := difference_eq_none_iff_similar zero negativeZero hzero hnegative
  refine ⟨hzero, hnegative, hone, hzeros.1.mpr hsimilar, hzeros.2.mpr hsimilar, ?_⟩
  intro hnone
  have hequal' : Double.Equal ⟨0⟩ ⟨0x3ff0000000000000⟩ :=
    (similar_floatInSplat.mp
      ((difference_eq_none_iff_similar zero one hzero hone).1.mp hnone)).1
  exact absurd ((Double.sameNumber_iff (by decide) (by decide)).mpr hequal') (by decide)

end Tree

end Canonical

end RubyTree
