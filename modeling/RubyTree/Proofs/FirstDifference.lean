import RubyTree.Proofs.Places

/-! What the comparison of two trees reports. It visits the places of both in the order of their
outlines and stops at the first one whose marks are not alike; the path that it has put together by
then is the way to that place. -/

namespace RubyTree

open Json (Step Mismatch)

namespace Json

variable {e a : Json} {m : Mismatch}

/-! Differences between values that have no parts, or to one that has none, are where they are. -/

theorem path_of_difference_mixed (hscalar : e.isScalar = true ∨ a.isScalar = true)
    (h : difference e a = some m) : m.path = [] := by
  rw [difference_mixed hscalar] at h
  by_cases hsame : sameScalar e a = true
  · rw [if_pos hsame] at h
    cases h
  · rw [if_neg hsame] at h
    cases h
    rfl

theorem path_of_difference_spans {s t : Span} (he : e.span? = some s) (ha : a.span? = some t)
    (h : difference e a = some m) : m.path = [] := by
  rw [difference, he, ha] at h
  by_cases hagrees : s.agrees t = true
  · simp [hagrees] at h
  · simp only [hagrees, Bool.false_eq_true, if_false, Option.some.injEq] at h
    rw [← h]
    rfl

end Json

namespace Canonical

namespace Outline

def AlikeAt (p q : List Step × Mark) : Prop := p.1 = q.1 ∧ p.2.Alike q.2

/-- The outlines are alike, place by place, up to the place that the path leads to. Its marks are
not alike. -/
def Diverge (path : List Step) (xs ys : Outline) : Prop :=
  ∃ front front' x y back back', xs = front ++ (path, x) :: back ∧
    ys = front' ++ (path, y) :: back' ∧ List.Forall₂ AlikeAt front front' ∧ ¬x.Alike y

/-- What a comparison of two values tells of their outlines. -/
inductive Compared : Option Mismatch → Outline → Outline → Prop where
  | alike {xs ys : Outline} (h : List.Forall₂ AlikeAt xs ys) : Compared none xs ys
  | differ {m : Mismatch} {xs ys : Outline} (h : Diverge m.path xs ys) : Compared (some m) xs ys

variable {d d' : Option Mismatch} {m : Mismatch} {xs ys xs' ys' : Outline} {x y : Mark}

theorem Diverge.append (h : Diverge m.path xs ys) (xs' ys' : Outline) :
    Diverge m.path (xs ++ xs') (ys ++ ys') := by
  obtain ⟨front, front', x, y, back, back', rfl, rfl, hfront, hne⟩ := h
  exact ⟨front, front', x, y, back ++ xs', back' ++ ys', by simp, by simp, hfront, hne⟩

theorem Diverge.behind {path : List Step} (h : Diverge path xs' ys')
    (halike : List.Forall₂ AlikeAt xs ys) : Diverge path (xs ++ xs') (ys ++ ys') := by
  obtain ⟨front, front', x, y, back, back', rfl, rfl, hfront, hne⟩ := h
  exact ⟨xs ++ front, ys ++ front', x, y, back, back', by simp, by simp,
    List.rel_append halike hfront, hne⟩

theorem forall₂_below (step : Step) (h : List.Forall₂ AlikeAt xs ys) :
    List.Forall₂ AlikeAt (below step xs) (below step ys) := by
  rw [below, below, List.forall₂_map_left_iff, List.forall₂_map_right_iff]
  refine h.imp fun p q hpq => ⟨?_, hpq.2⟩
  exact congrArg (step :: ·) hpq.1

theorem Diverge.below {path : List Step} (step : Step) (h : Diverge path xs ys) :
    Diverge (step :: path) (Outline.below step xs) (Outline.below step ys) := by
  obtain ⟨front, front', x, y, back, back', rfl, rfl, hfront, hne⟩ := h
  refine ⟨Outline.below step front, Outline.below step front', x, y, Outline.below step back,
    Outline.below step back', ?_, ?_, forall₂_below step hfront, hne⟩
  · simp [Outline.below]
  · simp [Outline.below]

namespace Compared

/-- What comes second matters only if there is no difference in what comes first. -/
theorem append (h : Compared d xs ys) (h' : d = none → Compared d' xs' ys') :
    Compared (d.or d') (xs ++ xs') (ys ++ ys') := by
  cases h with
  | differ hm => exact .differ (hm.append xs' ys')
  | alike hfront =>
    cases h' rfl with
    | alike hback => exact .alike (List.rel_append hfront hback)
    | differ hm => exact .differ (hm.behind hfront)

theorem below (step : Step) (h : Compared d xs ys) :
    Compared (d.map (Mismatch.under step)) (Outline.below step xs) (Outline.below step ys) := by
  cases h with
  | alike h => exact .alike (forall₂_below step h)
  | differ h => exact .differ (h.below step)

theorem cons {path : List Step} (hmark : x.Alike y) (h : Compared d xs ys) :
    Compared d ((path, x) :: xs) ((path, y) :: ys) := by
  have hfirst : List.Forall₂ AlikeAt [(path, x)] [(path, y)] := .cons ⟨rfl, hmark⟩ .nil
  cases h with
  | alike h => exact .alike (List.rel_append hfirst h)
  | differ h => exact .differ (h.behind hfirst)

theorem head (hmark : ¬x.Alike y) (hd : d ≠ none) (hpath : ∀ m, d = some m → m.path = [])
    (xs ys : Outline) : Compared d (([], x) :: xs) (([], y) :: ys) := by
  obtain ⟨m, rfl⟩ := Option.ne_none_iff_exists'.mp hd
  have hroot := hpath m rfl
  exact .differ ⟨[], [], x, y, xs, ys, by rw [hroot]; rfl, by rw [hroot]; rfl, .nil, hmark⟩

theorem leaf (hnone : d = none ↔ x.Alike y) (hpath : ∀ m, d = some m → m.path = []) :
    Compared d [([], x)] [([], y)] := by
  by_cases hmark : x.Alike y
  · obtain rfl := hnone.mpr hmark
    exact .cons hmark (.alike .nil)
  · exact .head hmark (fun hd => hmark (hnone.mp hd)) hpath [] []

end Compared

end Outline

namespace Tree

open Json (member?)
open Outline (Compared)

theorem compared_spans {s t : Span} (hs : s.fits = true) (ht : t.fits = true) :
    Compared (Json.difference s.toJson t.toJson) [([], .span s)] [([], .span t)] := by
  refine .leaf ?_ fun m =>
    Json.path_of_difference_spans (Span.span?_toJson hs) (Span.span?_toJson ht)
  rw [Span.difference_toJson hs ht, Mark.alike_span_iff]

theorem isExact_mark {sort : FieldSort} (hscalar : sort.isScalar = true) (v : Value sort) :
    v.mark.isExact = true := by
  cases v with
  | optName n => cases n <;> rfl
  | span | float | tree | optTree | trees => cases hscalar
  | _ => rfl

theorem mark_inj {sort : FieldSort} (hscalar : sort.isScalar = true) (hnames : sort ≠ .names)
    {v w : Value sort} (h : v.mark = w.mark) : v = w := by
  cases v with
  | name n =>
    cases w with
    | name m =>
      have htext : n.text = m.text := Mark.text.inj h
      cases n
      cases m
      cases htext
      rfl
  | optName n =>
    cases w with
    | optName m =>
      rcases n with _ | ⟨⟨n⟩⟩ <;> rcases m with _ | ⟨⟨m⟩⟩ <;> cases h <;> rfl
  | flags f =>
    cases w with
    | flags g =>
      have hword : f.toNat = g.toNat := Int.ofNat.inj (Mark.number.inj h)
      rw [UInt32.toNat_inj.mp hword]
  | nat n =>
    cases w with
    | nat m =>
      cases h
      rfl
  | int i =>
    cases w with
    | int j =>
      cases h
      rfl
  | text s =>
    cases w with
    | text t =>
      cases h
      rfl
  | names => exact absurd rfl hnames
  | _ => cases hscalar

theorem isScalar_valueToJson {sort : FieldSort} (hscalar : sort.isScalar = true)
    (hnames : sort ≠ .names) (v : Value sort) : (valueToJson v).isScalar = true := by
  cases v with
  | optName n => cases n <;> rfl
  | names => exact absurd rfl hnames
  | span | float | tree | optTree | trees => cases hscalar
  | _ => rfl

theorem compared_scalars {sort : FieldSort} (hscalar : sort.isScalar = true)
    (hnames : sort ≠ .names) (v w : Value sort) :
    Compared (Json.difference (valueToJson v) (valueToJson w)) [([], v.mark)] [([], w.mark)] := by
  refine .leaf ?_ fun _ =>
    Json.path_of_difference_mixed (.inl (isScalar_valueToJson hscalar hnames v))
  rw [difference_scalarField hscalar, Mark.alike_iff_eq (isExact_mark hscalar v)]
  exact ⟨congrArg Value.mark, mark_inj hscalar hnames⟩

theorem compared_floats {x y : Double} (hx : x.isFinite = true) (hy : y.isFinite = true) :
    Compared (Json.difference (.ofDouble x) (.ofDouble y)) [([], .float x)] [([], .float y)] := by
  rw [Json.ofDouble_of_isFinite hx, Json.ofDouble_of_isFinite hy]
  refine .leaf ?_ fun _ => Json.path_of_difference_mixed (.inl rfl)
  rw [Json.difference_floats, Double.sameNumber_iff hx hy, Mark.alike_float_iff hx]

theorem compared_names (i : Nat) {ns ms : List Name} (hlength : ns.length = ms.length) :
    Compared (Json.differenceOfItems i (ns.map fun n => .string n.text)
        (ms.map fun n => .string n.text))
      (Outline.items i (ns.map Outline.ofName)) (Outline.items i (ms.map Outline.ofName)) := by
  induction ns generalizing i ms with
  | nil =>
    obtain rfl : ms = [] := List.eq_nil_of_length_eq_zero hlength.symm
    rw [List.map_nil, Json.differenceOfItems_nil]
    exact .alike .nil
  | cons n ns ih =>
    cases ms with
    | nil => cases hlength
    | cons m ms =>
      have hname : Compared (Json.difference (.string n.text) (.string m.text)) (Outline.ofName n)
          (Outline.ofName m) := by
        refine .leaf ?_ fun m => Json.path_of_difference_mixed (.inl rfl)
        rw [Json.difference_strings, Mark.alike_iff_eq rfl, Mark.text.injEq]
      simp only [List.map_cons, Json.differenceOfItems_cons, Outline.items]
      exact (hname.below (.index i)).append fun _ => ih (i + 1) (Nat.succ.inj hlength)

theorem compared_lists {es as : List Json} {xs ys : Outline} {k l : Nat} (hk : es.length = k)
    (hl : as.length = l) (h : k = l → Compared (Json.differenceOfItems 0 es as) xs ys) :
    Compared (Json.difference (.array es) (.array as)) (([], .length k) :: xs)
      (([], .length l) :: ys) := by
  rw [Json.difference_arrays_eq, hk, hl]
  by_cases hlength : k = l
  · rw [if_pos hlength, hlength]
    exact .cons (.same _) (h hlength)
  · rw [if_neg hlength]
    refine .head ?_ (by simp) (fun m hm => ?_) xs ys
    · rw [Mark.alike_iff_eq rfl, Mark.length.injEq]
      exact hlength
    · cases hm
      rfl

theorem length_treesToJson (ts : List Tree) : (treesToJson ts).length = ts.length := by
  induction ts with
  | nil => rfl
  | cons t ts ih => rw [treesToJson, List.length_cons, List.length_cons, ih]

theorem difference_fields (kind : Kind) (fs gs : Fields kind.fields) :
    ((kindToJson kind (membersOf fs)).kindParts.2.bind fun f =>
      (kindToJson kind (membersOf gs)).kindParts.2.bind fun f' => Json.difference f f') =
    Json.differenceOfMembers (membersOf fs) (membersOf gs) := by
  have hrecord := difference_record kind fs gs
  have hempty : (membersOf fs).isEmpty = (membersOf gs).isEmpty := by
    have hlabels := (membersOf_labels fs).trans (membersOf_labels gs).symm
    have hlength := congrArg List.length hlabels
    rw [List.length_map, List.length_map] at hlength
    rw [Bool.eq_iff_iff, List.isEmpty_iff_length_eq_zero, List.isEmpty_iff_length_eq_zero, hlength]
  generalize membersOf fs = es at hrecord hempty
  generalize membersOf gs = as at hrecord hempty
  cases es with
  | nil => simp [kindToJson, Json.kindParts, Json.differenceOfMembers]
  | cons e es =>
    cases as with
    | nil => cases hempty
    | cons a as => exact hrecord

mutual

theorem compared_trees (t u : Tree) (ht : t.fits = true) (hu : u.fits = true) :
    Compared (Json.difference t.toJson u.toJson) t.outline u.outline := by
  -- By induction on the first tree: the comparison follows the outlines.
  obtain ⟨k, fs, s⟩ := t
  obtain ⟨l, gs, s'⟩ := u
  simp only [fits, Bool.and_eq_true] at ht hu
  have hnode := node?_toJson k fs s
  have hnode' := node?_toJson l gs s'
  by_cases hkind : k = l
  · subst hkind
    have hname : (kindToJson k (membersOf fs)).kindParts.1 =
        (kindToJson k (membersOf gs)).kindParts.1 := by
      rw [kindParts_name, kindParts_name]
    have hfields := compared_fields fs gs ht.1 hu.1 [] k.labels_nodup fun _ _ => rfl
    rw [Json.difference_nodes_of_eq (span?_toJson _) hnode hnode' hname, difference_fields]
    have hlocation := (compared_spans ht.2 hu.2).below (.field "location")
    exact .cons (.same _) (hlocation.append fun _ => hfields)
  · have hname : (kindToJson k (membersOf fs)).kindParts.1 ≠
        (kindToJson l (membersOf gs)).kindParts.1 := by
      rw [kindParts_name, kindParts_name]
      exact fun h => hkind (Kind.variant_injective h)
    rw [Json.difference_nodes_of_ne (span?_toJson _) hnode hnode' hname]
    refine .head ?_ (by simp) (fun m hm => ?_) _ _
    · rw [Mark.alike_iff_eq rfl]
      exact fun h => hkind (Mark.variant.inj h)
    · cases hm
      rfl
termination_by structural t

theorem compared_fields {fields : List Field} (fs gs : Fields fields)
    (hfs : fs.fits = true) (hgs : gs.fits = true) (front : List (String × Json))
    (hnodup : (fields.map (·.label)).Nodup)
    (hfront : ∀ label ∈ fields.map (·.label), member? front label = none) :
    Compared (Json.differenceOfMembers (membersOf fs) (front ++ membersOf gs)) fs.parts
      gs.parts := by
  match fields, fs, gs with
  | _, .nil, .nil =>
    rw [membersOf, Json.differenceOfMembers]
    exact .alike .nil
  | field :: rest, .cons v vs, .cons w ws =>
    simp only [Fields.fits, Bool.and_eq_true] at hfs hgs
    rw [List.map_cons, List.nodup_cons] at hnodup
    have hvalue := (compared_values v w hfs.1 hgs.1).below (.field field.label)
    have hvalues := compared_fields vs ws hfs.2 hgs.2 (front ++ [(field.label, valueToJson w)])
      hnodup.2 fun label hlabel =>
        member?_snoc_eq_none (hfront label (List.mem_cons_of_mem _ hlabel)) hnodup.1 hlabel
    rw [differenceOfMembers_cons v w vs ws (hfront _ List.mem_cons_self)]
    exact hvalue.append fun _ => hvalues
termination_by structural fs

theorem compared_values {sort : FieldSort} (v w : Value sort) (hv : v.fits = true)
    (hw : w.fits = true) :
    Compared (Json.difference (valueToJson v) (valueToJson w)) (([], v.mark) :: v.parts)
      (([], w.mark) :: w.parts) := by
  match sort, v, w with
  | _, .span s, .span t => exact compared_spans hv hw
  | _, .float x, .float y => exact compared_floats hv hw
  | _, .names ns, .names ms =>
    exact compared_lists (List.length_map _) (List.length_map _) (compared_names 0)
  | _, .trees ts, .trees us =>
    exact compared_lists (length_treesToJson ts) (length_treesToJson us)
      (compared_items 0 ts us hv hw)
  | _, .tree t, .tree u => exact compared_trees t u hv hw
  | _, .optTree none, .optTree none =>
    have hnull : Json.difference .null .null = none := Json.difference_null_left.mpr rfl
    rw [valueToJson, hnull]
    exact .cons (.same _) (.alike .nil)
  | _, .optTree none, .optTree (some u) =>
    refine .head ?_ ?_ (fun _ => Json.path_of_difference_mixed (.inl rfl)) _ _
    · intro halike
      cases halike
    · rw [valueToJson, Ne, Json.difference_null_left]
      exact toJson_ne_null u
  | _, .optTree (some t), .optTree none =>
    refine .head ?_ ?_ (fun _ => Json.path_of_difference_mixed (.inr rfl)) _ _
    · intro halike
      cases halike
    · rw [valueToJson, valueToJson, Ne, Json.difference_null_right]
      exact toJson_ne_null t
  | _, .optTree (some t), .optTree (some u) => exact compared_trees t u hv hw
  | _, .name n, .name m => exact compared_scalars rfl (by decide) (.name n) (.name m)
  | _, .optName n, .optName m => exact compared_scalars rfl (by decide) (.optName n) (.optName m)
  | _, .flags f, .flags g => exact compared_scalars rfl (by decide) (.flags f) (.flags g)
  | _, .nat n, .nat m => exact compared_scalars rfl (by decide) (.nat n) (.nat m)
  | _, .int i, .int j => exact compared_scalars rfl (by decide) (.int i) (.int j)
  | _, .text s, .text t => exact compared_scalars rfl (by decide) (.text s) (.text t)
termination_by structural v

theorem compared_items (i : Nat) (ts us : List Tree) (hts : allFit ts = true)
    (hus : allFit us = true) (hlength : ts.length = us.length) :
    Compared (Json.differenceOfItems i (treesToJson ts) (treesToJson us))
      (Outline.items i (outlines ts)) (Outline.items i (outlines us)) := by
  match ts, us with
  | [], [] =>
    rw [treesToJson, Json.differenceOfItems_nil]
    exact .alike .nil
  | [], u :: us => cases hlength
  | t :: ts, [] => cases hlength
  | t :: ts, u :: us =>
    simp only [allFit, Bool.and_eq_true] at hts hus
    have hfirst := (compared_trees t u hts.1 hus.1).below (.index i)
    have hrest := compared_items (i + 1) ts us hts.2 hus.2 (Nat.succ.inj hlength)
    rw [treesToJson, treesToJson, Json.differenceOfItems_cons]
    exact hfirst.append fun _ => hrest
termination_by structural ts

end

variable {expected actual : Tree} {m : Mismatch}

theorem diverge_of_difference (he : expected.fits = true) (ha : actual.fits = true)
    (h : expected.difference actual = some m) :
    Outline.Diverge m.path expected.outline actual.outline := by
  have hcompared := compared_trees expected actual he ha
  rw [← difference, h] at hcompared
  cases hcompared with
  | differ hm => exact hm

/-- A mismatch names the first real difference: a place that one path leads to in both trees and
that is not alike in them, with everything visited before it alike. -/
theorem difference_firstPlace (he : expected.fits = true) (ha : actual.fits = true)
    (h : expected.difference actual = some m) :
    ∃ path, m.pathText = Step.placeText path ∧
      (∃ x y, expected.mark? path = some x ∧ actual.mark? path = some y ∧ ¬x.Alike y) ∧
      Outline.Diverge path expected.outline actual.outline := by
  obtain ⟨front, front', x, y, back, back', hxs, hys, hfront, hne⟩ := diverge_of_difference he ha h
  have hmem : (m.path, x) ∈ expected.outline := by simp [hxs]
  have hmem' : (m.path, y) ∈ actual.outline := by simp [hys]
  obtain ⟨hmark, hform⟩ := mark?_of_mem_outline hmem
  obtain ⟨hmark', -⟩ := mark?_of_mem_outline hmem'
  exact ⟨m.path, Mismatch.pathText_eq_placeText hform, ⟨x, y, hmark, hmark', hne⟩, front, front', x,
    y, back, back', hxs, hys, hfront, hne⟩

/-- The numbers are what is different. That the locations of one side are null is not. -/
theorem difference_firstPlace_numbers :
    let one := floatInSplat ⟨0x3ff0000000000000⟩ ⟨4, 3⟩
    let two := floatInSplat ⟨0x4000000000000000⟩ Span.null
    one.fits = true ∧ two.fits = true ∧ ∃ m path, one.difference two = some m ∧
      m.pathText = "body[0].expression.value" ∧ m.pathText = Step.placeText path ∧
      (∃ x y, one.mark? path = some x ∧ two.mark? path = some y ∧ ¬x.Alike y) ∧
      Outline.Diverge path one.outline two.outline := by
  intro one two
  have hone : one.fits = true := by decide
  have htwo : two.fits = true := by decide
  have htext : (one.difference two).map (·.pathText) = some "body[0].expression.value" := by
    decide +kernel
  obtain ⟨m, hm, hpath⟩ := Option.map_eq_some_iff.mp htext
  obtain ⟨path, hplace⟩ := difference_firstPlace hone htwo hm
  exact ⟨hone, htwo, m, path, hm, hpath, hplace⟩

end Tree

end Canonical

end RubyTree
