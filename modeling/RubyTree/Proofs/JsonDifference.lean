import Mathlib.Data.List.Forall2
import RubyTree.Json.Difference

/-! When two JSON values have no difference, by what they are recognised as: spans, nodes, records,
lists or scalars. -/

namespace RubyTree

namespace Json

variable {e a : Json}

def isScalar : Json → Bool
  | array _ => false
  | object _ => false
  | _ => true

theorem difference_spans {s t : Span} (he : e.span? = some s) (ha : a.span? = some t) :
    difference e a = none ↔ s.agrees t = true := by
  rw [difference, he, ha]
  simp

/-! Nodes. The kinds are compared first, then the locations and then the fields. -/

theorem difference_nodes_of_ne {k l k' l' : Json} (hs : e.span? = none)
    (he : e.node? = some (k, l)) (ha : a.node? = some (k', l'))
    (hname : k.kindParts.1 ≠ k'.kindParts.1) :
    difference e a = some (.here (.kinds k.kindParts.1 k'.kindParts.1)) := by
  rw [difference, hs]
  dsimp only
  split
  · next hn hn' =>
    rw [he] at hn
    rw [ha] at hn'
    cases hn
    cases hn'
    exact if_pos hname
  · next hnot => exact absurd ha (hnot _ _ _ _ he)

theorem difference_nodes_of_eq {k l k' l' : Json} (hs : e.span? = none)
    (he : e.node? = some (k, l)) (ha : a.node? = some (k', l'))
    (hname : k.kindParts.1 = k'.kindParts.1) :
    difference e a = ((difference l l').map (Mismatch.under (.field "location"))).or
      (k.kindParts.2.bind fun f => k'.kindParts.2.bind fun f' => difference f f') := by
  rw [difference, hs]
  dsimp only
  split
  · next hn hn' =>
    rw [he] at hn
    rw [ha] at hn'
    cases hn
    cases hn'
    rw [if_neg (not_not.mpr hname)]
    cases hm : difference l l' with
    | some m => rfl
    | none =>
      dsimp only
      split
      · next hf hf' _ => simp [hf, hf']
      · next hnot =>
        cases hf : k.kindParts.2 with
        | none => rfl
        | some f =>
          cases hf' : k'.kindParts.2 with
          | none => rfl
          | some f' => exact (hnot f f' (Prod.ext rfl hf) hf hf' (proof_irrel_heq _ _)).elim
  · next hnot => exact absurd ha (hnot _ _ _ _ he)

theorem difference_nodes {k l k' l' : Json} (hs : e.span? = none) (he : e.node? = some (k, l))
    (ha : a.node? = some (k', l')) :
    difference e a = none ↔ k.kindParts.1 = k'.kindParts.1 ∧ difference l l' = none ∧
      ∀ f f', k.kindParts.2 = some f → k'.kindParts.2 = some f' → difference f f' = none := by
  by_cases hname : k.kindParts.1 = k'.kindParts.1
  · rw [difference_nodes_of_eq hs he ha hname, Option.or_eq_none_iff, Option.map_eq_none_iff]
    simp only [hname, true_and, Option.bind_eq_none_iff]
    exact and_congr_right fun _ => ⟨fun h f f' hf => h f hf f', fun h f hf f' => h f f' hf⟩
  · rw [difference_nodes_of_ne hs he ha hname]
    simp [hname]

/-! Objects that are neither both spans nor both nodes. -/

/-- The expected members are looked up one after the other, and only then is a member looked for
that is not expected. -/
theorem difference_objects_eq {es as : List (String × Json)}
    (hs : (object es).span? = none ∨ (object as).span? = none)
    (hn : (object es).node? = none ∨ (object as).node? = none) :
    difference (object es) (object as) = (differenceOfMembers es as).or
      ((as.find? fun member => (member? es member.1).isNone).map fun member =>
        ⟨[.field member.1], .unexpectedField⟩) := by
  rw [difference]
  split
  · next hs' ht' => simp [hs', ht'] at hs
  · split
    · next hn' hm' => simp [hn', hm'] at hn
    · dsimp only
      cases hm : differenceOfMembers es as with
      | some m => simp
      | none =>
        cases hfind : as.find? fun member => (member? es member.1).isNone with
        | none => simp
        | some member => simp

theorem difference_objects {es as : List (String × Json)}
    (hs : (object es).span? = none ∨ (object as).span? = none)
    (hn : (object es).node? = none ∨ (object as).node? = none) :
    difference (object es) (object as) = none ↔ differenceOfMembers es as = none ∧
      ∀ key value, (key, value) ∈ as → member? es key ≠ none := by
  rw [difference_objects_eq hs hn, Option.or_eq_none_iff, Option.map_eq_none_iff,
    List.find?_eq_none]
  simp [Prod.forall]

/-! Values of which one has no parts. -/

theorem difference_mixed (h : e.isScalar = true ∨ a.isScalar = true) :
    difference e a = if sameScalar e a then none else some (.here (.values e a)) := by
  have hspan : e.span? = none ∨ a.span? = none := by
    rcases h with h | h
    · cases e <;> first | exact .inl rfl | cases h
    · cases a <;> first | exact .inr rfl | cases h
  have hnode : e.node? = none ∨ a.node? = none := by
    rcases h with h | h
    · cases e <;> first | exact .inl rfl | cases h
    · cases a <;> first | exact .inr rfl | cases h
  rw [difference]
  split
  · next hs ht => simp [hs, ht] at hspan
  · split
    · next hn hm => simp [hn, hm] at hnode
    · split
      · simp [isScalar] at h
      · simp [isScalar] at h
      · rfl

theorem difference_scalars (he : e.isScalar = true) :
    difference e a = none ↔ sameScalar e a = true := by
  rw [difference_mixed (.inl he)]
  simp

theorem difference_strings {s t : String} :
    difference (string s) (string t) = none ↔ s = t := by
  rw [difference_scalars rfl]
  simp [sameScalar]

theorem difference_ints {i j : Int} : difference (ofInt i) (ofInt j) = none ↔ i = j := by
  rw [difference_scalars rfl]
  simp [sameScalar, ofInt]

theorem difference_nats {n m : Nat} : difference (ofNat n) (ofNat m) = none ↔ n = m := by
  rw [← Int.ofNat_inj]
  exact difference_ints

theorem difference_floats {x y : Double} :
    difference (number (.float x)) (number (.float y)) = none ↔ x.sameNumber y = true := by
  rw [difference_scalars rfl]
  rfl

theorem difference_ofDouble_self (x : Double) : difference (ofDouble x) (ofDouble x) = none := by
  unfold ofDouble
  split
  · exact difference_floats.mpr (by simp [Double.sameNumber])
  · rw [difference_scalars rfl]
    rfl

theorem difference_null_left : difference null a = none ↔ a = null := by
  rw [difference_scalars rfl]
  cases a <;> simp [sameScalar]

theorem difference_null_right : difference e null = none ↔ e = null := by
  rw [difference_mixed (.inr rfl)]
  cases e <;> simp [sameScalar]

/-! Lists. -/

theorem differenceOfItems_cons (i : Nat) (e a : Json) (es as : List Json) :
    differenceOfItems i (e :: es) (a :: as) = ((difference e a).map (Mismatch.under (.index i))).or
      (differenceOfItems (i + 1) es as) := by
  rw [differenceOfItems]
  cases difference e a <;> simp

theorem differenceOfItems_nil (i : Nat) : differenceOfItems i [] [] = none := by
  simp [differenceOfItems]

theorem differenceOfItems_eq_none_iff {es as : List Json} (i : Nat) (h : es.length = as.length) :
    differenceOfItems i es as = none ↔
      List.Forall₂ (fun e a => difference e a = none) es as := by
  induction es generalizing as i with
  | nil =>
    cases as with
    | nil => simp [differenceOfItems_nil]
    | cons a as => cases h
  | cons e es ih =>
    cases as with
    | nil => cases h
    | cons a as =>
      rw [differenceOfItems_cons, List.forall₂_cons, Option.or_eq_none_iff,
        Option.map_eq_none_iff, ih (i + 1) (Nat.succ.inj h)]

theorem difference_arrays_eq {es as : List Json} :
    difference (array es) (array as) =
      if es.length = as.length then differenceOfItems 0 es as
      else some (.here (.lengths es.length as.length)) := by
  rw [difference]
  dsimp only [span?, node?]
  exact ite_not ..

theorem difference_arrays {es as : List Json} :
    difference (array es) (array as) = none ↔
      List.Forall₂ (fun e a => difference e a = none) es as := by
  rw [difference_arrays_eq]
  by_cases hlength : es.length = as.length
  · rw [if_pos hlength, differenceOfItems_eq_none_iff 0 hlength]
  · rw [if_neg hlength]
    simp only [reduceCtorEq, false_iff]
    exact fun h => hlength h.length_eq

end Json

end RubyTree
