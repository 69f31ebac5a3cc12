import RubyTree.Proofs.ReferenceTrees

/-! The comparison as a relation on all JSON values. It goes through the members of the one side and
then looks for others on the other side, and takes objects for spans or nodes only if both sides
look like one; what it finds no difference between does not depend on which side is which. -/

namespace RubyTree

namespace Json

mutual

/-- No object in the value names a member twice. -/
def keyed : Json → Bool
  | .array items => keyedItems items
  | .object members => decide (members.map (·.1)).Nodup && keyedMembers members
  | _ => true

def keyedItems : List Json → Bool
  | [] => true
  | item :: items => keyed item && keyedItems items

def keyedMembers : List (String × Json) → Bool
  | [] => true
  | (_, value) :: members => keyed value && keyedMembers members

end

theorem keyedItems_iff {items : List Json} :
    keyedItems items = true ↔ ∀ item ∈ items, item.keyed = true := by
  induction items with
  | nil => simp [keyedItems]
  | cons item items ih => simp [keyedItems, ih]

theorem keyedMembers_iff {members : List (String × Json)} :
    keyedMembers members = true ↔ ∀ member ∈ members, member.2.keyed = true := by
  induction members with
  | nil => simp [keyedMembers]
  | cons member members ih => simp [keyedMembers, ih]

theorem keyed_object_iff {members : List (String × Json)} :
    (Json.object members).keyed = true ↔
      (members.map (·.1)).Nodup ∧ ∀ member ∈ members, member.2.keyed = true := by
  rw [keyed, Bool.and_eq_true, decide_eq_true_eq, keyedMembers_iff]

/-! Values as they are read: of members with one name, the last one counts. -/

theorem setMember_keys (key : String) (value : Json) (members : List (String × Json)) :
    (setMember key value members).map (·.1) =
      if key ∈ members.map (·.1) then members.map (·.1) else members.map (·.1) ++ [key] := by
  induction members with
  | nil => rfl
  | cons member members ih =>
    obtain ⟨k, v⟩ := member
    by_cases hk : k = key
    · simp [setMember, hk]
    · have hne : ¬key = k := fun h => hk h.symm
      rw [setMember, if_neg hk, List.map_cons, ih]
      by_cases hmem : key ∈ members.map (·.1)
      · simp [hmem]
      · simp [hmem, hne]

theorem mem_setMember {key : String} {value : Json} {members : List (String × Json)}
    {member : String × Json} (h : member ∈ setMember key value members) :
    member ∈ members ∨ member.2 = value := by
  induction members with
  | nil =>
    rw [setMember, List.mem_singleton] at h
    exact .inr (congrArg Prod.snd h)
  | cons first members ih =>
    obtain ⟨k, v⟩ := first
    by_cases hk : k = key
    · rw [setMember, if_pos hk] at h
      rcases List.mem_cons.mp h with h | h
      · exact .inr (congrArg Prod.snd h)
      · exact .inl (List.mem_cons_of_mem _ h)
    · rw [setMember, if_neg hk] at h
      rcases List.mem_cons.mp h with h | h
      · exact .inl (h ▸ List.mem_cons_self)
      · exact (ih h).imp_left (List.mem_cons_of_mem _)

theorem keyed_setMember {key : String} {value : Json} {members : List (String × Json)}
    (hmembers : (Json.object members).keyed = true) (hvalue : value.keyed = true) :
    (Json.object (setMember key value members)).keyed = true := by
  obtain ⟨hnodup, hvalues⟩ := keyed_object_iff.mp hmembers
  rw [keyed_object_iff]
  constructor
  · rw [setMember_keys]
    by_cases hmem : key ∈ members.map (·.1)
    · rwa [if_pos hmem]
    · rw [if_neg hmem, List.nodup_append]
      refine ⟨hnodup, List.nodup_singleton key, ?_⟩
      intro k hk l hl hkl
      exact hmem (List.mem_singleton.mp hl ▸ hkl ▸ hk)
  · intro member hmember
    rcases mem_setMember hmember with h | h
    · exact hvalues member h
    · rwa [h]

mutual

theorem keyed_uniqueKeys (value : Json) : value.uniqueKeys.keyed = true := by
  match value with
  | .array items => exact keyedItems_uniqueKeys items
  | .object members => exact keyed_uniqueKeysMembers [] members (by decide)
  | .null | .bool _ | .number _ | .string _ => rfl

theorem keyedItems_uniqueKeys (items : List Json) : keyedItems (uniqueKeysList items) = true := by
  match items with
  | [] => rfl
  | item :: items =>
    rw [uniqueKeysList, keyedItems, Bool.and_eq_true]
    exact ⟨keyed_uniqueKeys item, keyedItems_uniqueKeys items⟩

theorem keyed_uniqueKeysMembers (seen members : List (String × Json))
    (hseen : (Json.object seen).keyed = true) :
    (Json.object (uniqueKeysMembers seen members)).keyed = true := by
  match members with
  | [] => exact hseen
  | (key, value) :: members =>
    rw [uniqueKeysMembers]
    exact keyed_uniqueKeysMembers _ members (keyed_setMember hseen (keyed_uniqueKeys value))

end

/-! Members of objects. -/

variable {x y : Json} {es as : List (String × Json)}

theorem member?_of_mem {key : String} {value : Json} (hnodup : (es.map (·.1)).Nodup)
    (h : (key, value) ∈ es) : member? es key = some value := by
  cases hfound : member? es key with
  | none => exact absurd (List.mem_map.mpr ⟨_, h, rfl⟩) (member?_eq_none_iff.mp hfound)
  | some other =>
    have hsame := List.inj_on_of_nodup_map hnodup (mem_of_member? hfound) h rfl
    exact congrArg (fun member => some member.2) hsame

theorem keyed_of_member? {key : String} {value : Json} (h : (Json.object es).keyed = true)
    (hv : member? es key = some value) : value.keyed = true :=
  (keyed_object_iff.mp h).2 _ (mem_of_member? hv)

theorem differenceOfMembers_eq_none_iff : differenceOfMembers es as = none ↔
    ∀ key value, (key, value) ∈ es →
      ∃ other, member? as key = some other ∧ difference value other = none := by
  refine ⟨fun h key value => difference_of_differenceOfMembers h, ?_⟩
  intro h
  induction es with
  | nil => rw [differenceOfMembers]
  | cons member es ih =>
    obtain ⟨k, v⟩ := member
    obtain ⟨other, hother, hnone⟩ := h k v List.mem_cons_self
    have hrest := ih fun key value hmem => h key value (List.mem_cons_of_mem _ hmem)
    simp only [differenceOfMembers, hother, hnone, hrest]

theorem difference_objects_iff_members (hes : (Json.object es).keyed = true)
    (has : (Json.object as).keyed = true)
    (hspan : (object es).span? = none ∨ (object as).span? = none)
    (hnode : (object es).node? = none ∨ (object as).node? = none) :
    difference (object es) (object as) = none ↔
      ∀ key, Option.Rel (fun v w => difference v w = none) (member? es key) (member? as key) := by
  rw [difference_objects hspan hnode, differenceOfMembers_eq_none_iff]
  constructor
  · rintro ⟨hmembers, hextra⟩ key
    cases hv : member? es key with
    | none =>
      cases hw : member? as key with
      | none => exact .none
      | some w => exact absurd hv (hextra key w (mem_of_member? hw))
    | some v =>
      obtain ⟨w, hw, hnone⟩ := hmembers key v (mem_of_member? hv)
      rw [hw]
      exact .some hnone
  · intro h
    constructor
    · intro key value hmem
      have hrel := h key
      rw [member?_of_mem (keyed_object_iff.mp hes).1 hmem] at hrel
      generalize member? as key = found at hrel
      cases hrel with
      | some hnone => exact ⟨_, rfl, hnone⟩
    · intro key value hmem hnone
      have hrel := h key
      rw [hnone, member?_of_mem (keyed_object_iff.mp has).1 hmem] at hrel
      cases hrel

theorem isScalar_of_sameScalar (h : sameScalar x y = true) : x.isScalar = true := by
  unfold sameScalar at h
  split at h <;> first | rfl | cases h

theorem sameNumber_comm (a b : Double) : a.sameNumber b = b.sameNumber a := by
  rw [Double.sameNumber, Double.sameNumber, Bool.beq_comm, Bool.and_comm]

theorem sameScalar_comm (x y : Json) : sameScalar x y = sameScalar y x := by
  unfold sameScalar
  split
  · rfl
  · exact Bool.beq_comm
  · exact Bool.beq_comm
  · exact sameNumber_comm _ _
  · exact Bool.beq_comm
  · split <;> simp_all

theorem sameScalar_self (h : x.isScalar = true) : sameScalar x x = true := by
  cases x with
  | number n => cases n <;> simp [sameScalar, Double.sameNumber]
  | array items => cases h
  | object members => cases h
  | _ => simp [sameScalar]

theorem agrees_comm (s t : Span) : s.agrees t = t.agrees s := by
  rw [Bool.eq_iff_iff, Span.agrees_iff, Span.agrees_iff, Span.Matches, Span.Matches, eq_comm,
    or_comm (a := t = Span.null)]

/-! The comparison. The inductions are on the size of the first side, as in the comparison
itself. -/

theorem keyed_of_node? {k l : Json} (h : x.keyed = true) (hn : x.node? = some (k, l)) :
    k.keyed = true ∧ l.keyed = true := by
  obtain ⟨es, rfl, -, hk, hl⟩ := node?_eq_some hn
  exact ⟨keyed_of_member? h hk, keyed_of_member? h hl⟩

theorem keyed_of_kindParts {k f : Json} (h : k.keyed = true) (hf : k.kindParts.2 = some f) :
    f.keyed = true := by
  rw [kindParts_eq_some hf] at h
  exact (keyed_object_iff.mp h).2 _ List.mem_cons_self

theorem difference_self {x : Json} (hx : x.keyed = true) : difference x x = none := by
  -- In the order of the comparison: a span, then a node, then any other value by its shape.
  cases hspan : x.span? with
  | some s =>
    rw [difference_spans hspan hspan]
    exact Span.agrees_iff.mpr (.inl rfl)
  | none =>
    cases hnode : x.node? with
    | some parts =>
      obtain ⟨k, l⟩ := parts
      obtain ⟨hk, hl⟩ := keyed_of_node? hx hnode
      have hsize := sizeOf_lt_of_node? hnode
      rw [difference_nodes hspan hnode hnode]
      refine ⟨rfl, difference_self hl, ?_⟩
      intro f f' hf hf'
      obtain rfl : f = f' := Option.some.inj (hf.symm.trans hf')
      have hless : sizeOf f < sizeOf k := sizeOf_lt_of_kindParts (Prod.ext rfl hf)
      exact difference_self (keyed_of_kindParts hk hf)
    | none =>
      cases x with
      | object es =>
        rw [difference_objects_iff_members hx hx (.inl hspan) (.inl hnode)]
        intro key
        cases hv : member? es key with
        | none => exact .none
        | some v =>
          have hsize : sizeOf v < sizeOf es := sizeOf_lt_of_member? hv
          exact .some (difference_self (keyed_of_member? hx hv))
      | array items =>
        rw [difference_arrays, List.forall₂_same]
        intro item hitem
        have hsize : sizeOf item < sizeOf items := List.sizeOf_lt_of_mem hitem
        exact difference_self (keyedItems_iff.mp hx item hitem)
      | _ =>
        rw [difference_scalars rfl]
        exact sameScalar_self rfl
termination_by sizeOf x
decreasing_by
  all_goals simp_all
  all_goals omega

theorem difference_swap {x y : Json} (hx : x.keyed = true) (hy : y.keyed = true)
    (h : difference x y = none) : difference y x = none := by
  -- Only two spans, or two nodes, are compared as such; all others go by their shape.
  by_cases hspans : x.span? = none ∨ y.span? = none
  · by_cases hnodes : x.node? = none ∨ y.node? = none
    · rcases parts_of_difference hspans hnodes h with
        ⟨es, as, rfl, rfl, -, -⟩ | ⟨es, as, rfl, rfl, hitems⟩ | hscalar
      · rw [difference_objects_iff_members hy hx hspans.symm hnodes.symm]
        intro key
        have hrel := (difference_objects_iff_members hx hy hspans hnodes).mp h key
        cases hv : member? es key with
        | none =>
          cases hw : member? as key with
          | none => exact .none
          | some w =>
            rw [hv, hw] at hrel
            cases hrel
        | some v =>
          cases hw : member? as key with
          | none =>
            rw [hv, hw] at hrel
            cases hrel
          | some w =>
            rw [hv, hw, Option.rel_some_some] at hrel
            have hsize : sizeOf v < sizeOf es := sizeOf_lt_of_member? hv
            exact .some (difference_swap (keyed_of_member? hx hv) (keyed_of_member? hy hw) hrel)
      · have hturned : List.Forall₂ (fun v w => difference w v = none) es as := by
          refine forall₂_imp_of_mem hitems fun v hv w hw hnone => ?_
          have hsize : sizeOf v < sizeOf es := List.sizeOf_lt_of_mem hv
          exact difference_swap (keyedItems_iff.mp hx v hv) (keyedItems_iff.mp hy w hw) hnone
        rw [difference_arrays]
        exact hturned.flip
      · rw [sameScalar_comm] at hscalar
        exact (difference_scalars (isScalar_of_sameScalar hscalar)).mpr hscalar
    · obtain ⟨⟨⟨k, l⟩, hn⟩, ⟨⟨k', l'⟩, hn'⟩⟩ : (∃ n, x.node? = some n) ∧ ∃ n, y.node? = some n := by
        simpa [Option.ne_none_iff_exists'] using hnodes
      obtain ⟨hname, hlocation, hfields⟩ :=
        (difference_nodes (span?_eq_none_of_node? hn) hn hn').mp h
      obtain ⟨hk, hl⟩ := keyed_of_node? hx hn
      obtain ⟨hk', hl'⟩ := keyed_of_node? hy hn'
      have hsize := sizeOf_lt_of_node? hn
      rw [difference_nodes (span?_eq_none_of_node? hn') hn' hn]
      refine ⟨hname.symm, difference_swap hl hl' hlocation, ?_⟩
      intro f' f hf' hf
      have hless : sizeOf f < sizeOf k := sizeOf_lt_of_kindParts (Prod.ext rfl hf)
      exact difference_swap (keyed_of_kindParts hk hf) (keyed_of_kindParts hk' hf')
        (hfields f f' hf hf')
  · obtain ⟨⟨s, hs⟩, ⟨t, ht⟩⟩ : (∃ s, x.span? = some s) ∧ ∃ t, y.span? = some t := by
      simpa [Option.ne_none_iff_exists'] using hspans
    rw [difference_spans ht hs, agrees_comm]
    exact (difference_spans hs ht).mp h
termination_by sizeOf x
decreasing_by
  all_goals simp_all
  all_goals omega

/-- A value has no difference from itself, and whether two values have one does not depend on which
of them is expected. This is so whatever the values are like, trees or not; only a member named
twice is left out, and a value that is read holds none. -/
theorem difference_reflexive_symmetric :
    (∀ value : Json, value.uniqueKeys.keyed = true) ∧
      (∀ value : Json, value.keyed = true → difference value value = none) ∧
      ∀ x y : Json, x.keyed = true → y.keyed = true →
        (difference x y = none ↔ difference y x = none) :=
  ⟨keyed_uniqueKeys, fun _ h => difference_self h,
    fun _ _ hx hy => ⟨difference_swap hx hy, difference_swap hy hx⟩⟩

/-- A node without fields and one whose fields are an array, at a null span and a known one; and an
object whose members are those of a span on one side only. -/
theorem difference_reflexive_symmetric_lookAlikes :
    let bare := object [("kind", string "Nil"), ("location", Span.null.toJson)]
    let listed := object [("location", (Span.mk 3 1).toJson), ("kind", object [("Nil", array [])])]
    let span := (Span.mk 3 1).toJson
    let other := object [("start", ofNat 3), ("length", string "1")]
    bare.keyed = true ∧ listed.keyed = true ∧ span.keyed = true ∧ other.keyed = true ∧
      difference other other = none ∧ difference bare listed = none ∧
      difference listed bare = none ∧ difference span other ≠ none ∧
      difference other span ≠ none := by
  intro bare listed span other
  have hbare : bare.keyed = true := by decide
  have hlisted : listed.keyed = true := by decide
  have hspan : span.keyed = true := by decide
  have hother : other.keyed = true := by decide
  obtain ⟨-, hself, hsymm⟩ := difference_reflexive_symmetric
  have hnode : bare.node? = some (string "Nil", Span.null.toJson) := rfl
  have hnode' : listed.node? = some (object [("Nil", array [])], (Span.mk 3 1).toJson) := rfl
  have hnone : difference bare listed = none := by
    refine (difference_nodes rfl hnode hnode').mpr ⟨rfl, ?_, ?_⟩
    · exact (difference_spans rfl rfl).mpr rfl
    · intro f f' hf
      cases hf
  have hsome : difference span other ≠ none := by
    intro h
    obtain ⟨hmembers, -⟩ := (difference_objects (.inr rfl) (.inr rfl)).mp h
    obtain ⟨value, hvalue, hdiff⟩ := differenceOfMembers_eq_none_iff.mp hmembers "length" (ofNat 1)
      (by simp)
    cases hvalue
    rw [ofNat, difference_scalars rfl] at hdiff
    cases hdiff
  refine ⟨hbare, hlisted, hspan, hother, hself other hother, hnone, ?_, hsome, ?_⟩
  · exact (hsymm bare listed hbare hlisted).mp hnone
  · exact fun h => hsome ((hsymm span other hspan hother).mpr h)

end Json

end RubyTree
