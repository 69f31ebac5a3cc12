import RubyTree.Proofs.WireDecoding

/-! What is decoded depends on the tree and not on the form in which its nodes are written, and an
object that is no form of a node makes the whole text malformed. How deeply a text may be nested is
limited, and the forms differ in depth: at the limit one form is read and another is not. -/

namespace RubyTree

namespace Json.Draft

variable {members : List (Option String × Draft)} {values : List (String × Json)}
  {items : List Draft} {results : List Json}

def timesGiven (members : List (Option String × Draft)) (label : String) : Nat :=
  members.countP (·.1 == some label)

theorem valueList?_cons_eq_some {item : Draft} {rest : List Draft} :
    valueList? (item :: rest) = some results ↔
      ∃ value others, item.value? = some value ∧ valueList? rest = some others ∧
        results = value :: others := by
  simp only [valueList?, bind, Option.bind_eq_some_iff, Option.some.injEq]
  constructor
  · rintro ⟨value, hvalue, others, hothers, rfl⟩
    exact ⟨value, others, hvalue, hothers, rfl⟩
  · rintro ⟨value, others, hvalue, hothers, rfl⟩
    exact ⟨value, hvalue, others, hothers, rfl⟩

theorem countP_of_valueMembers? (h : valueMembers? members = some values) (label : String) :
    values.countP (·.1 == label) = timesGiven members label := by
  unfold timesGiven
  induction members generalizing values with
  | nil =>
    cases h
    rfl
  | cons m rest ih =>
    obtain ⟨name, value, others, hname, hvalue, hothers, rfl⟩ := valueMembers?_cons_eq_some.mp h
    rw [List.countP_cons, List.countP_cons, ih hothers, hname, Option.some_beq_some]

theorem mem_of_valueMembers? (h : valueMembers? members = some values) {label : String}
    {item : Draft} (hmem : (some label, item) ∈ members) :
    ∃ value, item.value? = some value ∧ (label, value) ∈ values := by
  induction members generalizing values with
  | nil => cases hmem
  | cons m rest ih =>
    obtain ⟨name, value, others, hname, hvalue, hothers, rfl⟩ := valueMembers?_cons_eq_some.mp h
    obtain rfl | hmem := List.mem_cons.mp hmem
    · cases hname
      exact ⟨value, hvalue, by simp⟩
    · obtain ⟨value', hvalue', hmem'⟩ := ih hothers hmem
      exact ⟨value', hvalue', by simp [hmem']⟩

theorem mem_of_valueList? (h : valueList? items = some results) {item : Draft}
    (hmem : item ∈ items) : ∃ value, item.value? = some value ∧ value ∈ results := by
  induction items generalizing results with
  | nil => cases hmem
  | cons first rest ih =>
    obtain ⟨value, others, hvalue, hothers, rfl⟩ := valueList?_cons_eq_some.mp h
    obtain rfl | hmem := List.mem_cons.mp hmem
    · exact ⟨value, hvalue, by simp⟩
    · obtain ⟨value', hvalue', hmem'⟩ := ih hothers hmem
      exact ⟨value', hvalue', by simp [hmem']⟩

end Json.Draft

namespace Legacy

namespace Wire

open Json (Draft)

def atomLabels : List String :=
  ["sym", "special", "table", "count", "int", "float", "rational", "imaginary", "str", "regexp"]

/-- A child that is an object is a node, unless it has one member only and that of an atom. -/
def looksLikeNode : Draft → Bool
  | .object [(some key, _)] => !atomLabels.contains key
  | _ => true

/-- Some node that is an object has a field twice or lacks one that it needs. -/
inductive Broken : Draft → Prop where
  | repeated {members : List (Option String × Draft)} {label : String} (hlabel : label ∈ labels)
      (h : 2 ≤ Draft.timesGiven members label) : Broken (.object members)
  | missing {members : List (Option String × Draft)} {label : String} (hlabel : label ∈ labels)
      (hneeded : label ≠ "children") (h : Draft.timesGiven members label = 0) :
      Broken (.object members)
  | inObject {members : List (Option String × Draft)} {items : List Draft} {child : Draft}
      (hmember : (some "children", .array items) ∈ members) (hchild : child ∈ items)
      (hnode : looksLikeNode child = true) (h : Broken child) : Broken (.object members)
  | inArray {kind : Draft} {items rest : List Draft} {child : Draft} (hchild : child ∈ items)
      (hnode : looksLikeNode child = true) (h : Broken child) :
      Broken (.array (kind :: .array items :: rest))

section

variable {values : List (String × Json)} {items : List Json}

theorem countP_readMembers (values : List (String × Json)) (label : String) :
    (readMembers values).countP (·.1 == label) = values.countP (·.1 == label) := by
  rw [readMembers_eq_map, List.countP_map]
  rfl

theorem childListOfJson?_eq_none {child : Json} (hmem : child ∈ items)
    (h : childOfJson? child = none) : childListOfJson? items = none := by
  induction items with
  | nil => cases hmem
  | cons first rest ih =>
    rw [childListOfJson?]
    obtain rfl | hmem := List.mem_cons.mp hmem
    · rw [h]
      rfl
    · rw [ih hmem]
      cases childOfJson? first <;> rfl

theorem atomOfJson?_eq_none (h : ∀ key value, values = [(key, value)] → key ∉ atomLabels) :
    atomOfJson? (.object values) = none := by
  unfold atomOfJson?
  split
  · next key value heq =>
    -- a literal is tried last, and under none of its names either
    have hkey := h key value (Json.object.inj heq)
    simp only [atomLabels, List.mem_cons, List.not_mem_nil, or_false, not_or] at hkey
    simp [heq, hkey, Literal.ofJson?]
  · rfl

theorem children_of_ofReadings? {kind : FieldReading} {given : FieldReading}
    {rest : List FieldReading} {w : Wire} (h : ofReadings? (kind :: given :: rest) = some w) :
    given.2.isSome = true := by
  obtain ⟨_, children, _, _, _, _, hreadings, hchildren⟩ := assemble?_eq_some h
  rw [List.map_cons, List.map_cons] at hreadings
  exact hchildren given (List.cons.inj (List.cons.inj hreadings).2).1.symm

end

theorem key_of_looksLikeNode {members : List (Option String × Draft)} {key : String} {value : Json}
    (hvalues : Draft.valueMembers? members = some [(key, value)])
    (hnode : looksLikeNode (.object members) = true) : key ∉ atomLabels := by
  cases members with
  | nil => cases hvalues
  | cons m rest =>
    obtain ⟨name, _, others, hname, _, hothers, heq⟩ :=
      Draft.valueMembers?_cons_eq_some.mp hvalues
    obtain ⟨hpair, rfl⟩ := List.cons.inj heq
    cases rest with
    | nil =>
      obtain ⟨first, item⟩ := m
      cases hname
      cases hpair
      simpa [looksLikeNode] using hnode
    | cons next rest =>
      obtain ⟨_, _, _, _, _, _, hnil⟩ := Draft.valueMembers?_cons_eq_some.mp hothers
      cases hnil

theorem childOfJson?_eq_none {child : Draft} {value : Json} (hvalue : child.value? = some value)
    (hbroken : Broken child) (hnode : looksLikeNode child = true) (h : ofJson? value = none) :
    childOfJson? value = none := by
  cases child with
  | null | bool | number | string => cases hbroken
  | array items =>
    obtain ⟨results, _, rfl⟩ := Draft.value?_array_eq_some.mp hvalue
    rw [ofJson?] at h
    rw [childOfJson?, h, Option.map_none]
  | object members =>
    obtain ⟨values, hvalues, rfl⟩ := Draft.value?_object_eq_some.mp hvalue
    rw [ofJson?] at h
    rw [childOfJson?, h]
    refine atomOfJson?_eq_none fun key value heq => ?_
    subst heq
    exact key_of_looksLikeNode hvalues hnode

theorem childrenOfJson?_of_broken {items : List Draft} {child : Draft} {array : Json}
    (harray : (Draft.array items).value? = some array) (hchild : child ∈ items)
    (hnode : looksLikeNode child = true) (hbroken : Broken child)
    (ih : ∀ value, child.value? = some value → ofJson? value = none) :
    childrenOfJson? array = none := by
  obtain ⟨results, hresults, rfl⟩ := Draft.value?_array_eq_some.mp harray
  obtain ⟨value, hvalue, hmem⟩ := Draft.mem_of_valueList? hresults hchild
  rw [childrenOfJson?]
  exact childListOfJson?_eq_none hmem (childOfJson?_eq_none hvalue hbroken hnode (ih value hvalue))

theorem timesGiven_of_ofJson? {members : List (Option String × Draft)} {value : Json} {w : Wire}
    {label : String} (hvalue : (Draft.object members).value? = some value)
    (h : ofJson? value = some w) (hlabel : label ∈ labels) :
    Draft.timesGiven members label ≤ 1 ∧
      (label ≠ "children" → Draft.timesGiven members label = 1) := by
  obtain ⟨values, hvalues, rfl⟩ := Draft.value?_object_eq_some.mp hvalue
  rw [ofJson?] at h
  rw [← Draft.countP_of_valueMembers? hvalues, ← countP_readMembers]
  exact countP_of_ofFields? h hlabel

/-- A broken node is not read, and neither is what it is in. -/
theorem ofJson?_of_broken {draft : Draft} (hbroken : Broken draft) {value : Json}
    (hvalue : draft.value? = some value) : ofJson? value = none := by
  induction hbroken generalizing value with
  | repeated hlabel htwice =>
    refine Option.eq_none_iff_forall_ne_some.mpr fun w hw => ?_
    have honce := (timesGiven_of_ofJson? hvalue hw hlabel).1
    omega
  | missing hlabel hneeded hnone =>
    refine Option.eq_none_iff_forall_ne_some.mpr fun w hw => ?_
    have honce := (timesGiven_of_ofJson? hvalue hw hlabel).2 hneeded
    omega
  | @inObject members items child hmember hchild hnode hbroken ih =>
    obtain ⟨values, hvalues, rfl⟩ := Draft.value?_object_eq_some.mp hvalue
    obtain ⟨array, harray, hmem⟩ := Draft.mem_of_valueMembers? hvalues hmember
    have hchildren := childrenOfJson?_of_broken harray hchild hnode hbroken fun _ => ih
    rw [ofJson?]
    refine Option.eq_none_iff_forall_ne_some.mpr fun w hw => ?_
    have hreading : ("children", reading array) ∈ readMembers values := by
      rw [readMembers_eq_map]
      exact List.mem_map_of_mem (f := fun m => (m.1, reading m.2)) hmem
    have hread := children_of_ofFields? hw hreading
    rw [reading, hchildren] at hread
    cases hread
  | @inArray kind items rest child hchild hnode hbroken ih =>
    obtain ⟨results, hresults, rfl⟩ := Draft.value?_array_eq_some.mp hvalue
    obtain ⟨first, others, _, hothers, rfl⟩ := Draft.valueList?_cons_eq_some.mp hresults
    obtain ⟨array, others, harray, _, rfl⟩ := Draft.valueList?_cons_eq_some.mp hothers
    have hchildren := childrenOfJson?_of_broken harray hchild hnode hbroken fun _ => ih
    rw [ofJson?, readItems, readItems]
    refine Option.eq_none_iff_forall_ne_some.mpr fun w hw => ?_
    have hread := children_of_ofReadings? hw
    rw [hchildren] at hread
    cases hread

theorem Broken.keepMembers {draft : Draft} (h : Broken draft) :
    Broken (draft.keepMembers labels) := by
  have hcount {members : List (Option String × Draft)} {label : String} (hlabel : label ∈ labels) :
      Draft.timesGiven (members.filter fun m => m.1.all labels.contains) label =
        Draft.timesGiven members label := by
    unfold Draft.timesGiven
    rw [List.countP_filter]
    refine List.countP_congr fun m _ => ?_
    by_cases heq : m.1 = some label
    · simp [heq, hlabel]
    · simp [heq]
  cases h with
  | repeated hlabel h => exact .repeated hlabel (by rwa [hcount hlabel])
  | missing hlabel hneeded h => exact .missing hlabel hneeded (by rwa [hcount hlabel])
  | inObject hmember hchild hnode h =>
    have hkept : labels.contains "children" = true := by decide
    exact .inObject (List.mem_filter.mpr ⟨hmember, hkept⟩) hchild hnode h
  | inArray hchild hnode h => exact .inArray hchild hnode h

end Wire

/-! The nesting limit. -/

namespace Wire

/-- A nil inside of so many blocks. -/
def chain : Nat → Wire
  | 0 => .mk .NIL [] ⟨1, 0, 1, 0⟩
  | k + 1 => .mk .BLOCK [.node (chain k)] ⟨1, 0, 1, 0⟩

/-- The blocks as arrays, around a form of the nil. -/
def chainForm (leaf : Json) : Nat → Json
  | 0 => leaf
  | k + 1 => .array ((allFields .BLOCK [chainForm leaf k] ⟨1, 0, 1, 0⟩).map (·.2))

theorem fits_chain (k : Nat) : (chain k).fits = true := by
  induction k with
  | zero => decide
  | succ k ih =>
    rw [chain, fits, childrenFit, childFits, ih, childrenFit]
    decide

theorem specials_chain (k : Nat) : (chain k).specials = [] := by
  induction k with
  | zero => rfl
  | succ k ih => simp [chain, specials, specialsIn, childSpecials, ih]

theorem written_chainForm {leaf : Json} (h : (chain 0).Written leaf) (k : Nat) :
    (chain k).Written (chainForm leaf k) := by
  induction k with
  | zero => exact h
  | succ k ih => exact .array (.cons (.node ih) .nil)

theorem integral_chainForm {leaf : Json} (h : leaf.integral = true) (k : Nat) :
    (chainForm leaf k).integral = true := by
  induction k with
  | zero => exact h
  | succ k ih =>
    simp only [chainForm, allFields, positionFields, List.map_cons, List.map_nil, Json.ofNat,
      Json.integral, Json.integralItems, ih]
    decide

theorem depth_chainForm (leaf : Json) (k : Nat) :
    (chainForm leaf k).draft.depth = leaf.draft.depth + 2 * k := by
  induction k with
  | zero => rfl
  | succ k ih =>
    simp only [chainForm, allFields, positionFields, List.map_cons, List.map_nil, Json.ofNat,
      Json.draft, Json.draftItems, Json.Draft.depth, Json.Draft.depthList, ih]
    omega

end Wire

namespace Node

theorem ofText_of_broken {text : String} {draft : Json.Draft}
    (htext : Json.Draft.ofText? text = some draft) (h : Wire.Broken draft) :
    ofText text = .error .malformed := by
  rw [ofText_eq_ofDraft htext, ofDraft]
  split
  · next value hvalue =>
    have hvalue := (Json.Draft.boundedValue?_eq_some_iff.mp hvalue).2
    rw [ofJson, Wire.ofJson?_of_broken h.keepMembers hvalue]
    rfl
  · rfl

theorem ofText_of_deep {items : List Json} (h : (Json.array items).integral = true)
    (hdepth : Json.nestingLimit < (Json.array items).draft.depth) :
    ofText (Json.array items).text = .error .malformed := by
  have hnone : (Json.array items).draft.boundedValue? = none := if_neg (Nat.not_le_of_lt hdepth)
  rw [Json.draft] at hnone
  rw [ofText_eq_ofDraft (Json.Draft.ofText?_text h), Json.draft]
  simp only [ofDraft, Json.Draft.keepMembers, hnone]
  rfl

/-- Every form of a tree is decoded alike, other members of the outermost object need not even have
a value, and a broken node anywhere makes a text malformed. -/
theorem ofText_forms {w : Wire} (hfits : w.fits = true) :
    (∀ text text' value value', Json.ofText? text = some value → w.Written value →
      Json.ofText? text' = some value' → w.Written value' →
        ofText text' = ofText text ∧ ofText text = w.toNode) ∧
    (∀ text text' draft draft', Json.Draft.ofText? text = some draft →
      Json.Draft.ofText? text' = some draft' →
      draft'.keepMembers Wire.labels = draft.keepMembers Wire.labels →
        ofText text' = ofText text) ∧
    ∀ text draft, Json.Draft.ofText? text = some draft → Wire.Broken draft →
      ofText text = .error .malformed := by
  refine ⟨fun text text' value value' htext hw htext' hw' => ?_,
    fun text text' draft draft' htext htext' hkept => ?_,
    fun text draft htext h => ofText_of_broken htext h⟩
  · have hnode := ofText_of_written htext hw hfits
    exact ⟨(ofText_of_written htext' hw' hfits).trans hnode.symm, hnode⟩
  · rw [ofText_eq_ofDraft htext, ofText_eq_ofDraft htext', ofDraft, ofDraft, hkept]

/-- `begin; nil; end` with a marker that is not known. -/
def markedBlock : Wire :=
  .mk .BLOCK [.node (.mk .NIL [] ⟨1, 7, 1, 10⟩), .marker "NODE_SPECIAL_OTHER"] ⟨1, 0, 1, 15⟩

/-- The block as an object with a note, and in it the nil as an array. -/
def markedBlockObject (note : Json) : Json :=
  .object <| ("note", note) ::
    ("children", .array
      [.array [.string "NIL", .array [], .ofNat 1, .ofNat 7, .ofNat 1, .ofNat 10],
        .object [("special", .string "NODE_SPECIAL_OTHER")]]) ::
    ("type", .string "BLOCK") :: Wire.positionFields ⟨1, 0, 1, 15⟩

/-- The block as an array, and in it the nil as an object without children. -/
def markedBlockArray (members : List (String × Json)) : Json :=
  .array [.string "BLOCK",
    .array [.object members, .object [("special", .string "NODE_SPECIAL_OTHER")]],
    .ofNat 1, .ofNat 0, .ofNat 1, .ofNat 15]

def nilFields : List (String × Json) :=
  ("type", .string "NIL") :: Wire.positionFields ⟨1, 7, 1, 10⟩

theorem integral_markedBlockObject {note : Json} (h : note.integral = true) :
    (markedBlockObject note).integral = true := by
  rw [markedBlockObject, Json.integral, Json.integralMembers, h]
  decide

/-- A note that is nested more deeply than what is read does not matter. -/
theorem ofText_forms_markedBlock :
    ofText (markedBlockArray nilFields).text = ofText (markedBlockObject .null).text ∧
      ofText (markedBlockObject (Wire.chainForm (.array []) 64)).text =
        ofText (markedBlockObject .null).text ∧
      ofText (markedBlockArray (("type", .string "NIL") :: nilFields)).text =
        .error .malformed := by
  have hdeep := Wire.integral_chainForm (by decide : (Json.array []).integral = true) 64
  have hforms := ofText_forms (w := markedBlock) (by decide)
  refine ⟨(hforms.1 _ _ (markedBlockObject .null) (markedBlockArray nilFields) ?_ ?_ ?_ ?_).1,
    hforms.2.1 _ _ _ _ (Json.Draft.ofText?_text (by decide))
      (Json.Draft.ofText?_text (integral_markedBlockObject hdeep)) ?_,
    hforms.2.2 _ _ (Json.Draft.ofText?_text (by decide)) ?_⟩
  · exact Json.ofText?_text (by decide) (by decide)
  · exact .object (.swap _ _ _) (.cons (.node (.array .nil)) (.cons (.other rfl) .nil))
  · exact Json.ofText?_text (by decide) (by decide)
  · exact .array (.cons (.node (.childless (.refl _))) (.cons (.other rfl) .nil))
  · rfl
  · exact .inArray (.head _) (by decide) (.repeated (by decide : "type" ∈ Wire.labels) (by decide))

/-- At the nesting limit a nil without children is read where one with an empty list is not. -/
theorem ofText_leafForm_differs : ∃ value value' n,
    (Wire.chain 63).Written value ∧ ofText value.text = .ok n ∧
      (Wire.chain 63).Written value' ∧ ofText value'.text = .error .malformed := by
  -- the blocks are 126 levels, and the nil takes one or two
  let short : Json := .object (("type", .string "NIL") :: Wire.positionFields ⟨1, 0, 1, 0⟩)
  let long : Json := (Wire.chain 0).toJson
  have hshort : (Wire.chain 63).Written (Wire.chainForm short 63) :=
    Wire.written_chainForm (.childless (.refl _)) 63
  have hlong : (Wire.chain 63).Written (Wire.chainForm long 63) :=
    Wire.written_chainForm (Wire.written_toJson _) 63
  have htext : Json.ofText? (Wire.chainForm short 63).text = some (Wire.chainForm short 63) := by
    refine Json.ofText?_text (Wire.integral_chainForm (by decide) 63) ?_
    rw [Wire.depth_chainForm]
    decide
  obtain ⟨n, hn, _⟩ := (Wire.chain 63).toNode_resolves.known (by simp [Wire.specials_chain])
  refine ⟨_, _, n, hshort, ?_, hlong, ?_⟩
  · rw [ofText_of_written htext hshort (Wire.fits_chain 63), hn]
  · refine ofText_of_deep (Wire.integral_chainForm (by decide) 63) ?_
    exact (Wire.depth_chainForm long 63).symm ▸ (by decide)

end Node

end Legacy

end RubyTree
