import RubyTree.Legacy.Wire
import RubyTree.Proofs.JsonReading

/-! The ways to write a wire tree as JSON, and how each is read. A node is an object with its fields
in any order and others among them, or the array of its fields; an atom or a literal is an object
with one member, and no object with one member is a node. -/

namespace RubyTree

def isInt64 (i : Int) : Bool := decide (-0x8000000000000000 ≤ i ∧ i < 0x8000000000000000)

namespace Json

theorem nat64?_ofNat {n : Nat} (h : n < UInt64.size) : (ofNat n).nat64? = some n := if_pos h

theorem int64?_ofInt {i : Int} (h : isInt64 i = true) : (ofInt i).int64? = some i :=
  if_pos (of_decide_eq_true h)

end Json

def Position.fits (p : Position) : Bool :=
  [p.firstLine, p.firstColumn, p.lastLine, p.lastColumn].all fun n => decide (n < UInt64.size)

namespace Literal

def fits : Literal → Bool
  | .int i => isInt64 i
  | .rational n d => isInt64 n && isInt64 d
  | .imaginary part => part.fits
  | _ => true

theorem ofJson?_toJson {l : Literal} (h : l.fits = true) : ofJson? l.toJson = some l := by
  induction l with
  | int i => simp [toJson, ofJson?, Json.int64?_ofInt h]
  | float x => simp [toJson, ofJson?, Json.double?]
  | rational n d =>
    obtain ⟨hn, hd⟩ := Bool.and_eq_true_iff.mp h
    simp [toJson, ofJson?, Json.int64?_ofInt hn, Json.int64?_ofInt hd]
  | imaginary part ih => simp [toJson, ofJson?, ih h]
  | string s => simp [toJson, ofJson?, Json.string?]
  | regexp source options =>
    have hoptions : (Json.ofNat options.toNat).nat32? = some options.toNat :=
      if_pos options.toNat_lt_size
    simp [toJson, ofJson?, regexpOfJson?, regexpLabels, Json.recordFields?, Json.string?, hoptions]

theorem toJson_eq_object (l : Literal) : ∃ key value, l.toJson = .object [(key, value)] ∧
    key ∉ ["sym", "special", "table", "count"] := by
  cases l <;> exact ⟨_, _, rfl, by decide⟩

end Literal

namespace Json

namespace Draft

variable {labels : List String}

theorem depthMembers_filter_le (p : Option String × Draft → Bool)
    (members : List (Option String × Draft)) :
    depthMembers (members.filter p) ≤ depthMembers members := by
  induction members with
  | nil => exact Nat.le_refl _
  | cons m rest ih =>
    rw [List.filter_cons]
    split
    · simp only [depthMembers]
      omega
    · simp only [depthMembers]
      omega

theorem depth_keepMembers_le (draft : Draft) : (draft.keepMembers labels).depth ≤ draft.depth := by
  cases draft with
  | object members =>
    simp only [keepMembers, depth]
    exact Nat.succ_le_succ (depthMembers_filter_le _ members)
  | null | bool | number | string | array => exact Nat.le_refl _

theorem value?_array_eq_some {items : List Draft} {value : Json} :
    (Draft.array items).value? = some value ↔
      ∃ values, valueList? items = some values ∧ .array values = value := by
  rw [value?]
  exact Option.map_eq_some_iff

theorem value?_object_eq_some {members : List (Option String × Draft)} {value : Json} :
    (Draft.object members).value? = some value ↔
      ∃ values, valueMembers? members = some values ∧ .object values = value := by
  rw [value?]
  exact Option.map_eq_some_iff

theorem valueMembers?_cons_eq_some {key : Option String} {item : Draft}
    {rest : List (Option String × Draft)} {values : List (String × Json)} :
    valueMembers? ((key, item) :: rest) = some values ↔
      ∃ name value others, key = some name ∧ item.value? = some value ∧
        valueMembers? rest = some others ∧ values = (name, value) :: others := by
  simp only [valueMembers?, bind, Option.bind_eq_some_iff, Option.some.injEq]
  constructor
  · rintro ⟨name, rfl, value, hvalue, others, hothers, rfl⟩
    exact ⟨name, value, others, rfl, hvalue, hothers, rfl⟩
  · rintro ⟨name, value, others, rfl, hvalue, hothers, rfl⟩
    exact ⟨name, rfl, value, hvalue, others, hothers, rfl⟩

theorem valueMembers?_filter {members : List (Option String × Draft)}
    {values : List (String × Json)} (h : valueMembers? members = some values) :
    valueMembers? (members.filter fun m => m.1.all labels.contains) =
      some (values.filter (labels.contains ·.1)) := by
  induction members generalizing values with
  | nil =>
    cases h
    rfl
  | cons m rest ih =>
    obtain ⟨name, value, others, hname, hvalue, hothers, rfl⟩ := valueMembers?_cons_eq_some.mp h
    rw [List.filter_cons, List.filter_cons, hname, Option.all_some]
    split
    · exact valueMembers?_cons_eq_some.mpr ⟨name, value, _, hname, hvalue, ih hothers, rfl⟩
    · exact ih hothers

end Draft

end Json

namespace Legacy

theorem Kind.mem_all (kind : Kind) : kind ∈ Kind.all := by
  cases kind <;> decide

theorem Kind.ofText?_text (kind : Kind) : Kind.ofText? kind.text = some kind := by
  have hall : ∀ kind ∈ Kind.all, Kind.ofText? kind.text = some kind := by decide +kernel
  exact hall kind kind.mem_all

namespace Wire

mutual

/-- The numbers in the tree are words of sixty-four bits. -/
def fits : Wire → Bool
  | .mk _ children position => position.fits && childrenFit children

def childrenFit : List WireChild → Bool
  | [] => true
  | child :: rest => childFits child && childrenFit rest

def childFits : WireChild → Bool
  | .node w => w.fits
  | .count k => decide (k < UInt64.size)
  | .literal l => l.fits
  | _ => true

end

/-! Reading the fields of a node. -/

section

variable {members : List (String × Json)} {items : List Json} {label : String}
  {fields fields' : List (String × FieldReading)}

def reading (value : Json) : FieldReading := (value, childrenOfJson? value)

theorem readMembers_eq_map (members : List (String × Json)) :
    readMembers members = members.map fun m => (m.1, reading m.2) := by
  induction members with
  | nil => rw [readMembers, List.map_nil]
  | cons m rest ih => rw [readMembers, ih, List.map_cons, reading]

theorem readItems_eq_map (items : List Json) :
    readItems items = items.map reading := by
  induction items with
  | nil => rw [readItems, List.map_nil]
  | cons item rest ih => rw [readItems, ih, List.map_cons, reading]

theorem single?_perm (h : fields.Perm fields') (label : String) :
    single? fields label = single? fields' label := by
  have hfilter := h.filter (·.1 == label)
  unfold single?
  split
  · next heq => rw [heq, List.nil_perm] at hfilter; rw [hfilter]
  · next heq => rw [heq, List.singleton_perm] at hfilter; rw [← hfilter]
  · next hnil hone =>
    split
    · next heq => rw [heq, List.perm_nil] at hfilter; exact absurd hfilter hnil
    · next heq => rw [heq, List.perm_singleton] at hfilter; exact absurd hfilter (hone _ _)
    · rfl

theorem single?_filter (h : label ∈ labels) :
    single? (fields.filter (labels.contains ·.1)) label = single? fields label := by
  have hfilter : (fields.filter (labels.contains ·.1)).filter (·.1 == label) =
      fields.filter (·.1 == label) := by
    rw [List.filter_filter]
    refine List.filter_congr fun field _ => ?_
    by_cases heq : field.1 = label
    · simp [heq, h]
    · simp [heq]
  rw [single?, hfilter, single?]

theorem ofFields?_congr (h : ∀ label ∈ labels, single? fields label = single? fields' label) :
    ofFields? fields = ofFields? fields' := by
  simp only [labels, List.forall_mem_cons] at h
  simp [ofFields?, labels, h]

theorem countP_of_single? {found : Option FieldReading} (h : single? fields label = some found) :
    fields.countP (·.1 == label) = if found.isSome then 1 else 0 := by
  rw [List.countP_eq_length_filter]
  unfold single? at h
  split at h
  · next heq => cases h; rw [heq]; rfl
  · next heq => cases h; rw [heq]; rfl
  · cases h

theorem eq_of_single? {found : Option FieldReading} {given : FieldReading}
    (h : single? fields label = some found) (hmem : (label, given) ∈ fields) :
    found = some given := by
  have hfilter : (label, given) ∈ fields.filter (·.1 == label) := by simp [hmem]
  unfold single? at h
  split at h
  · next heq => rw [heq] at hfilter; cases hfilter
  · next heq =>
    rw [heq, List.mem_singleton] at hfilter
    cases h
    cases hfilter
    rfl
  · cases h

theorem assemble?_eq_some {readings : List (Option FieldReading)} {w : Wire}
    (h : assemble? readings = some w) :
    ∃ kind children firstLine firstColumn lastLine lastColumn,
      readings = [some kind, children, some firstLine, some firstColumn, some lastLine,
        some lastColumn] ∧
      ∀ given, children = some given → given.2.isSome = true := by
  unfold assemble? at h
  split at h
  · next kind text children _ _ _ _ _ _ _ _ =>
    refine ⟨_, _, _, _, _, _, rfl, ?_⟩
    rintro ⟨value, _ | children⟩ rfl
    · simp at h
    · rfl
  · cases h

theorem single?_of_ofFields? {w : Wire} (h : ofFields? fields = some w) (hlabel : label ∈ labels) :
    ∃ found, single? fields label = some found ∧
      (label ≠ "children" → found.isSome = true) ∧
      (label = "children" → ∀ given, found = some given → given.2.isSome = true) := by
  obtain ⟨readings, hreadings, h⟩ := Option.bind_eq_some_iff.mp h
  obtain ⟨kind, children, firstLine, firstColumn, lastLine, lastColumn, rfl, hchildren⟩ :=
    assemble?_eq_some h
  have hsingle : single? fields "type" = some (some kind) ∧
      single? fields "children" = some children ∧
      single? fields "first_lineno" = some (some firstLine) ∧
      single? fields "first_column" = some (some firstColumn) ∧
      single? fields "last_lineno" = some (some lastLine) ∧
      single? fields "last_column" = some (some lastColumn) := by
    simpa [labels, Option.bind_eq_some_iff] using hreadings
  simp only [labels, List.mem_cons, List.not_mem_nil, or_false] at hlabel
  obtain rfl | rfl | rfl | rfl | rfl | rfl := hlabel
  · exact ⟨_, hsingle.1, by simp, by simp⟩
  · exact ⟨_, hsingle.2.1, by simp, fun _ => hchildren⟩
  · exact ⟨_, hsingle.2.2.1, by simp, by simp⟩
  · exact ⟨_, hsingle.2.2.2.1, by simp, by simp⟩
  · exact ⟨_, hsingle.2.2.2.2.1, by simp, by simp⟩
  · exact ⟨_, hsingle.2.2.2.2.2, by simp, by simp⟩

theorem countP_of_ofFields? {w : Wire} (h : ofFields? fields = some w) (hlabel : label ∈ labels) :
    fields.countP (·.1 == label) ≤ 1 ∧
      (label ≠ "children" → fields.countP (·.1 == label) = 1) := by
  obtain ⟨found, hfound, hgiven, -⟩ := single?_of_ofFields? h hlabel
  rw [countP_of_single? hfound]
  constructor
  · split <;> omega
  · intro hne
    rw [if_pos (hgiven hne)]

theorem children_of_ofFields? {w : Wire} (h : ofFields? fields = some w) {given : FieldReading}
    (hmem : ("children", given) ∈ fields) : given.2.isSome = true := by
  obtain ⟨found, hfound, -, hchildren⟩ :=
    single?_of_ofFields? h (by decide : "children" ∈ labels)
  exact hchildren rfl given (eq_of_single? hfound hmem)

/-- No object with one member is a node. -/
theorem ofFields?_singleton (field : String × FieldReading) : ofFields? [field] = none := by
  refine Option.eq_none_iff_forall_ne_some.mpr fun w h => ?_
  have hkind := (countP_of_ofFields? h (by decide : "type" ∈ labels)).2 (by decide)
  have hline := (countP_of_ofFields? h (by decide : "first_lineno" ∈ labels)).2 (by decide)
  -- the one member cannot have both names
  simp only [List.countP_singleton] at hkind hline
  grind

end

/-! The forms of a tree. -/

def known (members : List (String × Json)) : List (String × Json) :=
  members.filter (labels.contains ·.1)

def positionFields (p : Position) : List (String × Json) :=
  [("first_lineno", .ofNat p.firstLine), ("first_column", .ofNat p.firstColumn),
    ("last_lineno", .ofNat p.lastLine), ("last_column", .ofNat p.lastColumn)]

def allFields (kind : Kind) (items : List Json) (p : Position) : List (String × Json) :=
  ("type", .string kind.text) :: ("children", .array items) :: positionFields p

def isNode : WireChild → Bool
  | .node _ => true
  | _ => false

mutual

/-- The value is a way to write the tree. Each node in it has a form of its own. -/
inductive Written : Wire → Json → Prop where
  | object {kind : Kind} {children : List WireChild} {position : Position} {items : List Json}
      {members : List (String × Json)}
      (hknown : (known members).Perm (allFields kind items position))
      (hchildren : ChildrenWritten children items) :
      Written (.mk kind children position) (.object members)
  | childless {kind : Kind} {position : Position} {members : List (String × Json)}
      (hknown : (known members).Perm (("type", .string kind.text) :: positionFields position)) :
      Written (.mk kind [] position) (.object members)
  | array {kind : Kind} {children : List WireChild} {position : Position} {items : List Json}
      (hchildren : ChildrenWritten children items) :
      Written (.mk kind children position) (.array ((allFields kind items position).map (·.2)))

inductive ChildrenWritten : List WireChild → List Json → Prop where
  | nil : ChildrenWritten [] []
  | cons {child : WireChild} {rest : List WireChild} {value : Json} {values : List Json}
      (hchild : ChildWritten child value) (hrest : ChildrenWritten rest values) :
      ChildrenWritten (child :: rest) (value :: values)

/-- Only nodes can be written in several ways. -/
inductive ChildWritten : WireChild → Json → Prop where
  | node {w : Wire} {value : Json} (h : Written w value) : ChildWritten (.node w) value
  | other {child : WireChild} (h : isNode child = false) : ChildWritten child (childToJson child)

end

mutual

theorem written_toJson (w : Wire) : w.Written w.toJson := by
  obtain ⟨kind, children, position⟩ := w
  rw [toJson]
  exact .object (.refl _) (childrenWritten_childrenToJson children)

theorem childrenWritten_childrenToJson (children : List WireChild) :
    ChildrenWritten children (childrenToJson children) := by
  match children with
  | [] => rw [childrenToJson]; exact .nil
  | child :: rest =>
    rw [childrenToJson]
    exact .cons (childWritten_childToJson child) (childrenWritten_childrenToJson rest)

theorem childWritten_childToJson (child : WireChild) : ChildWritten child (childToJson child) := by
  match child with
  | .node w => rw [childToJson]; exact .node (written_toJson w)
  | .nil | .flag _ | .name _ | .marker _ | .table _ | .count _ | .literal _ => exact .other rfl

end

section

variable {kind : Kind} {children : List WireChild} {position : Position} {items : List Json}
  {members members' : List (String × Json)}

theorem readMembers_known (members : List (String × Json)) :
    readMembers (known members) = (readMembers members).filter (labels.contains ·.1) := by
  rw [readMembers_eq_map, readMembers_eq_map, List.filter_map]
  rfl

theorem ofFields?_of_perm (h : (known members).Perm members') :
    ofFields? (readMembers members) = ofFields? (readMembers members') := by
  refine ofFields?_congr fun label hlabel => ?_
  have hperm : (readMembers (known members)).Perm (readMembers members') := by
    rw [readMembers_eq_map, readMembers_eq_map]
    exact h.map _
  rw [← single?_filter hlabel, ← readMembers_known, single?_perm hperm]

theorem assemble?_fields {given : Option FieldReading} (hposition : position.fits = true)
    (hchildren : given = none ∧ children = [] ∨ ∃ value, given = some (value, some children)) :
    assemble? [some (reading (.string kind.text)), given,
      some (reading (.ofNat position.firstLine)), some (reading (.ofNat position.firstColumn)),
      some (reading (.ofNat position.lastLine)), some (reading (.ofNat position.lastColumn))] =
      some (.mk kind children position) := by
  simp only [Position.fits, List.all_cons, List.all_nil, Bool.and_true, Bool.and_eq_true,
    decide_eq_true_eq] at hposition
  obtain ⟨h₁, h₂, h₃, h₄⟩ := hposition
  obtain ⟨rfl, rfl⟩ | ⟨value, rfl⟩ := hchildren
  · simp [assemble?, reading, Json.string?, Kind.ofText?_text, Json.nat64?_ofNat, h₁, h₂, h₃, h₄]
  · simp [assemble?, reading, Json.string?, Kind.ofText?_text, Json.nat64?_ofNat, h₁, h₂, h₃, h₄]

theorem reading_array (h : childListOfJson? items = some children) :
    reading (.array items) = (.array items, some children) := by
  rw [reading, childrenOfJson?, h]

theorem ofFields?_allFields (hposition : position.fits = true)
    (hchildren : childListOfJson? items = some children) :
    ofFields? (readMembers (allFields kind items position)) =
      some (.mk kind children position) := by
  rw [readMembers_eq_map]
  exact assemble?_fields hposition (.inr ⟨_, congrArg some (reading_array hchildren)⟩)

theorem ofFields?_childless (hposition : position.fits = true) :
    ofFields? (readMembers (("type", .string kind.text) :: positionFields position)) =
      some (.mk kind [] position) := by
  rw [readMembers_eq_map]
  exact assemble?_fields hposition (.inl ⟨rfl, rfl⟩)

theorem ofReadings?_allFields (hposition : position.fits = true)
    (hchildren : childListOfJson? items = some children) :
    ofReadings? (readItems ((allFields kind items position).map (·.2))) =
      some (.mk kind children position) := by
  rw [readItems_eq_map]
  exact assemble?_fields hposition (.inr ⟨_, congrArg some (reading_array hchildren)⟩)

end

/-! A tree is read back from each of its forms. -/

theorem childOfJson?_singleton (m : String × Json) :
    childOfJson? (.object [m]) = atomOfJson? (.object [m]) := by
  rw [childOfJson?, readMembers_eq_map, List.map_singleton, ofFields?_singleton]

theorem atomOfJson?_literal {l : Literal} (h : l.fits = true) :
    atomOfJson? l.toJson = some (.literal l) := by
  have hread := Literal.ofJson?_toJson h
  obtain ⟨key, value, heq, hkey⟩ := l.toJson_eq_object
  rw [heq] at hread ⊢
  simp only [List.mem_cons, List.not_mem_nil, or_false, not_or] at hkey
  simp [atomOfJson?, hkey, hread]

theorem tableOfJson?_array (table : Table) :
    tableOfJson? (.array (table.map (Json.ofOption fun s => .string s.text))) = some table := by
  rw [tableOfJson?]
  induction table with
  | nil => rfl
  | cons entry rest ih =>
    cases entry with
    | none => simp [Json.ofOption, entryOfJson?, ih]
    | some name => simp [Json.ofOption, entryOfJson?, ih]

theorem childOfJson?_childToJson {child : WireChild} (hnode : isNode child = false)
    (hfits : childFits child = true) : childOfJson? (childToJson child) = some child := by
  cases child with
  | node w => cases hnode
  | nil => rw [childToJson, childOfJson?]
  | flag b => rw [childToJson, childOfJson?]
  | name s => rw [childToJson, childOfJson?_singleton]; rfl
  | marker s => rw [childToJson, childOfJson?_singleton]; rfl
  | table table =>
    rw [childToJson, childOfJson?_singleton]
    simp [atomOfJson?, tableOfJson?_array]
  | count k =>
    rw [childFits, decide_eq_true_eq] at hfits
    rw [childToJson, childOfJson?_singleton]
    simp [atomOfJson?, Json.nat64?_ofNat hfits]
  | literal l =>
    rw [childFits] at hfits
    have hread := atomOfJson?_literal hfits
    obtain ⟨key, value, heq, -⟩ := l.toJson_eq_object
    rw [heq] at hread
    rw [childToJson, heq, childOfJson?_singleton, hread]

theorem childOfJson?_of_ofJson? {w : Wire} {value : Json} (h : ofJson? value = some w) :
    childOfJson? value = some (.node w) := by
  cases value with
  | object members =>
    rw [ofJson?] at h
    rw [childOfJson?, h]
  | array items =>
    rw [ofJson?] at h
    rw [childOfJson?, h, Option.map_some]
  | null | bool | number | string => simp [ofJson?] at h

mutual

theorem ofJson?_of_written {w : Wire} {value : Json} (hwritten : w.Written value)
    (hfits : w.fits = true) : ofJson? value = some w := by
  match hwritten with
  | .object hknown hchildren =>
    rw [fits, Bool.and_eq_true] at hfits
    rw [ofJson?, ofFields?_of_perm hknown,
      ofFields?_allFields hfits.1 (childListOfJson?_of_written hchildren hfits.2)]
  | .childless hknown =>
    rw [fits, Bool.and_eq_true] at hfits
    rw [ofJson?, ofFields?_of_perm hknown, ofFields?_childless hfits.1]
  | .array hchildren =>
    rw [fits, Bool.and_eq_true] at hfits
    rw [ofJson?, ofReadings?_allFields hfits.1 (childListOfJson?_of_written hchildren hfits.2)]

theorem childListOfJson?_of_written {children : List WireChild} {items : List Json}
    (hwritten : ChildrenWritten children items) (hfits : childrenFit children = true) :
    childListOfJson? items = some children := by
  match hwritten with
  | .nil => rw [childListOfJson?]
  | .cons hchild hrest =>
    rw [childrenFit, Bool.and_eq_true] at hfits
    rw [childListOfJson?, childOfJson?_of_written hchild hfits.1,
      childListOfJson?_of_written hrest hfits.2]
    rfl

theorem childOfJson?_of_written {child : WireChild} {value : Json}
    (hwritten : ChildWritten child value) (hfits : childFits child = true) :
    childOfJson? value = some child := by
  match hwritten with
  | .node h =>
    rw [childFits] at hfits
    exact childOfJson?_of_ofJson? (ofJson?_of_written h hfits)
  | .other hnode => exact childOfJson?_childToJson hnode hfits

end

end Wire

namespace Node

variable {text : String} {value : Json}

/-- It is no matter whether unknown members are passed over or read. -/
theorem ofDraft_eq_ofJson {draft : Json.Draft} (h : draft.boundedValue? = some value) :
    ofDraft draft = ofJson value := by
  cases draft with
  | object members =>
    obtain ⟨hdepth, hvalue⟩ := Json.Draft.boundedValue?_eq_some_iff.mp h
    obtain ⟨values, hvalues, rfl⟩ := Json.Draft.value?_object_eq_some.mp hvalue
    have hkept : ((Json.Draft.object members).keepMembers Wire.labels).boundedValue? =
        some (.object (Wire.known values)) := by
      refine Json.Draft.boundedValue?_eq_some_iff.mpr ⟨?_, ?_⟩
      · exact Nat.le_trans (Json.Draft.depth_keepMembers_le _) hdepth
      · exact Json.Draft.value?_object_eq_some.mpr
          ⟨_, Json.Draft.valueMembers?_filter hvalues, rfl⟩
    have hread : Wire.ofJson? (.object (Wire.known values)) = Wire.ofJson? (.object values) := by
      rw [Wire.ofJson?, Wire.ofJson?, ← Wire.ofFields?_of_perm (.refl _)]
    simp only [ofDraft, hkept, ofJson, hread]
  | null | bool | number | string | array => simp only [ofDraft, Json.Draft.keepMembers, h]

theorem ofText_eq_ofDraft {draft : Json.Draft} (h : Json.Draft.ofText? text = some draft) :
    ofText text = ofDraft draft := by
  rw [Json.Draft.ofText?] at h
  rw [ofText, ofBytes, h]

theorem ofText_of_written {w : Wire} (htext : Json.ofText? text = some value)
    (hwritten : w.Written value) (hfits : w.fits = true) : ofText text = w.toNode := by
  obtain ⟨draft, hdraft, hvalue⟩ := Option.bind_eq_some_iff.mp htext
  rw [ofText_eq_ofDraft hdraft, ofDraft_eq_ofJson hvalue, ofJson,
    Wire.ofJson?_of_written hwritten hfits]

end Node

end Legacy

end RubyTree
