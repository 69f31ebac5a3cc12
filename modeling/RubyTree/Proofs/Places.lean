import RubyTree.Proofs.Similarity

/-! The places of a tree. A place is reached from the root by the names of fields and the indices of
lists, and has a mark: what can be told of it without going further. The outline of a tree lists its
places in the order in which they are visited: a node by its kind, its location, its fields in the
order of their declaration, and the items of a list one after the other. -/

namespace RubyTree

open Json (Step)

namespace Json

namespace Step

def suffix : Step → String
  | .field name => "." ++ name
  | .index i => "[" ++ Nat.repr i ++ "]"

/-- A place in words: the names of fields with points between them, and indices in brackets. -/
def placeText : List Step → String
  | [] => "(root)"
  | .field name :: rest => name ++ String.join (rest.map suffix)
  | .index i :: rest => "[" ++ Nat.repr i ++ "]" ++ String.join (rest.map suffix)

theorem extend_eq_append {path : String} (h : path ≠ "") (step : Step) :
    step.extend path = path ++ step.suffix := by
  cases step with
  | field name => rw [extend, if_neg h, suffix, String.append_assoc]
  | index i => simp only [extend, suffix, String.append_assoc]

theorem append_ne_empty {s : String} (h : s ≠ "") (t : String) : s ++ t ≠ "" := by
  intro he
  exact h (String.append_eq_empty_iff.mp he).1

theorem foldl_extend {path : String} (h : path ≠ "") (steps : List Step) :
    steps.foldl extend path = path ++ String.join (steps.map suffix) := by
  induction steps generalizing path with
  | nil => simp
  | cons step steps ih =>
    rw [List.foldl_cons, extend_eq_append h, ih (append_ne_empty h _), List.map_cons,
      String.join_cons, String.append_assoc]

end Step

theorem Mismatch.pathText_eq_placeText {m : Mismatch}
    (h : m.path = [] ∨ ∃ label rest, m.path = .field label :: rest ∧ label ≠ "") :
    m.pathText = Step.placeText m.path := by
  rcases h with h | ⟨label, rest, h, hlabel⟩
  · rw [pathText, h]
    rfl
  · have htext : m.path.foldl Step.extend "" = label ++ String.join (rest.map Step.suffix) := by
      rw [h, List.foldl_cons, ← Step.foldl_extend hlabel]
      rfl
    have hne : label ++ String.join (rest.map Step.suffix) ≠ "" := Step.append_ne_empty hlabel _
    rw [pathText, htext, h, Step.placeText]
    exact if_neg hne

end Json

namespace Canonical

/-- What is at a place, apart from the places below it. -/
inductive Mark where
  | variant (kind : Kind)
  | span (value : Span)
  | absent
  | length (count : Nat)
  | text (value : String)
  | number (value : Int)
  | float (value : Double)

namespace Mark

/-- Equal marks; a null span matches any other one, and floats are equal as numbers. -/
inductive Alike : Mark → Mark → Prop where
  | same (m : Mark) : Alike m m
  | span {s t : Span} (h : s.Matches t) : Alike (.span s) (.span t)
  | float {x y : Double} (h : x.Equal y) : Alike (.float x) (.float y)

@[simp] theorem alike_span_iff {s t : Span} : (span s).Alike (span t) ↔ s.Matches t := by
  constructor
  · intro h
    cases h with
    | same => exact .inl rfl
    | span h => exact h
  · exact .span

def isExact : Mark → Bool
  | .span _ => false
  | .float _ => false
  | _ => true

def isFinite : Mark → Bool
  | .float x => x.isFinite
  | _ => true

theorem alike_iff_eq {m n : Mark} (h : m.isExact = true) : m.Alike n ↔ m = n := by
  constructor
  · intro halike
    cases halike with
    | same => rfl
    | span => cases h
    | float => cases h
  · rintro rfl
    exact .same _

theorem alike_float_iff {x y : Double} (hx : x.isFinite = true) :
    (float x).Alike (float y) ↔ x.Equal y := by
  constructor
  · intro h
    cases h with
    | same => exact ⟨_, Double.value?_eq_some hx, Double.value?_eq_some hx⟩
    | float h => exact h
  · exact .float

end Mark

/-- The places of a tree or of a part of it, in the order in which they are visited. -/
abbrev Outline := List (List Step × Mark)

namespace Outline

def below (step : Step) (o : Outline) : Outline := o.map fun entry => (step :: entry.1, entry.2)

def items (i : Nat) : List Outline → Outline
  | [] => []
  | o :: os => below (.index i) o ++ items (i + 1) os

def ofName (n : Name) : Outline := [([], .text n.text)]

theorem mem_below {step : Step} {o : Outline} {path : List Step} {mark : Mark}
    (h : (path, mark) ∈ below step o) : ∃ rest, path = step :: rest ∧ (rest, mark) ∈ o := by
  obtain ⟨⟨rest, m⟩, hmem, heq⟩ := List.mem_map.mp h
  rw [Prod.mk.injEq] at heq
  obtain ⟨rfl, rfl⟩ := heq
  exact ⟨rest, rfl, hmem⟩

/-- There is no infinity and no NaN at any of the places. -/
def Finite (o : Outline) : Prop := ∀ entry ∈ o, entry.2.isFinite = true

instance (o : Outline) : Decidable o.Finite :=
  inferInstanceAs (Decidable (∀ entry ∈ o, entry.2.isFinite = true))

theorem Finite.of_cons {entry : List Step × Mark} {o : Outline}
    (h : Outline.Finite (entry :: o)) : o.Finite :=
  (List.forall_mem_cons.mp h).2

theorem finite_append {o o' : Outline} : Outline.Finite (o ++ o') ↔ o.Finite ∧ o'.Finite :=
  List.forall_mem_append

theorem finite_below {step : Step} {o : Outline} : (below step o).Finite ↔ o.Finite :=
  List.forall_mem_map

end Outline

def Value.mark : {sort : FieldSort} → Value sort → Mark
  | _, .span s => .span s
  | _, .name n => .text n.text
  | _, .optName none => .absent
  | _, .optName (some n) => .text n.text
  | _, .names ns => .length ns.length
  | _, .flags f => .number (Int.ofNat f.toNat)
  | _, .nat n => .number (Int.ofNat n)
  | _, .int i => .number i
  | _, .float x => .float x
  | _, .text s => .text s
  | _, .tree t => .variant t.kind
  | _, .optTree none => .absent
  | _, .optTree (some t) => .variant t.kind
  | _, .trees ts => .length ts.length

mutual

def Tree.parts : Tree → Outline
  | .mk _ fields location => ([.field "location"], .span location) :: Fields.parts fields

def Fields.parts : {fields : List Field} → Fields fields → Outline
  | _, .nil => []
  | field :: _, .cons value values =>
    Outline.below (.field field.label) (([], value.mark) :: Value.parts value) ++
      Fields.parts values

def Value.parts : {sort : FieldSort} → Value sort → Outline
  | _, .names ns => Outline.items 0 (ns.map Outline.ofName)
  | _, .tree t => Tree.parts t
  | _, .optTree (some t) => Tree.parts t
  | _, .trees ts => Outline.items 0 (Tree.outlines ts)
  | _, _ => []

def Tree.outlines : List Tree → List Outline
  | [] => []
  | t :: ts => (([], .variant t.kind) :: Tree.parts t) :: Tree.outlines ts

end

def Tree.outline (t : Tree) : Outline := ([], .variant t.kind) :: t.parts

def Tree.Finite (t : Tree) : Prop := t.outline.Finite

instance (t : Tree) : Decidable t.Finite := inferInstanceAs (Decidable t.outline.Finite)

mutual

/-- The mark of the place that the steps lead to, if they lead anywhere. -/
def Tree.mark? : Tree → List Step → Option Mark
  | .mk kind _ _, [] => some (.variant kind)
  | .mk _ fields location, .field label :: rest =>
    if label = "location" then (if rest.isEmpty then some (.span location) else none)
    else Fields.mark? fields label rest
  | .mk _ _ _, .index _ :: _ => none

def Fields.mark? : {fields : List Field} → Fields fields → String → List Step → Option Mark
  | _, .nil, _, _ => none
  | field :: _, .cons value values, label, rest =>
    if field.label = label then Value.mark? value rest else Fields.mark? values label rest

def Value.mark? : {sort : FieldSort} → Value sort → List Step → Option Mark
  | _, .tree t, path => Tree.mark? t path
  | _, .optTree (some t), path => Tree.mark? t path
  | _, value, [] => some value.mark
  | _, .names ns, [.index i] => ns[i]?.map fun n => .text n.text
  | _, .trees ts, .index i :: rest => Tree.itemMark? ts i rest
  | _, _, _ => none

def Tree.itemMark? : List Tree → Nat → List Step → Option Mark
  | [], _, _ => none
  | t :: _, 0, rest => Tree.mark? t rest
  | _ :: ts, i + 1, rest => Tree.itemMark? ts i rest

end

theorem Kind.label_ne_empty (kind : Kind) : "" ∉ kind.fields.map (·.label) := by
  cases kind <;> decide

theorem Kind.location_not_mem_labels (kind : Kind) :
    "location" ∉ kind.fields.map (·.label) := by
  cases kind <;> decide

theorem Tree.mark?_nil (t : Tree) : t.mark? [] = some (.variant t.kind) := by
  cases t
  rfl

theorem Value.mark?_nil {sort : FieldSort} (v : Value sort) : v.mark? [] = some v.mark := by
  cases v with
  | tree t => exact t.mark?_nil
  | optTree t =>
    cases t with
    | none => rfl
    | some t => exact t.mark?_nil
  | _ => rfl

theorem Outline.mem_items_names {ns : List Name} {i : Nat} {path : List Step} {mark : Mark}
    (h : (path, mark) ∈ Outline.items i (ns.map ofName)) :
    ∃ j, path = [.index (i + j)] ∧ (ns[j]?.map fun n => Mark.text n.text) = some mark := by
  induction ns generalizing i with
  | nil => cases h
  | cons n ns ih =>
    rw [List.map_cons, Outline.items, List.mem_append] at h
    rcases h with h | h
    · obtain ⟨rest, rfl, hmem⟩ := mem_below h
      rw [ofName, List.mem_singleton, Prod.mk.injEq] at hmem
      obtain ⟨rfl, rfl⟩ := hmem
      exact ⟨0, rfl, rfl⟩
    · obtain ⟨j, rfl, hmark⟩ := ih h
      exact ⟨j + 1, by rw [Nat.add_right_comm]; rfl, hmark⟩

mutual

theorem Tree.mem_parts (t : Tree) {path : List Step} {mark : Mark} (h : (path, mark) ∈ t.parts) :
    ∃ label rest, path = .field label :: rest ∧ label ≠ "" ∧ t.mark? path = some mark := by
  match t with
  | .mk kind fields location =>
    rw [Tree.parts, List.mem_cons] at h
    rcases h with h | h
    · rw [Prod.mk.injEq] at h
      obtain ⟨rfl, rfl⟩ := h
      exact ⟨"location", [], rfl, by decide, rfl⟩
    · obtain ⟨label, rest, rfl, hlabel, hmark⟩ := Fields.mem_parts fields kind.labels_nodup h
      have hlocation : label ≠ "location" := by
        rintro rfl
        exact kind.location_not_mem_labels hlabel
      refine ⟨label, rest, rfl, ?_, ?_⟩
      · rintro rfl
        exact kind.label_ne_empty hlabel
      · rw [Tree.mark?, if_neg hlocation, hmark]
termination_by structural t

theorem Fields.mem_parts {fields : List Field} (fs : Fields fields)
    (hnodup : (fields.map (·.label)).Nodup) {path : List Step} {mark : Mark}
    (h : (path, mark) ∈ fs.parts) :
    ∃ label rest, path = .field label :: rest ∧ label ∈ fields.map (·.label) ∧
      fs.mark? label rest = some mark := by
  match fields, fs with
  | _, .nil => cases h
  | field :: others, .cons value values =>
    rw [List.map_cons, List.nodup_cons] at hnodup
    rw [Fields.parts, List.mem_append] at h
    rcases h with h | h
    · obtain ⟨rest, rfl, hmem⟩ := Outline.mem_below h
      refine ⟨field.label, rest, rfl, List.mem_cons_self, ?_⟩
      rw [Fields.mark?, if_pos rfl]
      rw [List.mem_cons, Prod.mk.injEq] at hmem
      rcases hmem with ⟨rfl, rfl⟩ | hmem
      · exact Value.mark?_nil value
      · exact Value.mem_parts value hmem
    · obtain ⟨label, rest, rfl, hlabel, hmark⟩ := Fields.mem_parts values hnodup.2 h
      have hne : field.label ≠ label := fun heq => hnodup.1 (heq ▸ hlabel)
      refine ⟨label, rest, rfl, List.mem_cons_of_mem _ hlabel, ?_⟩
      rw [Fields.mark?, if_neg hne, hmark]
termination_by structural fs

theorem Value.mem_parts {sort : FieldSort} (v : Value sort) {path : List Step} {mark : Mark}
    (h : (path, mark) ∈ v.parts) : v.mark? path = some mark := by
  match sort, v with
  | _, .names ns =>
    obtain ⟨j, rfl, hmark⟩ := Outline.mem_items_names h
    rw [Nat.zero_add, Value.mark?, hmark]
  | _, .tree t =>
    obtain ⟨label, rest, rfl, -, hmark⟩ := Tree.mem_parts t h
    rw [Value.mark?, hmark]
  | _, .optTree none => cases h
  | _, .optTree (some t) =>
    obtain ⟨label, rest, rfl, -, hmark⟩ := Tree.mem_parts t h
    rw [Value.mark?, hmark]
  | _, .trees ts =>
    obtain ⟨j, rest, rfl, hmark⟩ := Tree.mem_items ts 0 h
    rw [Nat.zero_add, Value.mark?, hmark]
  | _, .span _ | _, .name _ | _, .optName _ | _, .flags _ | _, .nat _ | _, .int _ | _, .float _
  | _, .text _ => cases h
termination_by structural v

theorem Tree.mem_items (ts : List Tree) (i : Nat) {path : List Step} {mark : Mark}
    (h : (path, mark) ∈ Outline.items i (Tree.outlines ts)) :
    ∃ j rest, path = .index (i + j) :: rest ∧ Tree.itemMark? ts j rest = some mark := by
  match ts with
  | [] => cases h
  | t :: ts =>
    rw [Tree.outlines, Outline.items, List.mem_append] at h
    rcases h with h | h
    · obtain ⟨rest, rfl, hmem⟩ := Outline.mem_below h
      refine ⟨0, rest, rfl, ?_⟩
      rw [Tree.itemMark?]
      rw [List.mem_cons, Prod.mk.injEq] at hmem
      rcases hmem with ⟨rfl, rfl⟩ | hmem
      · exact Tree.mark?_nil t
      · obtain ⟨_, _, _, _, hmark⟩ := Tree.mem_parts t hmem
        exact hmark
    · obtain ⟨j, rest, rfl, hmark⟩ := Tree.mem_items ts (i + 1) h
      refine ⟨j + 1, rest, ?_, hmark⟩
      rw [Nat.add_assoc, Nat.add_comm 1 j]
termination_by structural ts

end

theorem Tree.mark?_of_mem_outline {t : Tree} {path : List Step} {mark : Mark}
    (h : (path, mark) ∈ t.outline) :
    t.mark? path = some mark ∧
      (path = [] ∨ ∃ label rest, path = .field label :: rest ∧ label ≠ "") := by
  rw [Tree.outline, List.mem_cons, Prod.mk.injEq] at h
  rcases h with ⟨rfl, rfl⟩ | h
  · exact ⟨t.mark?_nil, .inl rfl⟩
  · obtain ⟨label, rest, hpath, hlabel, hmark⟩ := t.mem_parts h
    exact ⟨hmark, .inr ⟨label, rest, hpath, hlabel⟩⟩

end Canonical

end RubyTree
