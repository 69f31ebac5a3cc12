import RubyTree.Json.Text
import RubyTree.Span

/-! The first difference between two trees given as JSON. Spans and nodes are recognised by their
members, so that a tree of another tool compares like one of our own. A null span on either side
agrees with any span. -/

namespace RubyTree

namespace Json

inductive Step where
  | field (name : String)
  | index (i : Nat)
deriving DecidableEq

inductive Detail where
  | spans (expected actual : Span)
  | kinds (expected actual : String)
  | missingField
  | unexpectedField
  | lengths (expected actual : Nat)
  | values (expected actual : Json)

structure Mismatch where
  path : List Step
  detail : Detail

/-- The span that an object with exactly the members of a span stands for. -/
def span? : Json → Option Span
  | .object members =>
    if members.length = 2 then do
      let start ← member? members "start"
      let length ← member? members "length"
      some ⟨← start.nat64?, ← length.nat64?⟩
    else none
  | _ => none

/-- The kind and location of an object with exactly the members of a node. -/
def node? : Json → Option (Json × Json)
  | .object members =>
    if members.length = 2 then do
      let kind ← member? members "kind"
      let location ← member? members "location"
      some (kind, location)
    else none
  | _ => none

/-- The name of a kind, and its fields if it has any. -/
def kindParts : Json → String × Option Json
  | .string name => (name, none)
  | .object [(name, fields)] => (name, some fields)
  | _ => ("?", none)

/-- A node is described by its kind, anything else by its text. -/
def describe (value : Json) : String :=
  match value.node? with
  | some (kind, _) => (kindParts kind).1 ++ "Node"
  | none => value.text

def Detail.text : Detail → String
  | .spans e a => "expected span " ++ e.text ++ ", found " ++ a.text
  | .kinds e a => "expected " ++ e ++ "Node, found " ++ a ++ "Node"
  | .missingField => "missing field"
  | .unexpectedField => "unexpected field"
  | .lengths e a => "expected " ++ Nat.repr e ++ " elements, found " ++ Nat.repr a
  | .values e a => "expected " ++ e.describe ++ ", found " ++ a.describe

namespace Step

/-- The text of a path that goes one step further. -/
def extend (path : String) : Step → String
  | .field name => if path = "" then name else path ++ "." ++ name
  | .index i => path ++ "[" ++ Nat.repr i ++ "]"

end Step

namespace Mismatch

def here (detail : Detail) : Mismatch := ⟨[], detail⟩

def under (step : Step) (m : Mismatch) : Mismatch := ⟨step :: m.path, m.detail⟩

def pathText (m : Mismatch) : String :=
  let text := m.path.foldl Step.extend ""
  if text = "" then "(root)" else text

def text (m : Mismatch) : String := m.pathText ++ ": " ++ m.detail.text

end Mismatch

/-- Equality of values that have no parts. -/
def sameScalar : Json → Json → Bool
  | .null, .null => true
  | .bool a, .bool b => a == b
  | .number (.int a), .number (.int b) => a == b
  | .number (.float a), .number (.float b) => a.sameNumber b
  | .string a, .string b => a == b
  | _, _ => false

theorem sizeOf_lt_of_member? {members : List (String × Json)} {key : String} {value : Json}
    (h : member? members key = some value) : sizeOf value < sizeOf members := by
  obtain ⟨⟨k, v⟩, hfind, rfl⟩ := Option.map_eq_some_iff.mp h
  have := List.sizeOf_lt_of_mem (List.mem_of_find?_eq_some hfind)
  simp only [Prod.mk.sizeOf_spec] at this ⊢
  omega

theorem sizeOf_lt_of_node? {value kind location : Json} (h : value.node? = some (kind, location)) :
    sizeOf kind < sizeOf value ∧ sizeOf location < sizeOf value := by
  cases value with
  | object members =>
    simp only [node?] at h
    split at h
    · cases hk : member? members "kind" with
      | none => simp [hk] at h
      | some k =>
        cases hl : member? members "location" with
        | none => simp [hk, hl] at h
        | some l =>
          simp only [hk, hl, Option.bind_eq_bind, Option.bind_some, Option.some.injEq,
            Prod.mk.injEq] at h
          obtain ⟨rfl, rfl⟩ := h
          have := sizeOf_lt_of_member? hk
          have := sizeOf_lt_of_member? hl
          simp only [object.sizeOf_spec]
          omega
    · simp at h
  | _ => simp [node?] at h

theorem sizeOf_lt_of_kindParts {kind fields : Json} {name : String}
    (h : kind.kindParts = (name, some fields)) : sizeOf fields < sizeOf kind := by
  unfold kindParts at h
  split at h
  · simp at h
  · simp only [Prod.mk.injEq, Option.some.injEq] at h
    obtain ⟨rfl, rfl⟩ := h
    simp only [object.sizeOf_spec, List.cons.sizeOf_spec, Prod.mk.sizeOf_spec]
    omega
  · simp at h

set_option linter.unusedVariables false in
mutual

def difference (expected actual : Json) : Option Mismatch :=
  match expected.span?, actual.span? with
  | some e, some a => if e.agrees a then none else some (.here (.spans e a))
  | _, _ =>
    match he : expected.node?, actual.node? with
    | some (expectedKind, expectedLocation), some (actualKind, actualLocation) =>
      match hk : expectedKind.kindParts, actualKind.kindParts with
      | (e, expectedFields), (a, actualFields) =>
        if e ≠ a then some (.here (.kinds e a))
        else
          match difference expectedLocation actualLocation with
          | some m => some (m.under (.field "location"))
          | none =>
            match expectedFields, actualFields with
            | some expectedFields, some actualFields => difference expectedFields actualFields
            | _, _ => none
    | _, _ =>
      match expected, actual with
      | .object expected, .object actual =>
        match differenceOfMembers expected actual with
        | some m => some m
        | none =>
          match actual.find? fun (key, _) => (member? expected key).isNone with
          | some (key, _) => some ⟨[.field key], .unexpectedField⟩
          | none => none
      | .array expected, .array actual =>
        if expected.length ≠ actual.length then
          some (.here (.lengths expected.length actual.length))
        else differenceOfItems 0 expected actual
      | expected, actual =>
        if sameScalar expected actual then none else some (.here (.values expected actual))
termination_by sizeOf expected
decreasing_by
  · have := sizeOf_lt_of_node? he
    omega
  · have := sizeOf_lt_of_node? he
    have := sizeOf_lt_of_kindParts hk
    omega
  all_goals simp

/-- The first member of the one object that the other lacks or has differently. -/
def differenceOfMembers (expected actual : List (String × Json)) : Option Mismatch :=
  match expected with
  | [] => none
  | (key, value) :: rest =>
    match member? actual key with
    | none => some ⟨[.field key], .missingField⟩
    | some other =>
      match difference value other with
      | some m => some (m.under (.field key))
      | none => differenceOfMembers rest actual
termination_by sizeOf expected

/-- The first item that differs, the items being counted from `i`. -/
def differenceOfItems (i : Nat) (expected actual : List Json) : Option Mismatch :=
  match expected, actual with
  | e :: expected, a :: actual =>
    match difference e a with
    | some m => some (m.under (.index i))
    | none => differenceOfItems (i + 1) expected actual
  | _, _ => none
termination_by sizeOf expected

end

end Json

end RubyTree
