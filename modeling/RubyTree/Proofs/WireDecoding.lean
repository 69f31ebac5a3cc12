import Mathlib.Data.List.Forall2
import RubyTree.Proofs.Descent
import RubyTree.Proofs.WireForms

/-! Decoding undoes encoding. The tree that is decoded is the tree that was written, but for the nil
at the end of a `LIST`; a marker that is not known is reported, the first one in reading order. -/

namespace RubyTree

namespace Legacy

namespace Marker

def texts : List String := all.map text

theorem ofText?_eq_none_iff {s : String} : ofText? s = none ↔ s ∉ texts := by
  simp [ofText?, texts]

theorem text_of_ofText? {s : String} {m : Marker} (h : ofText? s = some m) : m.text = s := by
  simpa using List.find?_some h

end Marker

namespace Wire

mutual

/-- The texts of the markers in a tree, in reading order. -/
def specials : Wire → List String
  | .mk _ children _ => specialsIn children

def specialsIn : List WireChild → List String
  | [] => []
  | child :: rest => childSpecials child ++ specialsIn rest

def childSpecials : WireChild → List String
  | .node w => w.specials
  | .marker s => [s]
  | _ => []

end

mutual

/-- The node has the same kinds, positions and children as the wire tree, all of them but a nil at
the end of a `LIST`. -/
inductive Stands : Wire → Node → Prop where
  | whole {kind : Kind} {children : List WireChild} {nodes : List Child} {position : Position}
      (hlast : kind = .LIST → children.getLast? ≠ some .nil)
      (h : List.Forall₂ ChildStands children nodes) :
      Stands (.mk kind children position) (.mk kind nodes position)
  | terminated {children : List WireChild} {nodes : List Child} {position : Position}
      (h : List.Forall₂ ChildStands children nodes) :
      Stands (.mk .LIST (children ++ [.nil]) position) (.mk .LIST nodes position)

inductive ChildStands : WireChild → Child → Prop where
  | nil : ChildStands .nil .nil
  | flag (b : Bool) : ChildStands (.flag b) (.flag b)
  | node {w : Wire} {n : Node} (h : Stands w n) : ChildStands (.node w) (.node n)
  | name (s : Name) : ChildStands (.name s) (.name s)
  | marker (m : Marker) : ChildStands (.marker m.text) (.marker m)
  | table (t : Table) : ChildStands (.table t) (.table t)
  | count (k : Nat) : ChildStands (.count k) (.count k)
  | literal (l : Literal) : ChildStands (.literal l) (.literal l)

end

/-- Markers with these texts are looked up: the first that is not known is an error. -/
structure Resolves {α : Type} (texts : List String) (result : Except DecodeError α)
    (P : α → Prop) : Prop where
  unknown : ∀ name, texts.find? (· ∉ Marker.texts) = some name →
    result = .error (.unknownMarker name)
  known : (∀ s ∈ texts, s ∈ Marker.texts) → ∃ a, result = .ok a ∧ P a

namespace Resolves

variable {α β : Type} {texts texts' : List String} {P : α → Prop} {Q : β → Prop}

theorem pure {a : α} (h : P a) : Resolves [] (Pure.pure a) P where
  unknown name hname := by cases hname
  known _ := ⟨a, rfl, h⟩

theorem bind {x : Except DecodeError α} {f : α → Except DecodeError β} (hx : Resolves texts x P)
    (hf : ∀ a, P a → Resolves texts' (f a) Q) : Resolves (texts ++ texts') (x >>= f) Q where
  unknown name hname := by
    rw [List.find?_append] at hname
    cases hfirst : texts.find? (· ∉ Marker.texts) with
    | some first =>
      rw [hfirst] at hname
      cases hname
      rw [hx.unknown name hfirst]
      rfl
    | none =>
      rw [hfirst] at hname
      obtain ⟨a, rfl, ha⟩ := hx.known (by simpa using hfirst)
      exact (hf a ha).unknown name hname
  known hall := by
    rw [List.forall_mem_append] at hall
    obtain ⟨a, rfl, ha⟩ := hx.known hall.1
    exact (hf a ha).known hall.2

theorem map {x : Except DecodeError α} {f : α → β} (hx : Resolves texts x P)
    (hf : ∀ a, P a → Q (f a)) : Resolves texts (x >>= fun a => Pure.pure (f a)) Q := by
  simpa using hx.bind fun a ha => .pure (hf a ha)

end Resolves

theorem forall₂_concat {front : List WireChild} {child : WireChild} {nodes : List Child}
    (h : List.Forall₂ ChildStands (front ++ [child]) nodes) :
    ∃ front' last, nodes = front' ++ [last] ∧ List.Forall₂ ChildStands front front' ∧
      ChildStands child last := by
  induction front generalizing nodes with
  | nil =>
    obtain ⟨last, others, hlast, hothers, rfl⟩ := List.forall₂_cons_left_iff.mp h
    cases hothers
    exact ⟨[], last, rfl, .nil, hlast⟩
  | cons first rest ih =>
    obtain ⟨node, others, hnode, hothers, rfl⟩ := List.forall₂_cons_left_iff.mp h
    obtain ⟨front', last, rfl, hfront, hlast⟩ := ih hothers
    exact ⟨node :: front', last, rfl, .cons hnode hfront, hlast⟩

theorem stands_make {kind : Kind} {children : List WireChild} {nodes : List Child}
    {position : Position} (h : List.Forall₂ ChildStands children nodes) :
    Stands (.mk kind children position) (.make kind nodes position) := by
  unfold Node.make
  split
  · next hlist =>
    subst hlist
    obtain rfl | ⟨front, last, rfl⟩ := children.eq_nil_or_concat
    · cases h
      exact .whole (by simp) .nil
    · rw [List.concat_eq_append] at h ⊢
      obtain ⟨front', last', rfl, hfront, hlast⟩ := forall₂_concat h
      cases hlast with
      | nil =>
        rw [Node.dropTerminator_concat_nil]
        exact .terminated hfront
      | flag | node | name | marker | table | count | literal =>
        rw [Node.dropTerminator_concat_of_not_isNil rfl]
        exact .whole (by simp) h
  · next hlist => exact .whole (fun hkind => absurd hkind hlist) h

theorem marker_resolves (s : String) :
    Resolves (childSpecials (.marker s)) (toChild (.marker s)) (ChildStands (.marker s)) := by
  rw [childSpecials, toChild]
  split
  · next m hm =>
    obtain rfl := Marker.text_of_ofText? hm
    have hknown : m.text ∈ Marker.texts := by
      by_contra hunknown
      rw [Marker.ofText?_eq_none_iff.mpr hunknown] at hm
      cases hm
    exact ⟨by simp [hknown], fun _ => ⟨_, rfl, .marker m⟩⟩
  · next hs =>
    have hunknown := Marker.ofText?_eq_none_iff.mp hs
    refine ⟨fun name hname => ?_, fun hall => absurd (hall s (by simp)) hunknown⟩
    obtain rfl : s = name := by simpa [hunknown] using hname
    rfl

mutual

theorem toNode_resolves (w : Wire) : Resolves w.specials w.toNode w.Stands := by
  obtain ⟨kind, children, position⟩ := w
  rw [specials, toNode]
  exact (toChildren_resolves children).map fun nodes h => stands_make h

theorem toChildren_resolves (children : List WireChild) :
    Resolves (specialsIn children) (toChildren children) (List.Forall₂ ChildStands children) := by
  match children with
  | [] =>
    rw [specialsIn, toChildren]
    exact .pure .nil
  -- the markers of the first child are looked up before those of the rest
  | child :: rest =>
    rw [specialsIn, toChildren]
    exact (toChild_resolves child).bind fun first hfirst =>
      (toChildren_resolves rest).map fun others hothers => .cons hfirst hothers

theorem toChild_resolves (child : WireChild) :
    Resolves (childSpecials child) (toChild child) (ChildStands child) := by
  match child with
  | .nil => exact .pure .nil
  | .flag b => exact .pure (.flag b)
  | .node w =>
    rw [childSpecials, toChild]
    exact (toNode_resolves w).map fun n hn => .node hn
  | .name s => exact .pure (.name s)
  | .marker s => exact marker_resolves s
  | .table t => exact .pure (.table t)
  | .count k => exact .pure (.count k)
  | .literal l => exact .pure (.literal l)

end

end Wire

namespace Node

/-- The JSON of a tree is decoded to that tree, if every marker in it is known. -/
theorem ofText_toJson {text : String} {w : Wire} (htext : Json.ofText? text = some w.toJson)
    (hfits : w.fits = true) :
    (∀ name, w.specials.find? (· ∉ Marker.texts) = some name →
      ofText text = .error (.unknownMarker name)) ∧
    ((∀ s ∈ w.specials, s ∈ Marker.texts) → ∃ n, ofText text = .ok n ∧ w.Stands n) := by
  have hresolves := w.toNode_resolves
  rw [← ofText_of_written htext w.written_toJson hfits] at hresolves
  exact ⟨hresolves.unknown, hresolves.known⟩

def nilsAtEnd : Wire :=
  .mk .LIST [.marker "NODE_SPECIAL_NO_NAME_REST", .literal (.imaginary (.imaginary (.int 2))), .nil,
    .nil] ⟨1, 0, 1, 9⟩

def otherMarkers : Wire :=
  .mk .BLOCK [.node (.mk .LIST [.marker "NODE_SPECIAL_FIRST", .nil] ⟨1, 0, 1, 4⟩),
    .marker "NODE_SPECIAL_SECOND"] ⟨1, 0, 1, 9⟩

theorem ofText_toJson_nilsAtEnd :
    (∃ n, ofText nilsAtEnd.toJson.text = .ok n ∧ nilsAtEnd.Stands n) ∧
      ofText otherMarkers.toJson.text = .error (.unknownMarker "NODE_SPECIAL_FIRST") := by
  have hnils : Json.ofText? nilsAtEnd.toJson.text = some nilsAtEnd.toJson :=
    Json.ofText?_text (by decide) (by decide)
  have hothers : Json.ofText? otherMarkers.toJson.text = some otherMarkers.toJson :=
    Json.ofText?_text (by decide) (by decide)
  exact ⟨(ofText_toJson hnils (by decide)).2 (by decide),
    (ofText_toJson hothers (by decide)).1 _ (by decide)⟩

end Node

end Legacy

end RubyTree
