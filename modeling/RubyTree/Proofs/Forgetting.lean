import RubyTree.Proofs.Relocation
import RubyTree.Proofs.Similarity

/-! Forgetting positions. A tree some of whose positions tell nothing is converted wherever the full
one is, and its spans are those of the full tree or unknown. Only pairs are more than that: they
cover what is known of their key and value, and so are left with the one when the other is gone. -/

namespace RubyTree

open Canonical
open Legacy (Node)

namespace Span

variable {s s' : Span} {lines : LineTable}

def FadesTo (s s' : Span) : Prop := s' = s ∨ s' = .null

def FadesIn (lines : LineTable) (s s' : Span) : Prop := s.FadesTo s' ∧ s.stop ≤ lines.length

theorem fadesIn_null : null.FadesIn lines null := ⟨.inl rfl, stop_null_le _⟩

theorem fits_of_stop_le {bound : Nat} (h : s.stop ≤ bound) (hbound : bound < UInt64.size) :
    s.fits = true := by
  simp only [fits, stop, Bool.and_eq_true, decide_eq_true_eq] at h ⊢
  omega

namespace FadesIn

variable (h : s.FadesIn lines s')

include h

theorem toMatches : s.Matches s' := by
  rcases h.1 with rfl | rfl
  · exact .inl rfl
  · exact .inr (.inr rfl)

theorem fits (hlines : lines.length < UInt64.size) : s.fits = true := fits_of_stop_le h.2 hlines

theorem fits_right (hlines : lines.length < UInt64.size) : s'.fits = true := by
  rcases h.1 with rfl | rfl
  · exact h.fits hlines
  · rfl

end FadesIn

end Span

namespace Legacy.Node

variable {P : Node → Node → Prop} {n n' : Node}

/-- Trees of one form, with `P` at each two nodes in the same place. -/
inductive Nodewise (P : Node → Node → Prop) : Node → Node → Prop where
  | mk {kind : Kind} {cs cs' : List Child} {p p' : Position}
      (here : P (.mk kind cs p) (.mk kind cs' p'))
      (slots : List.Forall₂ (Child.Mirrored (Nodewise P)) cs cs') :
      Nodewise P (.mk kind cs p) (.mk kind cs' p')

theorem Nodewise.root (h : n.Nodewise P n') : P n n' := by
  cases h with
  | mk here _ => exact here

theorem Nodewise.mirrored (h : n.Nodewise P n') : n.Mirrored (Nodewise P) (Nodewise P) n' := by
  refine ⟨h, ?_, ?_⟩
  · cases h
    rfl
  · cases h with
    | mk _ slots => exact slots

/-- The position is kept, or one that tells nothing has taken its place. -/
def Fainter (n n' : Node) : Prop :=
  n'.position = n.position ∨ n'.position.isDegenerate = true

def Forgets : Node → Node → Prop := Nodewise Fainter

def Keeps (n n' : Node) : Prop :=
  n'.position = n.position ∨ n.position.isDegenerate = true ∧ n'.position.isDegenerate = true

/-- The key and the value of each pair tell what they did, or neither tells anything. -/
def PairsAlike (n n' : Node) : Prop :=
  ∀ list list', n.kind = .HASH → n.child 0 = .node list → n'.child 0 = .node list' →
    ∀ i key key' value value', list.child (2 * i) = .node key → list'.child (2 * i) = .node key' →
      list.child (2 * i + 1) = .node value → list'.child (2 * i + 1) = .node value' →
      key.Keeps key' ∧ value.Keeps value' ∨
        key'.position.isDegenerate = true ∧ value'.position.isDegenerate = true

/-- Positions have been forgotten, those of a key and its value together. -/
def ForgetsPairs : Node → Node → Prop := Nodewise fun n n' => n.Fainter n' ∧ n.PairsAlike n'

end Legacy.Node

namespace LineTable

variable {lines : LineTable} {n n' : Node} {s : Span}

theorem span_of_isDegenerate (h : n.position.isDegenerate = true) : lines.span n = .ok .null :=
  if_pos h

theorem span_of_keeps (h : n.Keeps n') (hs : lines.span n = .ok s) : lines.span n' = .ok s := by
  rcases h with h | ⟨hn, hn'⟩
  · rw [span_eq_ok_iff] at hs ⊢
    rwa [h]
  · rw [← hs, span_of_isDegenerate hn, span_of_isDegenerate hn']

theorem span_of_fainter (h : n.Fainter n') (hs : lines.span n = .ok s) :
    ∃ s', lines.span n' = .ok s' ∧ s.FadesTo s' := by
  rcases h with h | h
  · exact ⟨s, span_of_keeps (.inl h) hs, .inl rfl⟩
  · exact ⟨.null, span_of_isDegenerate h, .inr rfl⟩

end LineTable

/-- A conversion beside that of a tree with fewer positions. The latter has less to be refused
for. -/
def Coupling.forgetting (lines : LineTable) (options : Options) (P : Node → Node → Prop)
    (hP : ∀ n n', P n n' → n.Fainter n') : Coupling where
  lines := lines
  lines' := lines
  options := options
  options' := options
  accord := .onward
  nodes := Node.Nodewise P
  mirroring := Node.mirroring_of_unwrap rfl fun _ _ h => h.mirrored
  resolves n n' h := by
    cases hs : lines.span n with
    | error e => exact .excused
    | ok s =>
      obtain ⟨s', hs', _⟩ := LineTable.span_of_fainter (hP n n' h.root) hs
      rw [hs']
      exact .ok trivial

namespace Canonical

/-- One form and the same contents, up to spans that have become unknown. How the locations of two
nodes are related is up to `L`. -/
inductive Tree.Fades (L : Tree → Tree → Prop) : Tree → Tree → Prop where
  | mk {kind : Kind} {fs gs : Fields kind.fields} {s s' : Span}
      (fields : Fields.Related (Tree.Fades L) (fun _ => Span.FadesTo) (fun f f' => f' = f) fs gs)
      (location : L (.mk kind fs s) (.mk kind gs s')) :
      Tree.Fades L (.mk kind fs s) (.mk kind gs s')

namespace Tree

def LocationFades (t t' : Tree) : Prop := t.location.FadesTo t'.location

def IsCover (t : Tree) : Prop :=
  ∃ key value, t = .assoc key value (key.location.cover value.location)

/-- Pairs are covers on both sides; any other location is kept or has become unknown. -/
def PairFades (t t' : Tree) : Prop :=
  if t.kind = .assocNode then t.IsCover ∧ t'.IsCover else t.LocationFades t'

theorem IsPair.isCover {lines : LineTable} {options : Options} {list : Node} {i : Nat} {t : Tree}
    (h : t.IsPair lines options list i) : t.IsCover := by
  obtain ⟨key, value, _, k, v, s, u, _, _, hs, hu, hk, hv, rfl⟩ := h
  cases hs.symm.trans (Node.convert_location hk)
  cases hu.symm.trans (Node.convert_location hv)
  exact ⟨k, v, rfl⟩

end Tree

end Canonical

section

variable {lines : LineTable} {options : Options} {P : Node → Node → Prop}
  {hP : ∀ n n', P n n' → n.Fainter n'} {t t' : Tree} {s s' : Span}

namespace Coupling

theorem Located.fadesIn {n n' : Node}
    (h : (Coupling.forgetting lines options P hP).Located n n' s s') : s.FadesIn lines s' := by
  obtain ⟨hn, hs, hs'⟩ := h
  obtain ⟨u, hu, hfades⟩ := LineTable.span_of_fainter (hP n n' hn.root) hs
  cases hu.symm.trans hs'
  exact ⟨hfades, lines.stop_le_length hs⟩

theorem Spans.fadesIn (h : (Coupling.forgetting lines options P hP).Spans s s') :
    s.FadesIn lines s' := by
  rcases h with ⟨rfl, rfl⟩ | ⟨n, n', h⟩
  · exact Span.fadesIn_null
  · exact h.fadesIn

theorem Inner.fadesIn {label : String}
    (h : (Coupling.forgetting lines options P hP).Inner t t' label s s')
    (hjump : t.isBareJump = true → t.location.FadesIn lines t'.location) :
    s.FadesIn lines s' := by
  unfold Coupling.Inner at h
  split_ifs at h with hbare
  · obtain ⟨rfl, rfl⟩ := h
    exact hjump hbare.1
  · obtain ⟨n, n', _, h, _⟩ := h
    exact h.fadesIn
  · obtain ⟨rfl, rfl⟩ := h
    exact Span.fadesIn_null

theorem Locations.fadesIn (h : (Coupling.forgetting lines options P hP).Locations t t')
    (hkind : t.kind ≠ .assocNode) : t.location.FadesIn lines t'.location := by
  unfold Coupling.Locations at h
  rw [if_neg hkind] at h
  exact h.fadesIn

theorem Locations.pairFades (h : (Coupling.forgetting lines options P hP).Locations t t') :
    t.PairFades t' := by
  unfold Tree.PairFades
  split
  · next hkind =>
    unfold Coupling.Locations at h
    rw [if_pos hkind] at h
    obtain ⟨_, _, _, _, hpair, hpair'⟩ := h
    exact ⟨hpair.isCover, hpair'.isCover⟩
  · next hkind => exact (h.fadesIn hkind).1

theorem Locations.fadesIn_of_pairs (hpairs : ∀ n n', P n n' → n.PairsAlike n')
    (h : (Coupling.forgetting lines options P hP).Locations t t') :
    t.location.FadesIn lines t'.location := by
  by_cases hkind : t.kind = .assocNode
  · unfold Coupling.Locations at h
    rw [if_pos hkind] at h
    obtain ⟨list, list', i, hlist, hpair, hpair'⟩ := h
    refine ⟨?_, hpair.stop_le⟩
    obtain ⟨n, n', hn, hhash, hchild, hchild'⟩ := hlist.hashes
    obtain ⟨key, value, _, _, _, s, u, hkey, hvalue, hs, hu, _, _, rfl⟩ := hpair
    obtain ⟨key', value', _, _, _, s', u', hkey', hvalue', hs', hu', _, _, rfl⟩ := hpair'
    have halike := hpairs n n' hn.root list list' hhash hchild hchild' i key key' value value'
      hkey hkey' hvalue hvalue'
    rcases halike with ⟨hk, hv⟩ | ⟨hk, hv⟩
    · cases (LineTable.span_of_keeps hk hs).symm.trans hs'
      cases (LineTable.span_of_keeps hv hu).symm.trans hu'
      exact .inl rfl
    · cases (LineTable.span_of_isDegenerate hk).symm.trans hs'
      cases (LineTable.span_of_isDegenerate hv).symm.trans hu'
      exact .inr rfl
  · exact h.fadesIn hkind

theorem Locations.fields {R : Tree → Tree → Prop} {kind : Canonical.Kind}
    {fs gs : Fields kind.fields}
    (h : (Coupling.forgetting lines options P hP).Locations (.mk kind fs s) (.mk kind gs s'))
    (hfields : Fields.Related R
      ((Coupling.forgetting lines options P hP).Inner (.mk kind fs s) (.mk kind gs s'))
      ((Coupling.forgetting lines options P hP).Words (.mk kind fs s) (.mk kind gs s')) fs gs) :
    Fields.Related R (fun _ => Span.FadesIn lines) (fun f f' => f' = f) fs gs := by
  refine hfields.imp (fun label u u' hinner => ?_) fun f f' hwords => hwords.eq rfl
  refine hinner.fadesIn fun hjump => h.fadesIn ?_
  rintro rfl
  cases hjump

theorem not_loose_forgetting : ¬(Coupling.forgetting lines options P hP).Loose :=
  fun hloose => hloose.2 rfl

end Coupling

theorem Canonical.Tree.Mirrored.fades {L : Tree → Tree → Prop}
    (hL : ∀ t t', (Coupling.forgetting lines options P hP).Locations t t' → L t t')
    (h : t.Mirrored (.forgetting lines options P hP) t') : t.Fades L t' := by
  refine h.induct (motive := Tree.Fades L) Coupling.not_loose_forgetting ?_
  intro kind fs gs s s' fields location
  have hfields := location.fields fields
  exact .mk (hfields.imp (fun _ _ _ h => h.1) fun _ _ h => h) (hL _ _ location)

end

/-! The comparison takes faded trees for the full ones. -/

namespace Canonical.Tree

open Json (member?)

def Indistinct (t t' : Tree) : Prop := Json.difference t.toJson t'.toJson = none

section

variable {lines : LineTable} (hlines : lines.length < UInt64.size)

include hlines

theorem difference_of_fadesIn {s s' : Span} (h : s.FadesIn lines s') :
    Json.difference s.toJson s'.toJson = none :=
  (Span.difference_toJson (h.fits hlines) (h.fits_right hlines)).mpr h.toMatches

theorem difference_of_related {sort : FieldSort} {v w : Value sort}
    (h : Value.Related Indistinct (Span.FadesIn lines) (fun f f' => f' = f) v w) :
    Json.difference (valueToJson v) (valueToJson w) = none := by
  cases h with
  | span h => exact difference_of_fadesIn hlines h
  | flags h => exact (difference_scalarField rfl _ _).mpr (congrArg Value.flags h.symm)
  | tree h => exact h
  | optTree h =>
    cases h with
    | none => exact Json.difference_null_left.mpr rfl
    | some h => exact h
  | trees h =>
    refine Json.difference_arrays.mpr ?_
    induction h with
    | nil => exact .nil
    | cons h _ ih => exact .cons h ih
  | fixed hfixed =>
    cases v with
    | float x => exact Json.difference_ofDouble_self x
    | span | flags | tree | optTree | trees => cases hfixed
    | _ => exact (difference_scalarField rfl _ _).mpr rfl

theorem differenceOfMembers_of_related {fields : List Field} {fs gs : Fields fields}
    (h : Fields.Related Indistinct (fun _ => Span.FadesIn lines) (fun f f' => f' = f) fs gs)
    (front : List (String × Json)) (hnodup : (fields.map (·.label)).Nodup)
    (hfront : ∀ label ∈ fields.map (·.label), member? front label = none) :
    Json.differenceOfMembers (membersOf fs) (front ++ membersOf gs) = none := by
  induction fields generalizing front with
  | nil =>
    cases h
    simp [membersOf, Json.differenceOfMembers]
  | cons field rest ih =>
    cases h with
    | cons value values =>
      rw [List.map_cons, List.nodup_cons] at hnodup
      rw [differenceOfMembers_cons _ _ _ _ (hfront _ (List.mem_cons_self ..)),
        Option.or_eq_none_iff, Option.map_eq_none_iff]
      refine ⟨difference_of_related hlines value, ih values _ hnodup.2 fun label hlabel => ?_⟩
      exact member?_snoc_eq_none (hfront label (List.mem_cons_of_mem _ hlabel)) hnodup.1 hlabel

theorem Mirrored.indistinct {options : Options} {P : Node → Node → Prop}
    {hP : ∀ n n', P n n' → n.Fainter n'} (hpairs : ∀ n n', P n n' → n.PairsAlike n')
    {t t' : Tree} (h : t.Mirrored (.forgetting lines options P hP) t') : t.Indistinct t' := by
  refine h.induct (motive := Indistinct) Coupling.not_loose_forgetting ?_
  intro kind fs gs s s' fields location
  have hlocation : s.FadesIn lines s' := location.fadesIn_of_pairs hpairs
  have hfields := differenceOfMembers_of_related hlines (location.fields fields) []
    kind.labels_nodup fun _ _ => rfl
  rw [List.nil_append] at hfields
  unfold Indistinct
  rw [Json.difference_nodes (span?_toJson _) (node?_toJson kind fs s) (node?_toJson kind gs s'),
    kindParts_name, kindParts_name, difference_kindParts, difference_record]
  exact ⟨rfl, difference_of_fadesIn hlines hlocation, hfields⟩

end

end Canonical.Tree

namespace Legacy.Node

variable {lines : LineTable} {options : Options} {root root' : Node} {t : Tree}

theorem program_forgetting {P : Node → Node → Prop} (hP : ∀ n n', P n n' → n.Fainter n')
    (hroots : root.Nodewise P root') (h : root.program lines options = .ok t) :
    ∃ t', root'.program lines options = .ok t' ∧
      t.Mirrored (.forgetting lines options P hP) t' := by
  let k : Coupling := .forgetting lines options P hP
  have hsteps : k.Steps (Tree.Mirrored k) (root.program lines options)
      (root'.program lines options) := k.program_mirrored hroots
  rw [h] at hsteps
  exact Mirrored.right_of_ok hsteps

section

variable {P : Node → Node → Prop} {f : Position → Position}

mutual

theorem nodewise_mapPositions (h : ∀ n, P n (n.mapPositions f)) :
    (n : Node) → n.Nodewise P (n.mapPositions f)
  | .mk kind cs position => .mk (h (.mk kind cs position)) (mirrored_mapPositionsList h cs)

theorem mirrored_mapPositionsList (h : ∀ n, P n (n.mapPositions f)) :
    (cs : List Child) → List.Forall₂ (Child.Mirrored (Nodewise P)) cs (mapPositionsList f cs)
  | [] => .nil
  | c :: cs => .cons (mirrored_mapPositionsChild h c) (mirrored_mapPositionsList h cs)

theorem mirrored_mapPositionsChild (h : ∀ n, P n (n.mapPositions f)) :
    (c : Child) → c.Mirrored (Nodewise P) (mapPositionsChild f c)
  | .node n => .node (nodewise_mapPositions h n)
  | .nil | .name _ | .literal _ | .marker _ | .flag _ | .count _ | .table _ => .same nofun

end

end

theorem fainter_mapPositions {f : Position → Position}
    (hf : ∀ p, f p = p ∨ (f p).isDegenerate = true) (n : Node) : n.Fainter (n.mapPositions f) := by
  unfold Fainter
  rw [mapPositions_position]
  exact hf n.position

theorem child_mapPositions {f : Position → Position} (n : Node) (i : Nat) :
    (n.mapPositions f).child i = mapPositionsChild f (n.child i) := by
  unfold Node.child
  rw [mapPositions_children, List.getElem?_map]
  cases n.children[i]? <;> rfl

theorem forgetsPairs_erasePositions (n : Node) : n.ForgetsPairs n.erasePositions := by
  refine nodewise_mapPositions (fun m => ⟨fainter_mapPositions (fun _ => .inr rfl) m, ?_⟩) n
  intro list list' _ hlist hlist' i key key' value value' hkey hkey' hvalue hvalue'
  rw [child_mapPositions, hlist] at hlist'
  cases hlist'
  rw [child_mapPositions, hkey] at hkey'
  rw [child_mapPositions, hvalue] at hvalue'
  cases hkey'
  cases hvalue'
  rw [mapPositions_position, mapPositions_position]
  exact .inr ⟨rfl, rfl⟩

/-- Forgetting positions makes spans unknown, and keeps the rest of the tree. A pair is left with
what it knows of its key and value; if it loses both or neither, no difference is found. -/
theorem program_forgotten (hroots : root.Forgets root')
    (h : root.program lines options = .ok t) :
    ∃ t', root'.program lines options = .ok t' ∧ t.Fades Tree.PairFades t' ∧
      (root.ForgetsPairs root' → t.Fades Tree.LocationFades t' ∧
        (lines.length < UInt64.size → t.agrees t' = true)) := by
  obtain ⟨t', ht', hmirrored⟩ := program_forgetting (fun _ _ h => h) hroots h
  refine ⟨t', ht', hmirrored.fades fun _ _ => Coupling.Locations.pairFades, fun hpairs => ?_⟩
  obtain ⟨u, hu, hmirrored⟩ := program_forgetting (fun _ _ h => h.1) hpairs h
  cases ht'.symm.trans hu
  have halike : ∀ n n', (Fainter n n' ∧ PairsAlike n n') → PairsAlike n n' := fun _ _ h => h.2
  refine ⟨hmirrored.fades fun _ _ h => (h.fadesIn_of_pairs halike).1, fun hlines => ?_⟩
  exact Option.isNone_iff_eq_none.mpr (hmirrored.indistinct hlines halike)

theorem program_forgotten_pairOnOneLine :
    ∃ t t', pairOnOneLine.program ⟨[0], 8⟩ {} = .ok t ∧
      pairOnOneLine.erasePositions.program ⟨[0], 8⟩ {} = .ok t' ∧ t.Fades Tree.PairFades t' ∧
      t.Fades Tree.LocationFades t' ∧ t.agrees t' = true := by
  obtain ⟨t, ht⟩ : ∃ t, pairOnOneLine.program ⟨[0], 8⟩ {} = .ok t := ⟨_, rfl⟩
  have hforgets : pairOnOneLine.Forgets pairOnOneLine.erasePositions :=
    nodewise_mapPositions (fainter_mapPositions fun _ => .inr rfl) _
  obtain ⟨t', ht', hfades, hpairs⟩ := program_forgotten hforgets ht
  obtain ⟨hlocations, hagrees⟩ := hpairs (forgetsPairs_erasePositions _)
  exact ⟨t, t', ht, ht', hfades, hlocations, hagrees (by decide)⟩

/-- The pair without the position of its key. -/
def pairWithoutKey : Node := pairAt ⟨1, 0, 1, 8⟩ default ⟨1, 6, 1, 7⟩

/-- A pair that loses the position of its key is located at its value, and this is a difference. -/
theorem pairWithoutKey_differs :
    pairOnOneLine.Forgets pairWithoutKey ∧
      ∃ t t', pairOnOneLine.program ⟨[0], 8⟩ {} = .ok t ∧
        pairWithoutKey.program ⟨[0], 8⟩ {} = .ok t' ∧ t.agrees t' = false := by
  have hforgets : pairOnOneLine.Forgets (pairOnOneLine.mapPositions
      fun p => if p = ⟨1, 1, 1, 2⟩ then default else p) := by
    refine nodewise_mapPositions (fainter_mapPositions fun p => ?_) _
    split
    · exact .inr rfl
    · exact .inl rfl
  refine ⟨hforgets, _, _, rfl, rfl, ?_⟩
  decide +kernel

end Legacy.Node

end RubyTree
