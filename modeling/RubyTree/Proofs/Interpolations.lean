import RubyTree.Proofs.CaseChains
import RubyTree.Proofs.Everywhere

/-! Interpolations. The text and the statements of one are spread over three slots: a leading text,
a first fragment and a list of the others. The conversion puts them in one row again, whichever slot
a fragment came in. -/

namespace RubyTree

open Canonical (Tree Flags)
open Legacy (Node Child)

/-- What an interpolation is made of: text that is known, and nodes with embedded statements. -/
inductive Fragment where
  | text (s : String)
  | embedded (n : Node)

def Fragment.isBlank : Fragment → Bool
  | .text s => s.isEmpty
  | .embedded _ => false

namespace Legacy.Node

/-- The node that stands for a fragment in a slot for nodes. -/
inductive Holds (n : Node) : Fragment → Prop where
  | text {s : String} (hkind : n.kind = .STR) (htext : n.child 0 = .literal (.string s)) :
      Holds n (.text s)
  | embedded {body : Option Node} (hkind : n.kind = .EVSTR) (hbody : n.child 0 = .ofNode? body) :
      Holds n (.embedded n)

/-- The leading slot holds a text, which may count as a fragment or, if empty, as none. -/
inductive Leads : Child → List Fragment → Prop where
  | absent : Leads .nil []
  | empty : Leads (.literal (.string "")) []
  | text {s : String} : Leads (.literal (.string s)) [.text s]

/-- The nodes in the second and the third slot, in order. -/
def Follows (n : Node) (nodes : List Node) : Prop :=
  ∃ head tail rest, n.child 1 = .ofNode? head ∧ n.child 2 = .ofNode? tail ∧ Lists rest tail ∧
    nodes = head.toList ++ rest

/-- The slots of the node hold these fragments in order, those of the leading slot apart. -/
def Splits (n : Node) (leading rest : List Fragment) : Prop :=
  Leads (n.child 0) leading ∧ ∃ nodes, n.Follows nodes ∧ List.Forall₂ Holds nodes rest

end Legacy.Node

namespace Context

inductive Part (c : Context) : Fragment → Tree → Prop where
  | text {s : String} {flags : Flags} {location : Span} :
      Part c (.text s) (.string flags s location)
  | embedded {n : Node} {body : Option Node} {statements : Option Tree} {location : Span}
      (hbody : n.child 0 = .ofNode? body) (hstatements : c.statements body = .ok statements)
      (hlocation : c.span n = .ok location) :
      Part c (.embedded n) (.embeddedStatements statements location)

variable {c : Context}

theorem fragments_of_lists {tail : Option Node} {rest : List Node}
    (h : Legacy.Node.Lists rest tail) : c.fragments tail = rest.mapM c.fragment := by
  cases tail with
  | none =>
    cases h
    rfl
  | some list =>
    obtain ⟨hkind, hchildren⟩ := h
    have hnodes : list.nodesFrom 0 = .ok rest := Legacy.Node.nodesAt_eq_ok_iff.mpr hchildren
    simp only [fragments, Legacy.Node.expectKind_of_kind hkind]
    change (list.nodesFrom 0 >>= fun nodes => nodes.mapM c.fragment) = _
    rw [hnodes]
    rfl

theorem interpolationParts_of_lists {leading : Option String} {head tail : Option Node}
    {rest : List Node} (h : Legacy.Node.Lists rest tail) :
    c.interpolationParts leading head tail =
      (head.toList ++ rest).mapM c.fragment >>= fun trees =>
        pure (leadingPart leading ++ trees) := by
  have hhead : c.fragmentOf? head = head.toList.mapM c.fragment := by
    cases head with
    | none => rfl
    | some n => simp [fragmentOf?]
  rw [interpolationParts, fragments_of_lists h, hhead, List.mapM_append]
  simp [List.append_assoc]

end Context

namespace Legacy.Node

variable {n m : Node} {leading rest : List Fragment}

def leadingSlot : Option String → Child
  | none => .nil
  | some s => .literal (.string s)

theorem leadingText_eq_ok_iff {found : Option String} :
    n.leadingText = .ok found ↔ n.child 0 = leadingSlot found := by
  unfold leadingText
  constructor
  · intro h
    split at h
    · next hslot =>
      cases h
      exact hslot
    · next hslot =>
      cases h
      exact hslot
    · cases h
  · intro h
    rw [h]
    cases found <;> rfl

def optionBits (n : Node) : Result UInt32 :=
  match n.child 3 with
  | .nil => pure 0
  | _ => do pure (UInt32.ofNat (← n.count 3))

theorem shape_of_interpolation (hkind : n.kind ∈ [.DSTR, .DXSTR, .DSYM, .DREGX])
    {shape : Legacy.Shape} :
    n.shape = .ok shape ↔ ∃ found head tail bits, n.child 0 = leadingSlot found ∧
      n.child 1 = .ofNode? head ∧ n.child 2 = .ofNode? tail ∧ n.optionBits = .ok bits ∧
      shape = .interpolation found head tail bits := by
  have hshape : n.shape = n.leadingText >>= fun found => n.node? 1 >>= fun head =>
      n.node? 2 >>= fun tail => n.optionBits >>= fun bits =>
      pure (.interpolation found head tail bits) := by
    have hslots : n.shape = n.interpolationShape := by
      simp only [List.mem_cons, List.not_mem_nil, or_false] at hkind
      unfold Node.shape
      rcases hkind with hkind | hkind | hkind | hkind <;> rw [hkind]
    rw [hslots, interpolationShape, optionBits]
    congr 1
    funext found
    congr 1
    funext head
    congr 1
    funext tail
    cases n.child 3 with
    | nil => rfl
    | _ => simp
  simp only [hshape, bind_eq_ok_iff, leadingText_eq_ok_iff, node?_eq_ok_iff, pure_eq_ok_iff,
    exists_and_left]

theorem parts_of_leads (c : Context) (h : Leads (n.child 0) leading) {found : Option String}
    (hfound : n.child 0 = leadingSlot found) :
    List.Forall₂ c.Part (leading.filter (!·.isBlank)) (Context.leadingPart found) := by
  rw [hfound] at h
  cases found with
  | none =>
    cases h
    exact .nil
  | some s =>
    cases h with
    | empty => exact .nil
    | text =>
      by_cases hblank : s.isEmpty = true
      · simp [Fragment.isBlank, Context.leadingPart, hblank]
      · simp only [Bool.not_eq_true] at hblank
        simp [Fragment.isBlank, Context.leadingPart, hblank, Context.Part.text]

end Legacy.Node

namespace Legacy.Node

variable {lines : LineTable} {options : Options} {scope : Scope} {n : Node}

theorem fragment_of_STR {s : String} {t : Tree} (hkind : n.kind = .STR)
    (htext : n.child 0 = .literal (.string s)) :
    (Context.whole lines options scope).fragment n = .ok t ↔ ∃ location,
      lines.span n = .ok location ∧
        t = .string (Context.whole lines options scope).stringFlags s location := by
  have hshape : n.shape = .ok (.literal (.string s)) := by
    simp only [Node.shape, hkind, Node.literal, htext]
    rfl
  have hfragment : (Context.whole lines options scope).fragment n =
      n.convert lines options scope none := by
    rw [Context.fragment, hshape]
    rfl
  rw [hfragment, convert_eq_ok_iff hshape]
  refine exists_congr fun location => and_congr_right fun _ => ?_
  simp only [Context.shaped, Context.literal, hkind, pure_eq_ok_iff]

theorem fragment_of_EVSTR {body : Option Node} {t : Tree} (hkind : n.kind = .EVSTR)
    (hbody : n.child 0 = .ofNode? body) :
    (Context.whole lines options scope).fragment n = .ok t ↔ ∃ statements location,
      (Context.whole lines options scope).statements body = .ok statements ∧
        lines.span n = .ok location ∧ t = .embeddedStatements statements location := by
  have hshape : n.shape = .ok (.wrapper body) := by
    simp only [Node.shape, hkind, node?_eq_ok_iff.mpr hbody]
    rfl
  rw [Context.fragment, hshape]
  change (if n.kind = .EVSTR then _ else _) = _ ↔ _
  simp only [if_pos hkind, bind_eq_ok_iff, pure_eq_ok_iff, exists_and_left, Context.span_whole]

theorem Holds.part {f : Fragment} (h : n.Holds f) {t : Tree}
    (ht : (Context.whole lines options scope).fragment n = .ok t) :
    (Context.whole lines options scope).Part f t := by
  cases h with
  | text hkind htext =>
    obtain ⟨location, _, rfl⟩ := (fragment_of_STR hkind htext).mp ht
    exact .text
  | embedded hkind hbody =>
    obtain ⟨statements, location, hstatements, hlocation, rfl⟩ :=
      (fragment_of_EVSTR hkind hbody).mp ht
    exact .embedded hbody hstatements hlocation

/-- The place of a fragment is known, and the statements embedded in it are converted. -/
def FragmentConverts (lines : LineTable) (options : Options) (scope : Scope) (n : Node) : Prop :=
  (∃ s, lines.span n = .ok s) ∧ ∀ body, n.kind = .EVSTR → n.child 0 = .node body →
    body.Converts lines options scope

theorem Holds.exists_fragment {f : Fragment} (h : n.Holds f)
    (hn : n.FragmentConverts lines options scope) :
    ∃ t, (Context.whole lines options scope).fragment n = .ok t := by
  obtain ⟨⟨location, hlocation⟩, hbodies⟩ := hn
  cases h with
  | text hkind htext => exact ⟨_, (fragment_of_STR hkind htext).mpr ⟨location, hlocation, rfl⟩⟩
  | @embedded body hkind hbody =>
    have hconverts : Optional (Converts lines options scope) body := by
      rintro m rfl
      exact hbodies m hkind hbody
    obtain ⟨statements, hstatements⟩ := Context.exists_statements hconverts
    exact ⟨_, (fragment_of_EVSTR hkind hbody).mpr ⟨statements, location, hstatements, hlocation,
      rfl⟩⟩

inductive Interpolated (bits : UInt32) (parts : List Tree) (location : Span) :
    Legacy.Kind → Tree → Prop where
  | string : Interpolated bits parts location .DSTR (.interpolatedString parts location)
  | xString : Interpolated bits parts location .DXSTR (.interpolatedXString parts location)
  | symbol : Interpolated bits parts location .DSYM (.interpolatedSymbol parts location)
  | regexp : Interpolated bits parts location .DREGX
      (.interpolatedRegularExpression (Context.regexpFlags bits) parts location)

theorem interpolation_eq_ok_iff {c : Context} (hkind : n.kind ∈ [.DSTR, .DXSTR, .DSYM, .DREGX])
    {found : Option String} {head tail : Option Node} {bits : UInt32} {location : Span} {t : Tree} :
    c.interpolation n found head tail bits location = .ok t ↔ ∃ parts,
      c.interpolationParts found head tail = .ok parts ∧
        Interpolated bits parts location n.kind t := by
  rw [Context.interpolation, bind_eq_ok_iff]
  refine exists_congr fun parts => and_congr_right fun _ => ?_
  generalize n.kind = kind at hkind
  simp only [List.mem_cons, List.not_mem_nil, or_false] at hkind
  obtain rfl | rfl | rfl | rfl := hkind
  all_goals
    simp only [pure_eq_ok_iff]
    constructor
    · rintro rfl
      constructor
    · intro h
      cases h
      rfl

theorem Interpolated.parts {bits : UInt32} {parts : List Tree} {location : Span}
    {kind : Legacy.Kind} {t : Tree} (h : Interpolated bits parts location kind t) :
    t.trees? "parts" = some parts := by
  cases h <;> rfl

theorem convert_eq_ok_iff_interpolated (hkind : n.kind ∈ [.DSTR, .DXSTR, .DSYM, .DREGX])
    {nodes : List Node} (hfollows : n.Follows nodes) {t : Tree} :
    n.convert lines options scope none = .ok t ↔ ∃ found bits trees location,
      n.child 0 = leadingSlot found ∧ n.optionBits = .ok bits ∧
      List.Forall₂ (fun m u => (Context.whole lines options scope).fragment m = .ok u) nodes trees ∧
      lines.span n = .ok location ∧
      Interpolated bits (Context.leadingPart found ++ trees) location n.kind t := by
  obtain ⟨head, tail, rest, hhead, htail, hlists, rfl⟩ := hfollows
  have hparts (found : Option String) (parts : List Tree) :
      (Context.whole lines options scope).interpolationParts found head tail = .ok parts ↔
        ∃ trees, List.Forall₂ (fun m u => (Context.whole lines options scope).fragment m = .ok u)
          (head.toList ++ rest) trees ∧ parts = Context.leadingPart found ++ trees := by
    simp only [Context.interpolationParts_of_lists hlists, bind_eq_ok_iff, mapM_eq_ok_iff,
      pure_eq_ok_iff]
  constructor
  · intro h
    obtain ⟨_, shape, _, hshape⟩ := exists_shape_of_convert h
    obtain ⟨location, hlocation, h⟩ := (convert_eq_ok_iff hshape).mp h
    obtain ⟨found, first, others, bits, hleading, hfirst, hothers, hbits, rfl⟩ :=
      (shape_of_interpolation hkind).mp hshape
    obtain rfl : first = head := ofNode?_inj (hfirst.symm.trans hhead)
    obtain rfl : others = tail := ofNode?_inj (hothers.symm.trans htail)
    obtain ⟨parts, hall, hform⟩ := (interpolation_eq_ok_iff hkind).mp h
    obtain ⟨trees, htrees, rfl⟩ := (hparts found parts).mp hall
    exact ⟨found, bits, trees, location, hleading, hbits, htrees, hlocation, hform⟩
  · rintro ⟨found, bits, trees, location, hleading, hbits, htrees, hlocation, hform⟩
    have hshape := (shape_of_interpolation hkind).mpr
      ⟨found, head, tail, bits, hleading, hhead, htail, hbits, rfl⟩
    have hall := (hparts found _).mpr ⟨trees, htrees, rfl⟩
    refine (convert_eq_ok_iff hshape).mpr ⟨location, hlocation, ?_⟩
    exact (interpolation_eq_ok_iff hkind).mpr ⟨_, hall, hform⟩

theorem parts_of_holds {nodes : List Node} {rest : List Fragment} {trees : List Tree}
    (hholds : List.Forall₂ Holds nodes rest)
    (htrees : List.Forall₂ (fun m t => (Context.whole lines options scope).fragment m = .ok t)
      nodes trees) : List.Forall₂ (Context.whole lines options scope).Part rest trees := by
  induction hholds generalizing trees with
  | nil =>
    cases htrees
    exact .nil
  | cons hnode _ ih =>
    cases htrees with
    | cons hfirst htrees => exact .cons (hnode.part hfirst) (ih htrees)

theorem exists_fragments {nodes : List Node} {rest : List Fragment}
    (hholds : List.Forall₂ Holds nodes rest)
    (hnodes : ∀ m ∈ nodes, m.FragmentConverts lines options scope) :
    ∃ trees, List.Forall₂ (fun m t => (Context.whole lines options scope).fragment m = .ok t)
      nodes trees := by
  induction hholds with
  | nil => exact ⟨[], .nil⟩
  | cons hnode _ ih =>
    obtain ⟨hfirst, hothers⟩ := List.forall_mem_cons.mp hnodes
    obtain ⟨t, ht⟩ := hnode.exists_fragment hfirst
    obtain ⟨trees, htrees⟩ := ih hothers
    exact ⟨t :: trees, .cons ht htrees⟩

theorem exists_interpolated (hkind : n.kind ∈ [.DSTR, .DXSTR, .DSYM, .DREGX]) (bits : UInt32)
    (parts : List Tree) (location : Span) : ∃ t, Interpolated bits parts location n.kind t := by
  simp only [List.mem_cons, List.not_mem_nil, or_false] at hkind
  obtain hkind | hkind | hkind | hkind := hkind
  all_goals
    rw [hkind]
    exact ⟨_, by constructor⟩

theorem Leads.slot {slot : Child} {leading : List Fragment} (h : Leads slot leading) :
    ∃ found, slot = leadingSlot found := by
  cases h with
  | absent => exact ⟨none, rfl⟩
  | empty => exact ⟨some "", rfl⟩
  | @text s => exact ⟨some s, rfl⟩

theorem parts_of_splits (hkind : n.kind ∈ [.DSTR, .DXSTR, .DSYM, .DREGX])
    {leading rest : List Fragment} (hsplits : n.Splits leading rest) {t : Tree}
    (h : n.convert lines options scope none = .ok t) :
    ∃ parts, t.trees? "parts" = some parts ∧ List.Forall₂ (Context.whole lines options scope).Part
      (leading.filter (!·.isBlank) ++ rest) parts := by
  obtain ⟨hleads, nodes, hfollows, hholds⟩ := hsplits
  obtain ⟨found, bits, trees, location, hfound, _, htrees, _, hform⟩ :=
    (convert_eq_ok_iff_interpolated hkind hfollows).mp h
  have hleading := parts_of_leads (Context.whole lines options scope) hleads hfound
  have hrest := parts_of_holds hholds htrees
  exact ⟨_, hform.parts, List.rel_append hleading hrest⟩

theorem converts_of_splits (hkind : n.kind ∈ [.DSTR, .DXSTR, .DSYM, .DREGX])
    {leading rest : List Fragment} (hsplits : n.Splits leading rest)
    (hbits : ∃ bits, n.optionBits = .ok bits) (hlocation : ∃ s, lines.span n = .ok s)
    (hnodes : ∀ nodes, n.Follows nodes → ∀ m ∈ nodes, m.FragmentConverts lines options scope) :
    n.Converts lines options scope := by
  obtain ⟨hleads, nodes, hfollows, hholds⟩ := hsplits
  obtain ⟨found, hfound⟩ := hleads.slot
  obtain ⟨bits, hbits⟩ := hbits
  obtain ⟨location, hlocation⟩ := hlocation
  obtain ⟨trees, htrees⟩ := exists_fragments hholds (hnodes nodes hfollows)
  obtain ⟨t, ht⟩ := exists_interpolated hkind bits (Context.leadingPart found ++ trees) location
  exact ⟨t, (convert_eq_ok_iff_interpolated hkind hfollows).mpr
    ⟨found, bits, trees, location, hfound, hbits, htrees, hlocation, ht⟩⟩

/-! Regular expressions that are built once only. -/

/-- The wrappers around a node, the outermost first. -/
inductive OnceAround (inner : Node) : List Node → Prop where
  | once {n : Node} (hkind : n.kind = .ONCE) (hslot : n.child 0 = .node inner) :
      OnceAround inner [n]
  | again {n m : Node} {rest : List Node} (hkind : n.kind = .ONCE) (hslot : n.child 0 = .node m)
      (hrest : OnceAround inner (m :: rest)) : OnceAround inner (n :: m :: rest)

theorem convert_of_ONCE {m : Node} (hkind : n.kind = .ONCE) (hslot : n.child 0 = .node m)
    {t : Tree} :
    n.convert lines options scope none = .ok t ↔ ∃ location inner, lines.span n = .ok location ∧
      m.convert lines options scope none = .ok inner ∧ Tree.once? location inner = some t := by
  have hshape : n.shape = .ok (.wrapper (some m)) := by
    have hbody : n.node? 0 = .ok (some m) := node?_eq_ok_iff.mpr hslot
    simp only [Node.shape, hkind, hbody]
    rfl
  simp only [convert_eq_ok_iff hshape, Context.shaped, Context.wrapper, hkind, Context.once,
    bind_eq_ok_iff]
  constructor
  · rintro ⟨location, hlocation, inner, hinner, h⟩
    split at h
    · next found hfound =>
      cases h
      exact ⟨location, inner, hlocation, hinner, hfound⟩
    · cases h
  · rintro ⟨location, inner, hlocation, hinner, honce⟩
    refine ⟨location, hlocation, inner, hinner, ?_⟩
    rw [honce]
    rfl

theorem once?_interpolatedRegularExpression (flags : Flags) (parts : List Tree)
    (place location : Span) :
    Tree.once? location (.interpolatedRegularExpression flags parts place) =
      some (.interpolatedRegularExpression (flags ||| Flags.once) parts location) := rfl

theorem OnceAround.convert_eq_ok_iff {inner : Node} {wrappers : List Node}
    (h : OnceAround inner wrappers) {flags : Flags} {parts : List Tree} {place : Span}
    (hinner : inner.convert lines options scope none =
      .ok (.interpolatedRegularExpression flags parts place))
    {rest : List Node} (hwrappers : wrappers = n :: rest) {t : Tree} :
    n.convert lines options scope none = .ok t ↔ ∃ location, lines.span n = .ok location ∧
      (∀ m ∈ rest, ∃ s, lines.span m = .ok s) ∧
      t = .interpolatedRegularExpression (flags ||| Flags.once) parts location := by
  -- By induction on the wrappers: the first of them sets the bit, the others only the location.
  induction h generalizing n rest t with
  | once hkind hslot =>
    cases hwrappers
    simp only [convert_of_ONCE hkind hslot, hinner, Except.ok.injEq]
    constructor
    · rintro ⟨location, _, hlocation, rfl, honce⟩
      rw [once?_interpolatedRegularExpression] at honce
      exact ⟨location, hlocation, by simp, (Option.some.inj honce).symm⟩
    · rintro ⟨location, hlocation, _, rfl⟩
      exact ⟨location, _, hlocation, rfl, once?_interpolatedRegularExpression flags parts _ _⟩
  | again hkind hslot hrest ih =>
    cases hwrappers
    have hbit : flags ||| Flags.once ||| Flags.once = flags ||| Flags.once := by
      rw [UInt32.or_assoc, UInt32.or_self]
    simp only [convert_of_ONCE hkind hslot, ih rfl, List.forall_mem_cons]
    constructor
    · rintro ⟨location, _, hlocation, ⟨s, hs, hothers, rfl⟩, honce⟩
      rw [once?_interpolatedRegularExpression, hbit] at honce
      exact ⟨location, hlocation, ⟨⟨s, hs⟩, hothers⟩, (Option.some.inj honce).symm⟩
    · rintro ⟨location, hlocation, ⟨⟨s, hs⟩, hothers⟩, rfl⟩
      refine ⟨location, _, hlocation, ⟨s, hs, hothers, rfl⟩, ?_⟩
      rw [once?_interpolatedRegularExpression, hbit]

theorem regularExpression_of_convert (hkind : n.kind = .DREGX) {t : Tree}
    (h : n.convert lines options scope none = .ok t) :
    ∃ flags parts place, t = .interpolatedRegularExpression flags parts place := by
  have hkinds : n.kind ∈ [.DSTR, .DXSTR, .DSYM, .DREGX] := by simp [hkind]
  obtain ⟨_, shape, _, hshape⟩ := exists_shape_of_convert h
  obtain ⟨location, _, h⟩ := (convert_eq_ok_iff hshape).mp h
  obtain ⟨found, head, tail, bits, _, _, _, _, rfl⟩ := (shape_of_interpolation hkinds).mp hshape
  obtain ⟨parts, _, hform⟩ := (interpolation_eq_ok_iff hkinds).mp h
  rw [hkind] at hform
  cases hform
  exact ⟨_, parts, location, rfl⟩

/-- The parts of an interpolation are its fragments in order, however they are spread over its
slots; only an empty leading text leaves no part. Wrappers that ask for a regular expression to be
built once change nothing but that bit and the location. -/
theorem convert_interpolation (hkind : n.kind ∈ [.DSTR, .DXSTR, .DSYM, .DREGX]) :
    (∀ leading rest, n.Splits leading rest →
        (∀ t, n.convert lines options scope none = .ok t → ∃ parts, t.trees? "parts" = some parts ∧
          List.Forall₂ (Context.whole lines options scope).Part
            (leading.filter (!·.isBlank) ++ rest) parts) ∧
        ((∃ bits, n.optionBits = .ok bits) → (∃ s, lines.span n = .ok s) →
          (∀ nodes, n.Follows nodes → ∀ m ∈ nodes, m.FragmentConverts lines options scope) →
          n.Converts lines options scope)) ∧
      ∀ t, n.kind = .DREGX → n.convert lines options scope none = .ok t →
        ∃ flags parts place, t = .interpolatedRegularExpression flags parts place ∧
          ∀ wrapper rest, OnceAround n (wrapper :: rest) → ∀ u,
            wrapper.convert lines options scope none = .ok u ↔
              ∃ location, lines.span wrapper = .ok location ∧
                (∀ m ∈ rest, ∃ s, lines.span m = .ok s) ∧
                u = .interpolatedRegularExpression (flags ||| Flags.once) parts location := by
  constructor
  · intro leading rest hsplits
    exact ⟨fun t h => parts_of_splits hkind hsplits h, converts_of_splits hkind hsplits⟩
  · intro t hregexp h
    obtain ⟨flags, parts, place, rfl⟩ := regularExpression_of_convert hregexp h
    exact ⟨flags, parts, place, rfl, fun wrapper rest honce u => honce.convert_eq_ok_iff h rfl⟩

/-- `#{x}`. -/
def embeddedCall : Node := .make .EVSTR [.node (Build.named .VCALL ⟨"x"⟩ default)] default

/-- `#{}`. -/
def embeddedNothing : Node := .make .EVSTR [.nil] default

/-- `/a#{x}b#{}/`. -/
def regexpOfFour : Node :=
  .make .DREGX [.literal (.string "a"), .node embeddedCall,
    .node (Build.list [Build.string "b" default, embeddedNothing] default)] default

theorem convert_interpolation_regexpOfFour :
    let wrapper := Node.make .ONCE [.node (.make .ONCE [.node regexpOfFour] default)] default
    let rest := [Fragment.embedded embeddedCall, .text "b", .embedded embeddedNothing]
    regexpOfFour.Splits [.text "a"] rest ∧ ∃ flags parts,
      regexpOfFour.convert ⟨[], 0⟩ {} [] none =
        .ok (.interpolatedRegularExpression flags parts .null) ∧
      List.Forall₂ (Context.whole ⟨[], 0⟩ {} []).Part (.text "a" :: rest) parts ∧
      wrapper.convert ⟨[], 0⟩ {} [] none =
        .ok (.interpolatedRegularExpression (flags ||| Flags.once) parts .null) := by
  intro wrapper rest
  have hsplits : regexpOfFour.Splits [.text "a"] rest := by
    have hcall : embeddedCall.Holds (.embedded embeddedCall) := @Holds.embedded _ (some _) rfl rfl
    have hnothing : embeddedNothing.Holds (.embedded embeddedNothing) :=
      @Holds.embedded _ none rfl rfl
    refine ⟨.text, _, ⟨some embeddedCall, some _, [Build.string "b" default, embeddedNothing], rfl,
      rfl, ⟨rfl, rfl⟩, rfl⟩, ?_⟩
    exact .cons hcall (.cons (.text rfl rfl) (.cons hnothing .nil))
  obtain ⟨hparts, honce⟩ := @convert_interpolation ⟨[], 0⟩ {} [] regexpOfFour (by decide)
  obtain ⟨t, ht, hplace⟩ : ∃ t, regexpOfFour.convert ⟨[], 0⟩ {} [] none = .ok t ∧
    t.location = .null := ⟨_, rfl, rfl⟩
  obtain ⟨flags, parts, place, rfl, hwrapped⟩ := honce t rfl ht
  obtain ⟨found, hfound, hread⟩ := (hparts _ _ hsplits).1 _ ht
  cases hfound
  cases hplace
  exact ⟨hsplits, flags, _, ht, hread, (hwrapped wrapper _ (.again rfl rfl (.once rfl rfl)) _).mpr
    ⟨.null, rfl, List.forall_mem_singleton.mpr ⟨.null, rfl⟩, rfl⟩⟩

end Legacy.Node

end RubyTree
