import RubyTree.Proofs.Bound
import RubyTree.Proofs.ConstantPaths
import RubyTree.Proofs.Grammar
import RubyTree.Proofs.SplatFlags

/-! Well-formed trees: those that follow the grammar, whose locals resolve, whose flags tell the
splats and whose constant paths are those of the legacy tree. All are shown at once, since all are
about where the conversion puts a tree. -/

namespace RubyTree

open Legacy (Node)
open Legacy.Node (Closed Optional)

namespace Canonical

/-- Where a tree stands: what it may refer to, and what it may be. -/
structure Site where
  frames : Frames
  place : Place

/-- What is asked of a node by itself, wherever it stands. -/
structure Tree.Sound (run : Run) (t : Tree) : Prop where
  splats : t.SplatsFlagged
  path : t.PathWritten run

def Formed (run : Run) (site : Site) (t : Tree) : Prop :=
  t.Every
    (fun site u label inner => Frames.Enters run site.frames u label inner.frames ∧
      inner.place = u.kind.childPlace site.place label)
    (fun site u => Frames.Passes site.frames u ∧ site.place.admits u.kind = true ∧
      u.Sound run) site

def Kind.isOrdinary (kind : Kind) : Bool := !kind.countsSplats && !kind.writesPath

def Kind.isSimple (kind : Kind) : Bool := !kind.refersToLocal && kind.isOrdinary

def FormedOpt (run : Run) (site : Site) (o : Option Tree) : Prop :=
  ∀ t, o = some t → Formed run site t

def FormedAll (run : Run) (site : Site) (ts : List Tree) : Prop :=
  ∀ t ∈ ts, Formed run site t

section

variable {run : Run} {site : Site} {frames : Frames} {place : Place} {kind : Kind}
  {fields : Fields kind.fields} {location : Span} {t : Tree}

@[simp] theorem formedOpt_none : FormedOpt run site none := by
  intro t ht
  cases ht

@[simp] theorem formedOpt_some : FormedOpt run site (some t) ↔ Formed run site t := by
  simp [FormedOpt]

@[simp] theorem formedAll_nil : FormedAll run site [] := by
  simp [FormedAll]

@[simp] theorem formedAll_cons {ts : List Tree} :
    FormedAll run site (t :: ts) ↔ Formed run site t ∧ FormedAll run site ts := by
  simp [FormedAll]

@[simp] theorem formedAll_append {ts us : List Tree} :
    FormedAll run site (ts ++ us) ↔ FormedAll run site ts ∧ FormedAll run site us := by
  simp [FormedAll, or_imp, forall_and]

@[simp] theorem formed_of_child_tree {u : Tree} :
    (∀ t, (Value.tree u).Child t → Formed run site t) ↔ Formed run site u :=
  ⟨fun h => h u rfl, fun h _ ht => ht ▸ h⟩

@[simp] theorem formed_of_child_optTree {o : Option Tree} :
    (∀ t, (Value.optTree o).Child t → Formed run site t) ↔ FormedOpt run site o := Iff.rfl

@[simp] theorem formed_of_child_trees {ts : List Tree} :
    (∀ t, (Value.trees ts).Child t → Formed run site t) ↔ FormedAll run site ts := Iff.rfl

theorem sound_of_isOrdinary (h : kind.isOrdinary = true) :
    (Tree.mk kind fields location).Sound run := by
  obtain ⟨hcounts, hwrites⟩ := Bool.and_eq_true_iff.mp h
  exact ⟨splatsFlagged_of_not_countsSplats (by simpa using hcounts),
    pathWritten_of_not_writesPath (by simpa using hwrites)⟩

namespace Formed

theorem toGrammatical (h : Formed run ⟨frames, .program⟩ t) : t.Grammatical :=
  Tree.Every.map Site.place (fun _ _ h => h.2.1) (fun _ _ _ _ h => h.2) h

theorem toScoped (h : Formed run ⟨[], place⟩ t) : t.Scoped run :=
  Tree.Every.map Site.frames (fun _ _ h => h.1) (fun _ _ _ _ h => h.1) h

theorem splatsFlagged (h : Formed run site t) {u : Tree} (hu : t.Contains u) :
    u.SplatsFlagged := by
  obtain ⟨_, hevery⟩ := Tree.Every.of_contains h hu
  exact hevery.here.2.2.splats

theorem pathWritten (h : Formed run site t) {u : Tree} (hu : t.Contains u) :
    u.PathWritten run := by
  obtain ⟨_, hevery⟩ := Tree.Every.of_contains h hu
  exact hevery.here.2.2.path

theorem admits (h : Formed run site t) : site.place.admits t.kind = true :=
  (Tree.Every.here h).2.1

theorem of_children (hkind : kind ≠ .postExecutionNode)
    (hpasses : frames.Passes (.mk kind fields location)) (hadmits : place.admits kind = true)
    (hsound : (Tree.mk kind fields location).Sound run)
    (hbelow : ∀ label t, fields.Child label t →
      Formed run ⟨frames.inside (.mk kind fields location) label, kind.childPlace place label⟩ t) :
    Formed run ⟨frames, place⟩ (.mk kind fields location) :=
  .node _ ⟨hpasses, hadmits, hsound⟩ (fun _ => ⟨(if_neg hkind).mpr rfl, rfl⟩) hbelow

theorem of_unframed (hopens : kind.opensFrame = false)
    (hpasses : frames.Passes (.mk kind fields location)) (hadmits : place.admits kind = true)
    (hsound : (Tree.mk kind fields location).Sound run)
    (hbelow : ∀ label t, fields.Child label t →
      Formed run ⟨frames, kind.childPlace place label⟩ t) :
    Formed run ⟨frames, place⟩ (.mk kind fields location) := by
  have hkind : kind ≠ .postExecutionNode := by
    rintro rfl
    cases hopens
  refine of_children hkind hpasses hadmits hsound ?_
  simpa only [Frames.inside_of_not_opensFrame hopens] using hbelow

theorem plain (hopens : kind.opensFrame = false) (hsimple : kind.isSimple = true)
    (hadmits : place.admits kind = true)
    (hbelow : ∀ label t, fields.Child label t →
      Formed run ⟨frames, kind.childPlace place label⟩ t) :
    Formed run ⟨frames, place⟩ (.mk kind fields location) := by
  obtain ⟨hrefers, hordinary⟩ := (Bool.and_eq_true_iff).mp hsimple
  exact of_unframed hopens (Frames.passes_of_not_refersToLocal (by simpa using hrefers)) hadmits
    (sound_of_isOrdinary hordinary) hbelow

theorem arguments {flags : Flags} {trees : List Tree} (hflags : flags.TellSplats trees)
    (htrees : FormedAll run ⟨frames, .argument⟩ trees) :
    Formed run ⟨frames, .arguments⟩ (.arguments flags trees location) :=
  of_unframed rfl (Frames.passes_of_not_refersToLocal rfl) rfl
    ⟨splatsFlagged_arguments hflags, pathWritten_of_not_writesPath rfl⟩ (by simpa using htrees)

theorem array {flags : Flags} {trees : List Tree}
    (hflags : flags.contains Flags.arrayContainsSplat = true ↔ 1 ≤ trees.countP Tree.isSplat)
    (htrees : FormedAll run ⟨frames, .argument⟩ trees) :
    Formed run ⟨frames, .expression⟩ (.array flags trees location) :=
  of_unframed rfl (Frames.passes_of_not_refersToLocal rfl) rfl
    ⟨splatsFlagged_array hflags, pathWritten_of_not_writesPath rfl⟩ (by simpa using htrees)

/-- The children of a node stay where they are when it moves to another place that admits it, unless
what they are depends on the place. -/
theorem move {other : Place} (h : Formed run ⟨frames, place⟩ t)
    (hsteady : ∀ label, t.kind.childPlace other label = t.kind.childPlace place label)
    (hadmits : other.admits t.kind = true) : Formed run ⟨frames, other⟩ t := by
  cases h with
  | node inner here enters below =>
    exact .node inner ⟨here.1, hadmits, here.2.2⟩
      (fun label => ⟨(enters label).1, (enters label).2.trans (hsteady label).symm⟩) below

theorem ofExpression (h : Formed run ⟨frames, .expression⟩ t)
    (hadmits : place.admits t.kind = true) : Formed run ⟨frames, place⟩ t :=
  h.move (fun _ => Kind.childPlace_eq_of_isExpression h.admits) hadmits

theorem asArgument (h : Formed run ⟨frames, .expression⟩ t) : Formed run ⟨frames, .argument⟩ t :=
  h.ofExpression (by simpa [Place.admits] using .inl h.admits)

theorem not_isSplat (h : Formed run ⟨frames, .expression⟩ t) : t.isSplat = false := by
  refine beq_eq_false_iff_ne.mpr fun hkind => ?_
  have hexpression : t.kind.isExpression = true := h.admits
  rw [hkind] at hexpression
  cases hexpression

theorem asOnlyArgument (h : Formed run ⟨frames, .expression⟩ t) :
    Formed run ⟨frames, .arguments⟩ (.arguments Flags.empty [t] location) :=
  arguments (tellSplats_empty (by simp [h.not_isSplat])) (by simpa using h.asArgument)

theorem asFragment (h : Formed run ⟨frames, .expression⟩ t) : Formed run ⟨frames, .fragment⟩ t :=
  h.ofExpression (by simpa [Place.admits] using .inl h.admits)

theorem ofKind {other : Place} (h : Formed run ⟨frames, place⟩ t) (hkind : t.kind = kind)
    (hsteady : ∀ label, kind.childPlace other label = kind.childPlace place label)
    (hadmits : other.admits kind = true) : Formed run ⟨frames, other⟩ t := by
  subst hkind
  exact h.move hsteady hadmits

theorem asTarget (h : Formed run ⟨frames, .variableTarget⟩ t) :
    Formed run ⟨frames, .target⟩ t :=
  h.move (fun _ => Kind.childPlace_eq_of_isVariableTarget h.admits)
    (by simpa [Place.admits] using .inl h.admits)

theorem attachedBlock {pending passed : Option Tree}
    (hpending : FormedOpt run ⟨frames, .literalBlock⟩ pending)
    (hpassed : FormedOpt run ⟨frames, .blockArgument⟩ passed) :
    FormedOpt run ⟨frames, .callBlock⟩ (pending.or passed) := by
  intro t ht
  cases pending with
  | some block =>
    cases ht
    have h := formedOpt_some.mp hpending
    have hkind : t.kind = .blockNode := by simpa [Place.admits] using h.admits
    exact h.ofKind hkind (fun _ => rfl) rfl
  | none =>
    have h := hpassed t ht
    have hkind : t.kind = .blockArgumentNode := by simpa [Place.admits] using h.admits
    exact h.ofKind hkind (fun _ => rfl) rfl

theorem withLocation (h : Formed run site t) (hkind : t.kind ≠ .postExecutionNode) :
    Formed run site (t.withLocation location) := by
  cases h with
  | node inner here enters below =>
    refine .node inner ⟨here.1, here.2.1, here.2.2.splats.withLocation, here.2.2.path.withLocation⟩
      (fun label => ⟨?_, (enters label).2⟩) below
    have hinner := (if_neg hkind).mp (enters label).1
    exact (if_neg hkind).mpr hinner

theorem once? {u : Tree} (h : Formed run site t) (hu : Tree.once? location t = some u) :
    Formed run site u := by
  cases h with
  | @node _ kind fields _ inner here enters below =>
    cases kind with
    | interpolatedRegularExpressionNode =>
      cases fields with
      | cons value values =>
        cases value with
        | flags flags =>
          cases hu
          refine .node inner ⟨Frames.passes_of_not_refersToLocal rfl, here.2.1,
            sound_of_isOrdinary rfl⟩ ?_ ?_
          · exact fun label => ⟨(enters label).1, (enters label).2⟩
          · simpa using below
    | _ => cases hu

end Formed

def Variable.Resolves (frames : Frames) : Variable → Prop
  | .localVariable name depth => frames.Resolves name depth ∧ depth < frames.length
  | _ => True

namespace Formed

variable {v : Variable} {value : Tree}

theorem reference {name : Name} {depth : Nat} (hopens : kind.opensFrame = false)
    (hordinary : kind.isOrdinary = true)
    (hreference : (Tree.mk kind fields location).localReference? = some (name, depth))
    (hv : (Variable.localVariable name depth).Resolves frames)
    (hadmits : place.admits kind = true)
    (hbelow : ∀ label t, fields.Child label t →
      Formed run ⟨frames, kind.childPlace place label⟩ t) :
    Formed run ⟨frames, place⟩ (.mk kind fields location) :=
  of_unframed hopens (fun _ => ⟨name, depth, hreference, hv⟩) hadmits
    (sound_of_isOrdinary hordinary) hbelow

theorem read (hv : v.Resolves frames) : Formed run ⟨frames, .expression⟩ (.read location v) := by
  cases v with
  | localVariable name depth => exact reference rfl rfl rfl hv rfl (by simp)
  | _ => exact plain rfl rfl rfl (by simp)

theorem target (hv : v.Resolves frames) :
    Formed run ⟨frames, .variableTarget⟩ (.target location v) := by
  cases v with
  | localVariable name depth => exact reference rfl rfl rfl hv rfl (by simp)
  | _ => exact plain rfl rfl rfl (by simp)

theorem write (hv : v.Resolves frames) (h : Formed run ⟨frames, .expression⟩ value) :
    Formed run ⟨frames, .expression⟩ (.write value location v) := by
  cases v with
  | localVariable name depth => exact reference rfl rfl rfl hv rfl (by simpa using h)
  | _ => exact plain rfl rfl rfl (by simpa using h)

theorem andWrite (hv : v.Resolves frames) (h : Formed run ⟨frames, .expression⟩ value) :
    Formed run ⟨frames, .expression⟩ (.andWrite value location v) := by
  cases v with
  | localVariable name depth => exact reference rfl rfl rfl hv rfl (by simpa using h)
  | _ => exact plain rfl rfl rfl (by simpa using h)

theorem orWrite (hv : v.Resolves frames) (h : Formed run ⟨frames, .expression⟩ value) :
    Formed run ⟨frames, .expression⟩ (.orWrite value location v) := by
  cases v with
  | localVariable name depth => exact reference rfl rfl rfl hv rfl (by simpa using h)
  | _ => exact plain rfl rfl rfl (by simpa using h)

/-! Nodes with a frame of their own. -/

variable {locals : List Name} {name : Name} {path expression statements : Tree}
  {parameters body receiver superclass : Option Tree}

theorem program (h : Formed run ⟨[locals], .statements⟩ statements) :
    Formed run ⟨frames, .program⟩ (.program locals statements location) :=
  of_children (by decide) (Frames.passes_of_not_refersToLocal rfl) rfl
    (sound_of_isOrdinary rfl)
    (by simpa [Frames.inside, Tree.kind, Tree.locals, Fields.get?, Value.names?] using h)

theorem block (hparameters : FormedOpt run ⟨locals :: frames, .blockParameters⟩ parameters)
    (hbody : FormedOpt run ⟨locals :: frames, .body⟩ body) :
    Formed run ⟨frames, .literalBlock⟩ (.block locals parameters body location) :=
  of_children (by decide) (Frames.passes_of_not_refersToLocal rfl) rfl
    (sound_of_isOrdinary rfl)
    (by simpa using ⟨hparameters, hbody⟩)

theorem lambda (hparameters : FormedOpt run ⟨locals :: frames, .blockParameters⟩ parameters)
    (hbody : FormedOpt run ⟨locals :: frames, .body⟩ body) :
    Formed run ⟨frames, .expression⟩ (.lambda locals parameters body location) :=
  of_children (by decide) (Frames.passes_of_not_refersToLocal rfl) rfl
    (sound_of_isOrdinary rfl)
    (by simpa using ⟨hparameters, hbody⟩)

theorem method (hreceiver : FormedOpt run ⟨frames, .expression⟩ receiver)
    (hparameters : FormedOpt run ⟨[locals], .parameters⟩ parameters)
    (hbody : FormedOpt run ⟨[locals], .body⟩ body) :
    Formed run ⟨frames, .expression⟩ (.method name receiver parameters body locals location) :=
  of_children (by decide) (Frames.passes_of_not_refersToLocal rfl) rfl
    (sound_of_isOrdinary rfl)
    (by simpa using ⟨hreceiver, hparameters, hbody⟩)

theorem classDefinition (hpath : Formed run ⟨frames, .declaredPath⟩ path)
    (hsuperclass : FormedOpt run ⟨frames, .expression⟩ superclass)
    (hbody : FormedOpt run ⟨[locals], .body⟩ body) :
    Formed run ⟨frames, .expression⟩
      (.classDefinition locals path superclass body name location) :=
  of_children (by decide) (Frames.passes_of_not_refersToLocal rfl) rfl
    (sound_of_isOrdinary rfl)
    (by simpa using ⟨hpath, hsuperclass, hbody⟩)

theorem moduleDefinition (hpath : Formed run ⟨frames, .declaredPath⟩ path)
    (hbody : FormedOpt run ⟨[locals], .body⟩ body) :
    Formed run ⟨frames, .expression⟩ (.moduleDefinition locals path body name location) :=
  of_children (by decide) (Frames.passes_of_not_refersToLocal rfl) rfl
    (sound_of_isOrdinary rfl)
    (by simpa using ⟨hpath, hbody⟩)

theorem singletonClass (hexpression : Formed run ⟨frames, .expression⟩ expression)
    (hbody : FormedOpt run ⟨[locals], .body⟩ body) :
    Formed run ⟨frames, .expression⟩ (.singletonClass locals expression body location) :=
  of_children (by decide) (Frames.passes_of_not_refersToLocal rfl) rfl
    (sound_of_isOrdinary rfl)
    (by simpa using ⟨hexpression, hbody⟩)

theorem postExecution {table : Legacy.Table}
    (hends : run.Ends frames (.postExecution body location) table)
    (hbody : FormedOpt run ⟨Parameters.names table :: frames, .statements⟩ body) :
    Formed run ⟨frames, .expression⟩ (.postExecution body location) := by
  refine .node (fun label => ⟨Parameters.names table :: frames,
    Kind.postExecutionNode.childPlace .expression label⟩) ?_ ?_ ?_
  · exact ⟨Frames.passes_of_not_refersToLocal rfl, rfl, sound_of_isOrdinary rfl⟩
  · exact fun label => ⟨(if_pos rfl).mpr ⟨table, hends, rfl⟩, rfl⟩
  · change ∀ label t, Fields.Child _ label t → Formed run _ t
    simpa using hbody

end Formed

end

end Canonical

end RubyTree
