import Mathlib.Data.Set.Basic
import RubyTree.Proofs.ArgumentOrder
import RubyTree.Proofs.Bound

/-! Which nodes a step of the conversion asks for. A step succeeds only if all nodes of its
footprint are converted, and it has the same result in any two contexts that convert them alike. -/

namespace RubyTree

open Canonical (Tree)
open Legacy (Node Table)

theorem Context.Agree.mono {D E : Node → Prop} {c d : Context} (h : Agree D c d)
    (hE : ∀ n, E n → D n) : Agree E c d :=
  ⟨h.lines, h.options, h.scope, fun scope n pending hn => h.convert scope n pending (hE n hn)⟩

/-- The node is converted in some scope and with some block to attach. -/
def Context.Converts (c : Context) (n : Node) : Prop :=
  ∃ scope pending t, c.convert scope n pending = .ok t

/-- The step asks for the conversion of these nodes and of no others. -/
structure Footprint (options : Options) (P : Set Node) {α : Type} (f : Context → Result α) :
    Prop where
  asks : ∀ {c : Context} {a : α}, c.options = options → f c = .ok a → ∀ m ∈ P, c.Converts m
  only : ∀ {c d : Context}, c.options = options → Context.Agree (· ∈ P) c d → f d = f c

def nodesOf {α : Type} (x : Result α) (Q : α → Set Node) : Set Node :=
  {m | ∃ a, x = .ok a ∧ m ∈ Q a}

theorem nodesOf_ok {α : Type} {x : Result α} {a : α} (h : x = .ok a) (Q : α → Set Node) :
    nodesOf x Q = Q a := by
  ext m
  constructor
  · rintro ⟨b, hb, hm⟩
    cases h.symm.trans hb
    exact hm
  · intro hm
    exact ⟨a, h, hm⟩

namespace Footprint

variable {options : Options} {P Q : Set Node} {α β : Type} {f : Context → Result α}
  {g : α → Context → Result β}

theorem throw {e : Fault} : Footprint options P fun _ => (throw e : Result α) where
  asks _ h := nomatch h
  only _ _ := rfl

theorem of_eq (h : Footprint options P f) (heq : P = Q) : Footprint options Q f :=
  heq ▸ h

/-- A step that converts no node reads the same in all contexts that have the rest in common. -/
theorem of_agree (h : ∀ {c d : Context}, Context.Agree (fun _ => False) c d → f d = f c) :
    Footprint options ∅ f where
  asks _ _ _ hm := hm.elim
  only _ hagree := h hagree

theorem const (x : Result α) : Footprint options ∅ fun _ => x :=
  .of_agree fun _ => rfl

theorem bind (hf : Footprint options P f) (hg : ∀ a, Footprint options Q (g a)) :
    Footprint options (P ∪ Q) fun c => f c >>= fun a => g a c where
  asks hc h m hm := by
    obtain ⟨a, ha, h⟩ := bind_eq_ok_iff.mp h
    cases hm with
    | inl hm => exact hf.asks hc ha m hm
    | inr hm => exact (hg a).asks hc h m hm
  only {c d} hc h := by
    have hfirst := hf.only hc (h.mono fun _ => Or.inl)
    have hnext (a : α) := (hg a).only hc (h.mono fun _ => Or.inr)
    simp only [hfirst, hnext]

theorem after (hf : Footprint options ∅ f) (hg : ∀ a, Footprint options P (g a)) :
    Footprint options P fun c => f c >>= fun a => g a c :=
  (hf.bind hg).of_eq (Set.empty_union P)

theorem andThen (hf : Footprint options P f) (hg : ∀ a, Footprint options ∅ (g a)) :
    Footprint options P fun c => f c >>= fun a => g a c :=
  (hf.bind hg).of_eq (Set.union_empty P)

/-- What does not depend on the context is known to the steps that follow. -/
theorem read {x : Result α} (hg : ∀ a, x = .ok a → Footprint options P (g a)) :
    Footprint options P fun c => x >>= fun a => g a c where
  asks hc h := by
    obtain ⟨a, ha, h⟩ := bind_eq_ok_iff.mp h
    exact (hg a ha).asks hc h
  only {c d} hc h := by
    cases hx : x with
    | error e => rfl
    | ok a => exact (hg a hx).only hc h

theorem reads {x : Result α} {Q : α → Set Node} (hg : ∀ a, Footprint options (Q a) (g a)) :
    Footprint options (nodesOf x Q) fun c => x >>= fun a => g a c :=
  .read fun a ha => (hg a).of_eq (nodesOf_ok ha Q).symm

theorem mapM {Q : α → Set Node} {as : List α} (hg : ∀ a ∈ as, Footprint options (Q a) (g a)) :
    Footprint options {m | ∃ a ∈ as, m ∈ Q a} fun c => as.mapM fun a => g a c := by
  induction as with
  | nil => exact (const (pure [])).of_eq (by simp)
  | cons a as ih =>
    have hrest := ih fun b hb => hg b (List.mem_cons_of_mem a hb)
    have h : Footprint options (Q a ∪ {m | ∃ b ∈ as, m ∈ Q b})
        fun c => (a :: as).mapM fun b => g b c := by
      simp only [List.mapM_cons]
      exact (hg a List.mem_cons_self).bind fun _ => hrest.andThen fun _ => .const _
    refine h.of_eq ?_
    ext m
    simp

theorem nested (h : Footprint options P f) (table : Table) :
    Footprint options P fun c => f (c.nested table) where
  asks {c _} hc hf m hm := h.asks (c := c.nested table) hc hf m hm
  only hc hagree := h.only hc (hagree.nested table)

theorem fresh (h : Footprint options P f) (table : Table) :
    Footprint options P fun c => f (c.fresh table) where
  asks {c _} hc hf m hm := h.asks (c := c.fresh table) hc hf m hm
  only hc hagree := h.only hc (hagree.fresh table)

theorem span (n : Node) : Footprint options ∅ (·.span n) :=
  .of_agree fun h => h.span n

theorem spanOf? (o : Option Node) : Footprint options ∅ (·.spanOf? o) :=
  .of_agree fun h => h.spanOf? o

theorem converted (n : Node) (pending : Option Tree) :
    Footprint options {n} fun c => c.convert c.scope n pending where
  asks _ h m hm := by
    cases hm
    exact ⟨_, _, _, h⟩
  only {c d} _ h := by
    simp only [h.scope]
    exact h.convert c.scope n pending rfl

theorem node (n : Node) : Footprint options {n} (·.node n) :=
  converted n none

end Footprint

end RubyTree
