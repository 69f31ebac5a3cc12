import RubyTree.Fault

/-! What a step of the conversion can yield. A postcondition is about the value of a step that
succeeds; a step that faults meets any. -/

namespace RubyTree

/-- If the step succeeds, its value satisfies `P`. -/
def Yields {α : Type} (x : Result α) (P : α → Prop) : Prop := ∀ a, x = .ok a → P a

section

variable {α β : Type} {P Q : α → Prop} {R : β → Prop}

theorem bind_eq_ok_iff {x : Result α} {f : α → Result β} {b : β} :
    x >>= f = .ok b ↔ ∃ a, x = .ok a ∧ f a = .ok b := by
  cases x with
  | error e => simp [bind, Except.bind]
  | ok a => simp [bind, Except.bind]

theorem pure_eq_ok_iff {a b : α} : (pure a : Result α) = .ok b ↔ b = a :=
  ⟨fun h => (Except.ok.inj h).symm, fun h => congrArg Except.ok h.symm⟩

namespace Yields

theorem pure {a : α} (h : P a) : Yields (Pure.pure a) P := by
  intro b hb
  cases hb
  exact h

theorem throw {e : Fault} : Yields (MonadExcept.throw e) P := by
  intro b hb
  cases hb

theorem mono {x : Result α} (h : Yields x P) (hPQ : ∀ a, P a → Q a) : Yields x Q :=
  fun a ha => hPQ a (h a ha)

theorem bind {x : Result α} {f : α → Result β} (hx : Yields x P)
    (hf : ∀ a, P a → Yields (f a) R) : Yields (x >>= f) R := by
  intro b hb
  obtain ⟨a, ha, hb⟩ := bind_eq_ok_iff.mp hb
  exact hf a (hx a ha) b hb

theorem after {x : Result α} {f : α → Result β} (hf : ∀ a, x = .ok a → Yields (f a) R) :
    Yields (x >>= f) R :=
  bind (fun _ ha => ha) hf

theorem mapM {f : α → Result β} {as : List α} (h : ∀ a ∈ as, Yields (f a) R) :
    Yields (as.mapM f) fun bs => ∀ b ∈ bs, R b := by
  induction as with
  | nil =>
    rw [List.mapM_nil]
    exact .pure (by simp)
  | cons a as ih =>
    rw [List.mapM_cons]
    refine .bind (h a (by simp)) fun b hb => .bind (ih fun a ha => h a (by simp [ha])) ?_
    intro bs hbs
    exact .pure (by simpa using ⟨hb, hbs⟩)

theorem mapM_map_eq {γ : Type} {f : α → Result β} {p : β → γ} {q : α → γ} {as : List α}
    (h : ∀ a ∈ as, Yields (f a) fun b => p b = q a) :
    Yields (as.mapM f) fun bs => bs.map p = as.map q := by
  induction as with
  | nil =>
    rw [List.mapM_nil]
    exact .pure rfl
  | cons a as ih =>
    rw [List.mapM_cons]
    refine .bind (h a (by simp)) fun b hb => .bind (ih fun a ha => h a (by simp [ha])) ?_
    intro bs hbs
    exact .pure (by rw [List.map_cons, List.map_cons, hb, hbs])

theorem and {x : Result α} (h : Yields x P) (h' : Yields x Q) : Yields x fun a => P a ∧ Q a :=
  fun a ha => ⟨h a ha, h' a ha⟩

end Yields

/-- The step succeeds, and its value satisfies `P`. -/
def Returns (x : Result α) (P : α → Prop) : Prop := ∃ a, x = .ok a ∧ P a

namespace Returns

theorem pure {a : α} (h : P a) : Returns (Pure.pure a) P := ⟨a, rfl, h⟩

theorem bind {x : Result α} {f : α → Result β} (hx : Returns x P)
    (hf : ∀ a, P a → Returns (f a) R) : Returns (x >>= f) R := by
  obtain ⟨a, rfl, ha⟩ := hx
  exact hf a ha

theorem after {x : Result α} {f : α → Result β} {a : α} (hx : x = .ok a)
    (hf : Returns (f a) R) : Returns (x >>= f) R := by
  subst hx
  exact hf

end Returns

theorem Yields.bind_congr {x : Result α} {f g : α → Result β} (hx : Yields x P)
    (h : ∀ a, P a → f a = g a) : x >>= f = x >>= g := by
  cases hv : x with
  | error e => rfl
  | ok a => exact h a (hx a hv)

theorem mapM_congr {f g : α → Result β} {as : List α} (h : ∀ a ∈ as, f a = g a) :
    as.mapM f = as.mapM g := by
  induction as with
  | nil => rfl
  | cons a as ih =>
    rw [List.mapM_cons, List.mapM_cons, h a (by simp), ih fun a ha => h a (by simp [ha])]

end

end RubyTree
