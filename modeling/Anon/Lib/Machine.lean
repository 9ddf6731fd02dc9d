import Mathlib.Data.List.Basic
import Mathlib.Logic.Function.Basic

/-!
# Machines and their runs

A `Machine` is a transition system whose steps are labelled by actions. An action has a
guard (`enabled`) and an effect (`next`), so a system of several parties is described by one
guarded action for each atomic step of a party, and a run is any interleaving of them.

* `Machine.Runs C h s`: the history `h` (newest action first) leads from the initial state to
  `s`, and every step meets the condition `C` in the state before it. `Machine.Reachable C s`
  forgets the history.
* `Runs.invariant` and `Reachable.invariant` are the induction rules: what holds initially and
  is kept by one step holds in every state of every run.
* `Machine.replay` executes a list of actions; `reachable_of_replay` turns a computed replay
  into a reachable state.
-/

namespace Anon

/-- A transition system with guarded, labelled steps. -/
structure Machine (σ α : Type*) where
  /-- The initial state. -/
  init : σ
  /-- The guard of an action. -/
  enabled : σ → α → Prop
  /-- The effect of an action, meaningful where the action is enabled. -/
  next : σ → α → σ

namespace Machine

variable {σ α : Type*} {M : Machine σ α} {C D : σ → α → Prop} {h : List α} {s : σ}

/-- `M.Runs C h s`: the actions `h`, newest first, lead from `M.init` to `s`, each of them
enabled and meeting `C` in the state it is taken in. -/
inductive Runs (M : Machine σ α) (C : σ → α → Prop) : List α → σ → Prop
  | init : Runs M C [] M.init
  | step {h : List α} {s : σ} {a : α} (hr : Runs M C h s) (hc : C s a) (he : M.enabled s a) :
      Runs M C (a :: h) (M.next s a)

/-- `s` is reached by some run whose steps all meet `C`. -/
def Reachable (M : Machine σ α) (C : σ → α → Prop) (s : σ) : Prop := ∃ h, M.Runs C h s

/-- The condition that every step meets. -/
def anyStep (_ : σ) (_ : α) : Prop := True

instance (s : σ) (a : α) : Decidable (anyStep s a) := inferInstanceAs (Decidable True)

/-- A property of histories and states that holds initially and is kept by every step holds
along every run. -/
theorem Runs.invariant {P : List α → σ → Prop} (h0 : P [] M.init)
    (hstep : ∀ h s a, M.Runs C h s → P h s → C s a → M.enabled s a → P (a :: h) (M.next s a))
    (hr : M.Runs C h s) : P h s := by
  induction hr with
  | init => exact h0
  | step hr hc he ih => exact hstep _ _ _ hr ih hc he

/-- A property of states that holds initially and is kept by every step holds in every
reachable state. -/
theorem Reachable.invariant {P : σ → Prop} (h0 : P M.init)
    (hstep : ∀ s a, P s → C s a → M.enabled s a → P (M.next s a))
    (hs : M.Reachable C s) : P s := by
  obtain ⟨h, hr⟩ := hs
  exact hr.invariant (P := fun _ s => P s) h0 fun _ s a _ hp hc he => hstep s a hp hc he

theorem Reachable.init : M.Reachable C M.init := ⟨[], .init⟩

theorem Reachable.step {a : α} (hs : M.Reachable C s) (hc : C s a) (he : M.enabled s a) :
    M.Reachable C (M.next s a) := by
  obtain ⟨h, hr⟩ := hs
  exact ⟨a :: h, hr.step hc he⟩

/-- A weaker condition allows more runs. -/
theorem Reachable.mono (hCD : ∀ s a, C s a → D s a) (hs : M.Reachable C s) :
    M.Reachable D s := by
  obtain ⟨h, hr⟩ := hs
  refine ⟨h, ?_⟩
  induction hr with
  | init => exact .init
  | step hr hc he ih => exact ih.step (hCD _ _ hc) he

section Replay

variable [∀ s a, Decidable (M.enabled s a)] [∀ s a, Decidable (C s a)]

/-- Execute a list of actions, oldest first; `none` if one of them is not enabled or breaks
the condition. -/
def replay (M : Machine σ α) (C : σ → α → Prop) [∀ s a, Decidable (M.enabled s a)]
    [∀ s a, Decidable (C s a)] : List α → σ → Option σ
  | [], s => some s
  | a :: as, s => if C s a ∧ M.enabled s a then replay M C as (M.next s a) else none

theorem replay_reachable {as : List α} {t : σ} (hs : M.Reachable C s)
    (ht : M.replay C as s = some t) : M.Reachable C t := by
  induction as generalizing s with
  | nil =>
    simp only [replay, Option.some.injEq] at ht
    exact ht ▸ hs
  | cons a as ih =>
    rw [replay] at ht
    split at ht
    · next hg => exact ih (hs.step hg.1 hg.2) ht
    · exact absurd ht (by simp)

/-- A computed replay ending in a state where `p` holds gives a reachable such state. -/
theorem reachable_of_replay {l : List α} {p : σ → Bool}
    (h : (M.replay C l M.init).any p = true) : ∃ s, M.Reachable C s ∧ p s = true := by
  cases hr : M.replay C l M.init with
  | none => simp [hr] at h
  | some s =>
    simp only [hr, Option.any_some] at h
    exact ⟨s, replay_reachable .init hr, h⟩

end Replay

end Machine
end Anon
