import Anon.Lib.Machine

/-!
# Simulations

A machine refines another one if a relation between their states holds initially, and every step of
the first machine leads to a state that is related to a state which the second one reaches, too.
`Reachable.refines` carries this over to runs; what holds of all states that the second machine
reaches then holds of the first one by way of the relation.
-/

namespace Anon.Machine

variable {σ τ α β : Type*} {M : Machine σ α} {N : Machine τ β} {C : σ → α → Prop}
  {D : τ → β → Prop} {R : σ → τ → Prop} {s : σ}

theorem Reachable.refines (h0 : R M.init N.init)
    (hstep : ∀ s t a, R s t → N.Reachable D t → C s a → M.enabled s a →
      ∃ t', R (M.next s a) t' ∧ N.Reachable D t')
    (hs : M.Reachable C s) : ∃ t, R s t ∧ N.Reachable D t := by
  apply hs.invariant (P := fun s => ∃ t, R s t ∧ N.Reachable D t)
  · exact ⟨N.init, h0, .init⟩
  · intro s a ⟨t, hst, ht⟩ hc he
    exact hstep s t a hst ht hc he

end Anon.Machine
