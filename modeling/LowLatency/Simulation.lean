import LowLatency.GuardedRun

namespace LowLatency

variable {σ τ γ δ ε ε' : Type}

/-- Every guarded call of the first system is answered by guarded calls of the second, which add up to
what is counted for it. -/
def Simulates (step : σ → γ → Except ε σ) (ok : σ → γ → Prop) (gain : σ → σ → ℕ)
    (step' : τ → δ → Except ε' τ) (ok' : τ → δ → Prop) (gain' : τ → τ → ℕ) (R : σ → τ → Prop) : Prop :=
  ∀ s c s' t, R s t → ok s c → step s c = .ok s' →
    ∃ ds t', Guarded step' ok' t ds ∧ ds.foldlM step' t = .ok t' ∧ R s' t' ∧
      runSum step' gain' t ds = gain s s'

section Concat

variable {step : σ → γ → Except ε σ} {ok : σ → γ → Prop} {s s₁ s' : σ} {cs ds : List γ}

theorem foldlM_append_ok (h : cs.foldlM step s = .ok s₁) (h' : ds.foldlM step s₁ = .ok s') :
    (cs ++ ds).foldlM step s = .ok s' := by
  rw [List.foldlM_append, h]
  exact h'

theorem Guarded.trans (h : Guarded step ok s cs) (hrun : cs.foldlM step s = .ok s₁)
    (h' : Guarded step ok s₁ ds) : Guarded step ok s (cs ++ ds) := by
  induction cs generalizing s with
  | nil =>
    obtain rfl := Except.ok.inj hrun
    exact h'
  | cons c cs ih =>
    cases hc : step s c with
    | error e =>
      rw [List.foldlM_cons, hc] at hrun
      cases hrun
    | ok s₂ =>
      rw [List.foldlM_cons, hc] at hrun
      obtain ⟨hok, hcs⟩ := (Guarded.cons_ok hc).mp h
      exact (Guarded.cons_ok hc).mpr ⟨hok, ih hcs hrun⟩

end Concat

/-- What one call does, a whole run does. -/
theorem Simulates.run {step : σ → γ → Except ε σ} {ok : σ → γ → Prop} {gain : σ → σ → ℕ}
    {step' : τ → δ → Except ε' τ} {ok' : τ → δ → Prop} {gain' : τ → τ → ℕ} {R : σ → τ → Prop} {s s' : σ}
    {t : τ} {cs : List γ} (h : Simulates step ok gain step' ok' gain' R) (hR : R s t)
    (hok : Guarded step ok s cs) (hrun : cs.foldlM step s = .ok s') :
    ∃ ds t', Guarded step' ok' t ds ∧ ds.foldlM step' t = .ok t' ∧ R s' t' ∧
      runSum step' gain' t ds = runSum step gain s cs := by
  induction cs generalizing s t with
  | nil =>
    rw [← Except.ok.inj hrun]
    exact ⟨[], t, trivial, rfl, hR, rfl⟩
  | cons c cs ih =>
    rw [List.foldlM_cons] at hrun
    cases hc : step s c with
    | error e =>
      rw [hc] at hrun
      cases hrun
    | ok s₁ =>
      rw [hc] at hrun
      obtain ⟨hokc, hokcs⟩ := (Guarded.cons_ok hc).mp hok
      obtain ⟨ds, t₁, hds, hrun₁, hR₁, hsum⟩ := h s c s₁ t hR hokc hc
      obtain ⟨ds', t₂, hds', hrun₂, hR₂, hsum'⟩ := ih hR₁ hokcs hrun
      refine ⟨ds ++ ds', t₂, hds.trans hrun₁ hds', foldlM_append_ok hrun₁ hrun₂, hR₂, ?_⟩
      simp only [runSum, hc]
      rw [runSum_append hrun₁, hsum, hsum']

/-- The second system answers the calls that `p` picks out, and takes no notice of the others. -/
structure Projects (step : σ → γ → Except ε σ) (step' : τ → γ → Except ε' τ) (p : γ → Prop)
    (R : σ → τ → Prop) : Prop where
  own {s c s' t} : p c → R s t → step s c = .ok s' → ∃ t', step' t c = .ok t' ∧ R s' t'
  other {s c s' t} : ¬ p c → R s t → step s c = .ok s' → R s' t

theorem Projects.run {step : σ → γ → Except ε σ} {step' : τ → γ → Except ε' τ} {p : γ → Prop}
    [DecidablePred p] {R : σ → τ → Prop} {s s' : σ} {t : τ} {cs : List γ}
    (h : Projects step step' p R) (hR : R s t) (hrun : cs.foldlM step s = .ok s') :
    ∃ t', (cs.filter p).foldlM step' t = .ok t' ∧ R s' t' := by
  refine run_history (I := fun cs s ↦ ∃ t', (cs.filter p).foldlM step' t = .ok t' ∧ R s t')
    ⟨t, rfl, hR⟩ ?_ hrun
  intro cs c s₁ s₂ ⟨t₁, hrun₁, hR₁⟩ hstep
  rw [List.filter_append]
  by_cases hc : p c
  · obtain ⟨t₂, hstep', hR₂⟩ := h.own hc hR₁ hstep
    have hone : [c].filter p = [c] := by simp [hc]
    rw [hone]
    exact ⟨t₂, (foldlM_concat step' t _ c hrun₁).trans hstep', hR₂⟩
  · have hnone : [c].filter p = [] := by simp [hc]
    rw [hnone, List.append_nil]
    exact ⟨t₁, hrun₁, h.other hc hR₁ hstep⟩

end LowLatency
