import Mathlib.Tactic

namespace LowLatency

variable {σ γ ε : Type} {step : σ → γ → Except ε σ} {ok : σ → γ → Prop} {s s' : σ}
  {c : γ} {cs ds : List γ}

/-- Every call of the run from `s` meets `ok` in the state in which it is made. -/
def Guarded (step : σ → γ → Except ε σ) (ok : σ → γ → Prop) : σ → List γ → Prop
  | _, [] => True
  | s, c :: cs => ok s c ∧ match step s c with
    | .ok s' => Guarded step ok s' cs
    | .error _ => True

instance Guarded.decidable [∀ s c, Decidable (ok s c)] :
    ∀ (s : σ) (cs : List γ), Decidable (Guarded step ok s cs)
  | _, [] => isTrue trivial
  | s, c :: cs => by
    unfold Guarded
    cases step s c with
    | ok s' => exact @instDecidableAnd _ _ _ (Guarded.decidable s' cs)
    | error e => infer_instance

theorem foldlM_singleton (step : σ → γ → Except ε σ) (s : σ) (c : γ) :
    [c].foldlM step s = step s c := by
  rw [List.foldlM_cons]
  cases step s c <;> rfl

namespace Guarded

theorem cons_ok (h : step s c = .ok s') :
    Guarded step ok s (c :: cs) ↔ ok s c ∧ Guarded step ok s' cs := by
  rw [Guarded, h]

theorem head (h : Guarded step ok s (c :: cs)) : ok s c := h.1

theorem and_mem {Q : γ → Prop} (h : Guarded step ok s cs) (hQ : ∀ c ∈ cs, Q c) :
    Guarded step (fun s c ↦ ok s c ∧ Q c) s cs := by
  induction cs generalizing s with
  | nil => trivial
  | cons c cs ih =>
    refine ⟨⟨h.1, hQ c List.mem_cons_self⟩, ?_⟩
    have := h.2
    cases hc : step s c with
    | ok s' =>
      rw [hc] at this
      exact ih this fun c' hc' ↦ hQ c' (List.mem_cons_of_mem c hc')
    | error e => trivial

theorem imp {ok' : σ → γ → Prop} (h : Guarded step ok s cs) (hok : ∀ s c, ok s c → ok' s c) :
    Guarded step ok' s cs := by
  induction cs generalizing s with
  | nil => trivial
  | cons c cs ih =>
    refine ⟨hok s c h.1, ?_⟩
    have := h.2
    cases hc : step s c with
    | ok s' =>
      rw [hc] at this
      exact ih this
    | error e => trivial

theorem and {ok' : σ → γ → Prop} (h : Guarded step ok s cs) (h' : Guarded step ok' s cs) :
    Guarded step (fun s c ↦ ok s c ∧ ok' s c) s cs := by
  induction cs generalizing s with
  | nil => trivial
  | cons c cs ih =>
    cases hc : step s c with
    | ok s₁ =>
      rw [cons_ok hc] at h h' ⊢
      exact ⟨⟨h.1, h'.1⟩, ih h.2 h'.2⟩
    | error e =>
      refine ⟨⟨h.1, h'.1⟩, ?_⟩
      rw [hc]
      trivial

theorem of_mem (h : ∀ c ∈ cs, ∀ s, ok s c) : Guarded step ok s cs := by
  induction cs generalizing s with
  | nil => trivial
  | cons c cs ih =>
    refine ⟨h c List.mem_cons_self s, ?_⟩
    cases step s c with
    | ok s' => exact ih fun c' hc' ↦ h c' (List.mem_cons_of_mem c hc')
    | error e => trivial

theorem append (h : Guarded step ok s (cs ++ ds)) :
    Guarded step ok s cs ∧ ∀ s', cs.foldlM step s = .ok s' → Guarded step ok s' ds := by
  induction cs generalizing s with
  | nil => exact ⟨trivial, fun s' hs' ↦ Except.ok.inj hs' ▸ h⟩
  | cons c cs ih =>
    rw [List.cons_append] at h
    cases hc : step s c with
    | ok s₁ =>
      obtain ⟨hok, h'⟩ := (cons_ok hc).mp h
      obtain ⟨hcs, hds⟩ := ih h'
      refine ⟨(cons_ok hc).mpr ⟨hok, hcs⟩, fun s' hs' ↦ hds s' ?_⟩
      rw [List.foldlM_cons, hc] at hs'
      exact hs'
    | error e =>
      refine ⟨⟨h.1, by rw [hc]; trivial⟩, fun s' hs' ↦ ?_⟩
      rw [List.foldlM_cons, hc] at hs'
      cases hs'

theorem of_prefixes (h : ∀ cs₁ c cs₂ s', cs = cs₁ ++ c :: cs₂ → cs₁.foldlM step s = .ok s' → ok s' c) :
    Guarded step ok s cs := by
  induction cs generalizing s with
  | nil => trivial
  | cons c cs ih =>
    refine ⟨h [] c cs s rfl rfl, ?_⟩
    cases hc : step s c with
    | error e => trivial
    | ok s₁ =>
      refine ih fun cs₁ c' cs₂ s' hcs hrun ↦ h (c :: cs₁) c' cs₂ s' (congrArg (c :: ·) hcs) ?_
      rw [List.foldlM_cons, hc]
      exact hrun

/-- What holds of the empty run and is kept by every guarded call holds of the whole run. -/
theorem history {I : List γ → σ → Prop} (hnil : I [] s)
    (hstep : ∀ cs c s₁ s₂, I cs s₁ → ok s₁ c → step s₁ c = .ok s₂ → I (cs ++ [c]) s₂)
    (h : Guarded step ok s cs) (hrun : cs.foldlM step s = .ok s') : I cs s' := by
  induction cs using List.reverseRecOn generalizing s' with
  | nil => exact Except.ok.inj hrun ▸ hnil
  | append_singleton cs c ih =>
    obtain ⟨hcs, hc⟩ := h.append
    rw [List.foldlM_append] at hrun
    cases hs : cs.foldlM step s with
    | ok s₁ =>
      rw [hs] at hrun
      have hone : [c].foldlM step s₁ = .ok s' := hrun
      rw [foldlM_singleton] at hone
      exact hstep cs c s₁ s' (ih hcs hs) (hc s₁ hs).head hone
    | error e =>
      rw [hs] at hrun
      cases hrun

theorem invariant {I : σ → Prop}
    (hstep : ∀ s c s', I s → ok s c → step s c = .ok s' → I s') (h : Guarded step ok s cs)
    (hinv : I s) (hrun : cs.foldlM step s = .ok s') : I s' :=
  h.history (I := fun _ ↦ I) hinv (fun _ c s₁ s₂ ↦ hstep s₁ c s₂) hrun

theorem returns {I : σ → Prop} (hstep : ∀ s c, I s → ok s c → ∃ s', step s c = .ok s' ∧ I s')
    (h : Guarded step ok s cs) (hinv : I s) : ∃ s', cs.foldlM step s = .ok s' ∧ I s' := by
  induction cs generalizing s with
  | nil => exact ⟨s, rfl, hinv⟩
  | cons c cs ih =>
    obtain ⟨s₁, hc, hinv₁⟩ := hstep s c hinv h.1
    obtain ⟨s', hrun, hinv'⟩ := ih ((cons_ok hc).mp h).2 hinv₁
    exact ⟨s', by rw [List.foldlM_cons, hc]; exact hrun, hinv'⟩

theorem returns_history {I : List γ → σ → Prop} (hnil : I [] s)
    (hstep : ∀ cs c s, I cs s → ok s c → ∃ s', step s c = .ok s' ∧ I (cs ++ [c]) s')
    (h : Guarded step ok s cs) : ∃ s', cs.foldlM step s = .ok s' ∧ I cs s' := by
  obtain ⟨s', hrun, -⟩ := h.returns (I := fun s ↦ ∃ cs, I cs s)
    (fun s c ⟨cs, hcs⟩ hok ↦ by
      obtain ⟨s', hc, hinv⟩ := hstep cs c s hcs hok
      exact ⟨s', hc, _, hinv⟩) ⟨[], hnil⟩
  refine ⟨s', hrun, h.history hnil (fun cs c s₁ s₂ hinv hok hc ↦ ?_) hrun⟩
  obtain ⟨s₂', hc', hinv'⟩ := hstep cs c s₁ hinv hok
  rw [hc] at hc'
  exact Except.ok.inj hc' ▸ hinv'

theorem returns_iff {I : σ → Prop} {P : σ → γ → Prop}
    (hstep : ∀ s c, I s → ok s c → P s c → ∃ s', step s c = .ok s' ∧ I s')
    (herr : ∀ s c, I s → ok s c → ¬ P s c → ∃ e, step s c = .error e)
    (h : Guarded step ok s cs) (hinv : I s) :
    (∃ s', cs.foldlM step s = .ok s') ↔ Guarded step P s cs := by
  induction cs generalizing s with
  | nil => exact iff_of_true ⟨s, rfl⟩ trivial
  | cons c cs ih =>
    by_cases hP : P s c
    · obtain ⟨s₁, hc, hinv₁⟩ := hstep s c hinv h.1 hP
      rw [cons_ok hc, List.foldlM_cons, hc]
      exact (ih ((cons_ok hc).mp h).2 hinv₁).trans (iff_and_self.mpr fun _ ↦ hP)
    · obtain ⟨e, hc⟩ := herr s c hinv h.1 hP
      rw [List.foldlM_cons, hc]
      exact iff_of_false (fun ⟨_, hrun⟩ ↦ by cases hrun) fun hg ↦ hP hg.1

theorem error_of_run {I : σ → Prop} {E : ε → Prop} {e : ε}
    (hstep : ∀ s c s', I s → ok s c → step s c = .ok s' → I s')
    (herr : ∀ s c e, I s → ok s c → step s c = .error e → E e) (h : Guarded step ok s cs)
    (hinv : I s) (hrun : cs.foldlM step s = .error e) : E e := by
  induction cs generalizing s with
  | nil => cases hrun
  | cons c cs ih =>
    rw [List.foldlM_cons] at hrun
    cases hc : step s c with
    | ok s₁ =>
      rw [hc] at hrun
      exact ih ((cons_ok hc).mp h).2 (hstep s c s₁ hinv h.1 hc) hrun
    | error e' =>
      rw [hc] at hrun
      exact Except.error.inj hrun ▸ herr s c e' hinv h.1 hc

end Guarded

/-- What the calls of a run from `s` add up to, each counted by what it makes of the state. -/
def runSum (step : σ → γ → Except ε σ) (gain : σ → σ → ℕ) : σ → List γ → ℕ
  | _, [] => 0
  | s, c :: cs => match step s c with
    | .ok s' => gain s s' + runSum step gain s' cs
    | .error _ => 0

theorem runSum_append {gain : σ → σ → ℕ} (h : cs.foldlM step s = .ok s') :
    runSum step gain s (cs ++ ds) = runSum step gain s cs + runSum step gain s' ds := by
  induction cs generalizing s with
  | nil =>
    rw [← Except.ok.inj h, List.nil_append, runSum, Nat.zero_add]
  | cons c cs ih =>
    rw [List.foldlM_cons] at h
    cases hc : step s c with
    | ok s₁ =>
      rw [hc] at h
      simp only [List.cons_append, runSum, hc]
      rw [ih h, Nat.add_assoc]
    | error e =>
      rw [hc] at h
      cases h

theorem runSum_singleton {gain : σ → σ → ℕ} (h : step s c = .ok s') :
    runSum step gain s [c] = gain s s' := by
  simp only [runSum, h, Nat.add_zero]

/-- A counter that no call raises by more than is counted for it stays below the bound in every call. -/
theorem Guarded.of_runSum {gain : σ → σ → ℕ} {count : σ → ℕ} {n : ℕ}
    (hstep : ∀ s c s', step s c = .ok s' → count s' ≤ count s + gain s s')
    (h : count s + runSum step gain s cs < n) :
    Guarded step (fun s c ↦ ∀ s', step s c = .ok s' → count s + gain s s' < n) s cs := by
  induction cs generalizing s with
  | nil => trivial
  | cons c cs ih =>
    cases hc : step s c with
    | ok s₁ =>
      have hcount := hstep s c s₁ hc
      simp only [runSum, hc] at h
      refine (cons_ok hc).mpr ⟨fun s' hs' ↦ ?_, ih (by omega)⟩
      rw [← Except.ok.inj (hc.symm.trans hs')]
      omega
    | error e =>
      refine ⟨fun s' hs' ↦ ?_, ?_⟩
      · rw [hc] at hs'
        cases hs'
      · rw [hc]
        trivial

theorem run_invariant {I : σ → Prop} (hstep : ∀ s c s', I s → step s c = .ok s' → I s')
    (hinv : I s) (hrun : cs.foldlM step s = .ok s') : I s' := by
  induction cs generalizing s with
  | nil => exact Except.ok.inj hrun ▸ hinv
  | cons c cs ih =>
    rw [List.foldlM_cons] at hrun
    cases hc : step s c with
    | ok s₁ =>
      rw [hc] at hrun
      exact ih (hstep s c s₁ hinv hc) hrun
    | error e =>
      rw [hc] at hrun
      cases hrun

theorem exists_of_foldlM_concat (h : (cs ++ [c]).foldlM step s = .ok s') :
    ∃ s₁, cs.foldlM step s = .ok s₁ ∧ step s₁ c = .ok s' := by
  rw [List.foldlM_append] at h
  cases hs : cs.foldlM step s with
  | ok s₁ =>
    rw [hs] at h
    exact ⟨s₁, rfl, (foldlM_singleton step s₁ c).symm.trans h⟩
  | error e =>
    rw [hs] at h
    cases h

theorem run_history {I : List γ → σ → Prop} (hnil : I [] s)
    (hstep : ∀ cs c s₁ s₂, I cs s₁ → step s₁ c = .ok s₂ → I (cs ++ [c]) s₂)
    (hrun : cs.foldlM step s = .ok s') : I cs s' := by
  induction cs using List.reverseRecOn generalizing s' with
  | nil => exact Except.ok.inj hrun ▸ hnil
  | append_singleton cs c ih =>
    obtain ⟨s₁, hs, hc⟩ := exists_of_foldlM_concat hrun
    exact hstep cs c s₁ s' (ih hs) hc

theorem foldlM_concat (step : σ → γ → Except ε σ) (s : σ) (cs : List γ) (c : γ)
    (h : cs.foldlM step s = .ok s') : (cs ++ [c]).foldlM step s = step s' c := by
  rw [List.foldlM_append, h]
  exact foldlM_singleton step s' c

section History

variable {α : Type} {P : List α → α → Prop}

/-- Each element stands in the relation `P` to all that comes before it; `before` precedes `xs`. -/
def EachAfter (P : List α → α → Prop) : List α → List α → Prop
  | _, [] => True
  | before, x :: xs => P before x ∧ EachAfter P (before ++ [x]) xs

instance EachAfter.decidable [∀ before x, Decidable (P before x)] :
    ∀ before xs : List α, Decidable (EachAfter P before xs)
  | _, [] => isTrue trivial
  | before, x :: xs => @instDecidableAnd _ _ _ (EachAfter.decidable (before ++ [x]) xs)

theorem eachAfter_append {before xs ys : List α} :
    EachAfter P before (xs ++ ys) ↔ EachAfter P before xs ∧ EachAfter P (before ++ xs) ys := by
  induction xs generalizing before with
  | nil => simp [EachAfter]
  | cons x xs ih =>
    simp only [List.cons_append, EachAfter, ih, List.append_assoc, List.nil_append, and_assoc]

theorem eachAfter_concat {before xs : List α} {x : α} :
    EachAfter P before (xs ++ [x]) ↔ EachAfter P before xs ∧ P (before ++ xs) x := by
  simp [eachAfter_append, EachAfter]

theorem EachAfter.and_mem {Q : α → Prop} {before xs : List α} (h : EachAfter P before xs)
    (hQ : ∀ x ∈ xs, Q x) : EachAfter (fun before x ↦ P before x ∧ Q x) before xs := by
  induction xs generalizing before with
  | nil => trivial
  | cons x xs ih =>
    exact ⟨⟨h.1, hQ x List.mem_cons_self⟩, ih h.2 fun y hy ↦ hQ y (List.mem_cons_of_mem x hy)⟩

theorem EachAfter.returns {I : List γ → σ → Prop} {P : List γ → γ → Prop} (hnil : I [] s)
    (hstep : ∀ cs c s, I cs s → P cs c → ∃ s', step s c = .ok s' ∧ I (cs ++ [c]) s')
    (h : EachAfter P [] cs) : ∃ s', cs.foldlM step s = .ok s' ∧ I cs s' := by
  induction cs using List.reverseRecOn with
  | nil => exact ⟨s, rfl, hnil⟩
  | append_singleton cs c ih =>
    obtain ⟨hcs, hc⟩ := eachAfter_concat.mp h
    obtain ⟨s₁, hrun, hinv⟩ := ih hcs
    obtain ⟨s', hs', hinv'⟩ := hstep cs c s₁ hinv hc
    exact ⟨s', (foldlM_concat step s cs c hrun).trans hs', hinv'⟩

end History

/-- A computation that returns a result of one kind, or breaks off with an error of another. -/
def Ends (x : Except ε σ) (P : σ → Prop) (E : ε → Prop) : Prop :=
  match x with
  | .ok a => P a
  | .error e => E e

instance Ends.decidable {P : σ → Prop} {E : ε → Prop} [DecidablePred P] [DecidablePred E] :
    ∀ x : Except ε σ, Decidable (Ends x P E)
  | .ok a => inferInstanceAs (Decidable (P a))
  | .error e => inferInstanceAs (Decidable (E e))

namespace Ends

variable {α β : Type} {x : Except ε α} {P : α → Prop} {E : ε → Prop}

theorem of_ok {a : α} (h : Ends x P E) (hx : x = .ok a) : P a := by
  rw [hx] at h
  exact h

theorem of_error {e : ε} (h : Ends x P E) (hx : x = .error e) : E e := by
  rw [hx] at h
  exact h

theorem imp {P' : α → Prop} (h : Ends x P E) (hP : ∀ a, P a → P' a) : Ends x P' E := by
  cases x with
  | ok a => exact hP a h
  | error e => exact h

theorem imp_error {E' : ε → Prop} (h : Ends x P E) (hE : ∀ e, E e → E' e) : Ends x P E' := by
  cases x with
  | ok a => exact h
  | error e => exact hE e h

theorem and {P' : α → Prop} {E' : ε → Prop} (h : Ends x P E) (h' : Ends x P' E') :
    Ends x (fun a ↦ P a ∧ P' a) fun e ↦ E e ∧ E' e := by
  cases x with
  | ok a => exact ⟨h, h'⟩
  | error e => exact ⟨h, h'⟩

theorem map {f : α → β} {Q : β → Prop} (h : Ends x (fun a ↦ Q (f a)) E) : Ends (x.map f) Q E := by
  cases x with
  | ok a => exact h
  | error e => exact h

theorem bind {f : α → Except ε β} {Q : β → Prop} (h : Ends x P E) (hf : ∀ a, P a → Ends (f a) Q E) :
    Ends (x >>= f) Q E := by
  cases x with
  | ok a => exact hf a h
  | error e => exact h

end Ends

theorem Guarded.ends {I : σ → Prop} {E : ε → Prop} (hstep : ∀ s c, I s → ok s c → Ends (step s c) I E)
    (h : Guarded step ok s cs) (hinv : I s) : Ends (cs.foldlM step s) I E := by
  induction cs generalizing s with
  | nil => exact hinv
  | cons c cs ih =>
    rw [List.foldlM_cons]
    have hends := hstep s c hinv h.1
    cases hc : step s c with
    | ok s₁ => exact ih ((cons_ok hc).mp h).2 (hends.of_ok hc)
    | error e => exact hends.of_error hc

/-- A computation that returns, with a result of this kind. -/
def Yields (r : Except ε σ) (P : σ → Prop) : Prop :=
  match r with
  | .ok s => P s
  | .error _ => False

instance {r : Except ε σ} {P : σ → Prop} [DecidablePred P] : Decidable (Yields r P) := by
  unfold Yields
  cases r <;> infer_instance

theorem exists_ok {r : Except ε σ} (h : r.isOk) : ∃ s, r = .ok s := by
  cases r with
  | ok s => exact ⟨s, rfl⟩
  | error e => cases h

theorem Yields.exists_ok {r : Except ε σ} {P : σ → Prop} (h : Yields r P) : ∃ s, r = .ok s ∧ P s := by
  cases r with
  | ok s => exact ⟨s, rfl, h⟩
  | error e => exact h.elim

end LowLatency
