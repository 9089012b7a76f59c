import LowLatency.GuardedRun
import Mathlib.Data.List.Forall2
import Mathlib.Data.Option.Basic
import Mathlib.Logic.Relator

namespace LowLatency

variable {ε α β α' β' γ : Type}

section Option

variable {R : α → β → Prop} {a : α} {b : β} {o p : Option α} {o' p' : Option β}

theorem rel_cases (h : Option.Rel R o o') :
    o = none ∧ o' = none ∨ ∃ a b, o = some a ∧ o' = some b ∧ R a b := by
  cases h with
  | none => exact .inl ⟨rfl, rfl⟩
  | some h => exact .inr ⟨_, _, rfl, rfl, h⟩

theorem rel_none_iff (h : Option.Rel R o o') : o = none ↔ o' = none := by
  cases h <;> simp

theorem rel_mono {R' : α → β → Prop} (hR : ∀ a b, R a b → R' a b) (h : Option.Rel R o o') :
    Option.Rel R' o o' := by
  cases h with
  | none => exact .none
  | some h => exact .some (hR _ _ h)

theorem rel_eq_iff (hR : Relator.BiUnique R) (h : Option.Rel R o o') (h' : Option.Rel R p p') :
    o = p ↔ o' = p' := by
  cases h with
  | none => cases h' <;> simp
  | some h =>
    cases h' with
    | none => simp
    | some h' => simpa using Relator.rel_eq hR h h'

theorem exists_of_forall₂ {xs : List α} {ys : List β} (h : List.Forall₂ R xs ys) {x : α}
    (hx : x ∈ xs) : ∃ y ∈ ys, R x y := by
  induction h with
  | nil => cases hx
  | cons hr _ ih =>
    rcases List.mem_cons.mp hx with rfl | hx
    · exact ⟨_, List.mem_cons_self, hr⟩
    · obtain ⟨y, hy, hr⟩ := ih hx
      exact ⟨y, List.mem_cons_of_mem _ hy, hr⟩

end Option

/-- Both computations return, with results in the relation `R`, or neither does. -/
inductive Matched (R : α → β → Prop) : Except ε α → Except ε β → Prop
  | ok {a : α} {b : β} (h : R a b) : Matched R (.ok a) (.ok b)
  | error {e e' : ε} : Matched R (.error e) (.error e')

namespace Matched

variable {R : α → β → Prop} {S : α' → β' → Prop} {x : Except ε α} {y : Except ε β} {a : α} {b : β}

theorem bind {f : α → Except ε α'} {g : β → Except ε β'} (h : Matched R x y)
    (hfg : ∀ a b, R a b → Matched S (f a) (g b)) : Matched S (x >>= f) (y >>= g) := by
  cases h with
  | ok h => exact hfg _ _ h
  | error => exact .error

theorem imp {R' : α → β → Prop} (h : Matched R x y) (hR : ∀ a b, R a b → R' a b) :
    Matched R' x y := by
  cases h with
  | ok h => exact .ok (hR _ _ h)
  | error => exact .error

theorem exists_right (h : Matched R (.ok a) y) : ∃ b, y = .ok b ∧ R a b := by
  cases h with
  | ok h => exact ⟨_, rfl, h⟩

theorem ends {R : α → α → Prop} {x : Except ε α} {P : α → Prop} {E : ε → Prop} (h : Matched R x x)
    (hx : Ends x P E) : Ends x (fun a ↦ R a a ∧ P a) E := by
  cases x with
  | error e => exact hx
  | ok a =>
    obtain ⟨b, hb, hR⟩ := h.exists_right
    exact ⟨Except.ok.inj hb ▸ hR, hx⟩

theorem foldlM {step : α → γ → Except ε α} {step' : β → γ → Except ε β} {cs : List γ}
    (hstep : ∀ c ∈ cs, ∀ a b, R a b → Matched R (step a c) (step' b c)) (h : R a b) :
    Matched R (cs.foldlM step a) (cs.foldlM step' b) := by
  induction cs generalizing a b with
  | nil => exact .ok h
  | cons c cs ih =>
    rw [List.foldlM_cons, List.foldlM_cons]
    exact (hstep c List.mem_cons_self a b h).bind fun a b h ↦
      ih (fun c hc ↦ hstep c (List.mem_cons_of_mem _ hc)) h

end Matched

end LowLatency
