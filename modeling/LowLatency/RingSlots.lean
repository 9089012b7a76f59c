import Mathlib.Tactic

namespace LowLatency

variable {T : Type} {slots xs : List T} {n r w : ℕ} {x : T}

/-- Two counters that are not further apart than the ring is long agree on their slot only if they
are equal or a whole ring apart. -/
theorem mod_eq_mod_iff (hn : 0 < n) (hle : r ≤ w) (hw : w ≤ r + n) :
    r % n = w % n ↔ w = r ∨ w = r + n := by
  constructor
  · intro h
    obtain ⟨k, hk⟩ := (Nat.modEq_iff_dvd' hle).mp h
    have hsub : w = r + n * k := by omega
    have hk2 : k < 2 := by
      by_contra hlt
      have : n * 2 ≤ n * k := Nat.mul_le_mul_left n (by omega)
      omega
    rw [hsub]
    interval_cases k <;> simp
  · rintro (rfl | rfl)
    · rfl
    · exact (Nat.add_mod_right r n).symm

/-- Of all the elements that have been stored, those from the `r`-th on are still in their slots,
where the `i`-th has gone to slot `i` modulo the length of the ring. -/
def InSlots (slots xs : List T) (r : ℕ) : Prop :=
  ∀ i, r ≤ i → i < xs.length → slots[i % slots.length]? = xs[i]?

theorem inSlots_nil (slots : List T) (r : ℕ) : InSlots slots [] r := fun _ _ h ↦ by cases h

namespace InSlots

theorem mono (h : InSlots slots xs r) (hle : r ≤ w) : InSlots slots xs w :=
  fun i hi ↦ h i (hle.trans hi)

theorem getElem? (h : InSlots slots xs r) (hr : r < xs.length) :
    slots[r % slots.length]? = xs[r]? := h r le_rfl hr

theorem set (h : InSlots slots xs r) (hn : 0 < slots.length) (hw : xs.length < r + slots.length) :
    InSlots (slots.set (xs.length % slots.length) x) xs r := by
  intro i hi hlt
  rw [List.length_set, List.getElem?_set, if_neg, h i hi hlt]
  intro hslot
  rcases (mod_eq_mod_iff hn hlt.le (by omega)).mp hslot.symm with hsame | hsame <;> omega

theorem concat (h : InSlots slots xs r) (hx : slots[xs.length % slots.length]? = some x) :
    InSlots slots (xs ++ [x]) r := by
  intro i hi hlt
  rw [List.length_append, List.length_singleton] at hlt
  rcases Nat.lt_succ_iff_lt_or_eq.mp hlt with hlt | rfl
  · rw [h i hi hlt, List.getElem?_append_left hlt]
  · rw [hx, List.getElem?_concat_length]

theorem walk (h : InSlots slots xs r) {k : ℕ} (hk : r + k ≤ xs.length) :
    ((List.range k).filterMap fun i ↦ slots[(r + i) % slots.length]?) = (xs.drop r).take k := by
  induction k with
  | zero => rfl
  | succ k ih =>
    have hlt : r + k < xs.length := by omega
    have hnext : slots[(r + k) % slots.length]? = (xs.drop r)[k]? := by
      rw [h _ (Nat.le_add_right r k) hlt, List.getElem?_drop]
    rw [List.range_succ, List.filterMap_append, ih (by omega), List.take_add_one, ← hnext,
      List.filterMap_cons]
    cases slots[(r + k) % slots.length]? <;> rfl

end InSlots

theorem getElem?_set_slot (hn : 0 < slots.length) (k : ℕ) (x : T) :
    (slots.set (k % slots.length) x)[k % slots.length]? = some x :=
  List.getElem?_set_self (Nat.mod_lt k hn)

end LowLatency
