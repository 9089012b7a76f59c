import LowLatency.Book.Shrinks

namespace LowLatency.Book

open Common

variable {κ : Type}

/-- `p` trades before `q` on this side. -/
def Better (side : Side) (p q : ℤ) : Prop := side = .BUY ∧ q < p ∨ side = .SELL ∧ p < q

instance (side : Side) (p q : ℤ) : Decidable (Better side p q) := inferInstanceAs (Decidable (_ ∨ _))

theorem Better.asymm {side : Side} {p q : ℤ} (h : Better side p q) : ¬ Better side q p := by
  unfold Better at h ⊢
  rintro (⟨hs, hq⟩ | ⟨hs, hq⟩)
  · simp [hs] at h
    omega
  · simp [hs] at h
    omega

theorem Better.trans {side : Side} {p q r : ℤ} (h : Better side p q) (h' : Better side q r) : Better side p r := by
  unfold Better at h h' ⊢
  rcases h with ⟨hs, hq⟩ | ⟨hs, hq⟩
  · simp [hs] at h' ⊢
    omega
  · simp [hs] at h' ⊢
    omega

theorem Better.ne {side : Side} {p q : ℤ} (h : Better side p q) : q ≠ p := by
  rintro rfl
  exact h.asymm h

def Ranked (side : Side) (ls : List (Level κ)) : Prop :=
  (ls.map Level.price).Pairwise (Better side)

instance (side : Side) (ls : List (Level κ)) : Decidable (Ranked side ls) :=
  inferInstanceAs (Decidable (List.Pairwise _ _))

def Uniform (ls : List (Level κ)) : Prop := ∀ l ∈ ls, ∀ e ∈ l.orders, e.price = l.price

def Increasing (ls : List (Level κ)) : Prop :=
  ∀ l ∈ ls, (l.orders.map Entry.priority).Pairwise (· < ·)

section Shrink

variable {side : Side} {ls' ls : List (Level κ)} (hs : List.SublistForall₂ LevelShrinks ls' ls)

include hs

theorem Ranked.shrink (h : Ranked side ls) : Ranked side ls' := by
  have hsub := (levels_sublist_of_shrinks hs).map Prod.snd
  rw [List.map_map, List.map_map] at hsub
  exact List.Pairwise.sublist hsub h

theorem Uniform.shrink (h : Uniform ls) : Uniform ls' := by
  intro l' hl' e' he'
  obtain ⟨l, hl, hshr⟩ := exists_level_of_shrinks hs hl'
  obtain ⟨e, he, hf⟩ := List.mem_map.mp (hshr.orders.mem (List.mem_map_of_mem he'))
  rw [(Entry.fixed_eq hf.symm).2.2.2.1, hshr.price]
  exact h l hl e he

theorem Increasing.shrink (h : Increasing ls) : Increasing ls' := by
  intro l' hl'
  obtain ⟨l, hl, hshr⟩ := exists_level_of_shrinks hs hl'
  have hsub : (l'.orders.map Entry.priority).Sublist (l.orders.map Entry.priority) := by
    simpa [List.map_map, Function.comp_def, Entry.fixed] using hshr.orders.map Entry.priority
  exact (h l hl).sublist hsub

end Shrink

section Rest

variable {side : Side} {ls : List (Level κ)} {lp : Ptr} {e : Entry κ}

theorem Ranked.restIn (h : Ranked side ls)
    (hnew : (∃ l ∈ ls, priceToIndex l.price = priceToIndex e.price) ∨
      ∀ l ∈ ls, Better side l.price e.price) : Ranked side (restIn lp e ls) := by
  unfold Book.restIn
  split_ifs with hslot
  · have hprices : (ls.map fun l ↦ if priceToIndex l.price = priceToIndex e.price then
        { l with orders := l.orders ++ [e] } else l).map Level.price = ls.map Level.price := by
      rw [List.map_map]
      exact List.map_congr_left fun l _ ↦ by simp only [Function.comp_apply]; split <;> rfl
    rw [Ranked, hprices]
    exact h
  · have hall := hnew.resolve_left hslot
    rw [Ranked, List.map_append, List.pairwise_append]
    refine ⟨h, List.pairwise_singleton _ _, fun p hp q hq ↦ ?_⟩
    obtain ⟨l, hl, rfl⟩ := List.mem_map.mp hp
    rw [List.mem_singleton.mp hq]
    exact hall l hl

theorem Uniform.restIn (h : Uniform ls) (hslot : ∀ l ∈ ls,
    priceToIndex l.price = priceToIndex e.price → l.price = e.price) :
    Uniform (restIn lp e ls) := by
  intro l' hl' e' he'
  rcases mem_restIn hl' with ⟨hl, -⟩ | ⟨l, hl, hi, rfl⟩ | ⟨-, hl | rfl⟩
  · exact h l' hl e' he'
  · rcases List.mem_append.mp he' with he' | he'
    · exact h l hl e' he'
    · rw [List.mem_singleton.mp he']
      exact (hslot l hl hi).symm
  · exact h l' hl e' he'
  · rw [List.mem_singleton.mp he']

theorem Increasing.restIn (h : Increasing ls) (hnext : ∀ l ∈ ls,
    priceToIndex l.price = priceToIndex e.price → ∀ e' ∈ l.orders, e'.priority < e.priority) :
    Increasing (restIn lp e ls) := by
  intro l' hl'
  rcases mem_restIn hl' with ⟨hl, -⟩ | ⟨l, hl, hi, rfl⟩ | ⟨-, hl | rfl⟩
  · exact h l' hl
  · rw [List.map_append, List.pairwise_append]
    refine ⟨h l hl, List.pairwise_singleton _ _, fun p hp q hq ↦ ?_⟩
    obtain ⟨e', he', rfl⟩ := List.mem_map.mp hp
    rw [List.mem_singleton.mp hq]
    exact hnext l hl hi e' he'
  · exact h l' hl
  · exact List.pairwise_singleton _ _

end Rest

theorem Ranked.first_in_line {side : Side} {ls : List (Level κ)} (h : Ranked side ls)
    (hu : Uniform ls) (hne : ∀ l ∈ ls, l.orders ≠ []) {e e' : Entry κ} {es : List (Entry κ)}
    (hq : queue ls = e :: es) (he' : e' ∈ queue ls) :
    Better side e.price e'.price ∨
      e'.price = e.price ∧ (e' = e ∨ ∃ l ∈ ls, [e, e'].Sublist l.orders) := by
  cases ls with
  | nil => simp at hq
  | cons l ls =>
    obtain ⟨o, os, hos⟩ := List.exists_cons_of_ne_nil (hne l List.mem_cons_self)
    rw [queue_cons, hos, List.cons_append] at hq
    obtain rfl := (List.cons.inj hq).1
    have ho : o.price = l.price := hu l List.mem_cons_self o (by simp [hos])
    obtain ⟨l', hl', hel⟩ := mem_queue.mp he'
    rcases List.mem_cons.mp hl' with rfl | hl'
    · right
      refine ⟨(hu l' List.mem_cons_self e' hel).trans ho.symm, ?_⟩
      rw [hos] at hel
      rcases List.mem_cons.mp hel with rfl | hel
      · exact .inl rfl
      · exact .inr ⟨l', List.mem_cons_self, hos ▸ (List.singleton_sublist.mpr hel).cons_cons o⟩
    · left
      rw [hu l' (List.mem_cons_of_mem l hl') e' hel, ho]
      exact (List.pairwise_cons.mp h).1 _ (List.mem_map_of_mem hl')

theorem lt_of_notMem_takeWhile {es : List (Entry κ)} {e : Entry κ} {price : ℤ}
    (hs : es.Pairwise fun e e' ↦ e.price ≤ e'.price) (he : e ∈ es)
    (hnot : e ∉ es.takeWhile fun e ↦ ¬ price < e.price) : price < e.price := by
  induction es with
  | nil => cases he
  | cons o os ih =>
    obtain ⟨ho, hs⟩ := List.pairwise_cons.mp hs
    by_cases hp : price < o.price
    · rcases List.mem_cons.mp he with rfl | he
      · exact hp
      · exact hp.trans_le (ho e he)
    · rw [List.takeWhile_cons_of_pos (by simpa using hp), List.mem_cons, not_or] at hnot
      exact ih hs ((List.mem_cons.mp he).resolve_left hnot.1) hnot.2

theorem Ranked.queue_sorted {ls : List (Level κ)} (h : Ranked .SELL ls) (hu : Uniform ls) :
    (queue ls).Pairwise fun e e' ↦ e.price ≤ e'.price := by
  unfold queue
  rw [List.pairwise_flatMap]
  refine ⟨fun l hl ↦ List.pairwise_of_forall_mem_list fun e he e' he' ↦ ?_, ?_⟩
  · rw [hu l hl e he, hu l hl e' he']
  · refine (List.pairwise_map.mp h).imp_of_mem fun hl hm hlt e he e' he' ↦ ?_
    rw [hu _ hl e he, hu _ hm e' he']
    simp only [Better, reduceCtorEq, false_and, true_and, false_or] at hlt
    exact hlt.le

theorem Ranked.lt_of_mem_swept {a : Ladder κ} (h : Ranked .SELL a.asks) (hu : Uniform a.asks)
    {price : ℤ} {e : Entry κ} (he : e ∈ queue (a.swept .BUY price).asks) : price < e.price := by
  have hq : queue (a.swept .BUY price).asks =
      (queue a.asks).filter (·.ptr ∉ (a.crossing .BUY price).map Entry.ptr) := queue_dropOrders _ _
  rw [hq, List.mem_filter, decide_eq_true_eq] at he
  exact lt_of_notMem_takeWhile (h.queue_sorted hu) he.1 fun hc ↦ he.2 (List.mem_map_of_mem hc)

end LowLatency.Book
