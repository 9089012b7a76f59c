import LowLatency.Relational
import Mathlib.Data.List.Cycle

namespace LowLatency.LinkedRing

variable {α : Type} {next prev next' prev' : α → Option α} {a b x y z n : α} {l l₁ l₂ : List α}

def Neighbours (next prev : α → Option α) (a b : α) : Prop := next a = some b ∧ prev b = some a

/-- The nodes of `l`, in this order, form one circular doubly linked list. -/
def IsRing (next prev : α → Option α) (l : List α) : Prop :=
  (l : Cycle α).Chain (Neighbours next prev)

theorem isRing_singleton : IsRing next prev [a] ↔ Neighbours next prev a a := Cycle.chain_singleton _ _

theorem isRing_cons :
    IsRing next prev (a :: l) ↔ (a :: l ++ [a]).IsChain (Neighbours next prev) := Iff.rfl

theorem isRing_swap : IsRing next prev (l₁ ++ l₂) ↔ IsRing next prev (l₂ ++ l₁) := by
  unfold IsRing
  rw [Cycle.coe_eq_coe.mpr List.isRotated_append]

/-- A ring may be read off starting from any of its nodes. -/
theorem isRing_split :
    IsRing next prev (l₁ ++ x :: l₂) ↔ IsRing next prev (x :: (l₂ ++ l₁)) := by
  rw [isRing_swap, List.cons_append]

theorem isRing_getLast :
    IsRing next prev (a :: l) ↔
      Neighbours next prev ((a :: l).getLast (List.cons_ne_nil _ _)) a ∧
        (a :: l).IsChain (Neighbours next prev) := by
  unfold IsRing
  rw [Cycle.chain_ne_nil _ (List.cons_ne_nil _ _), List.isChain_cons_cons]

theorem IsRing.congr (h : IsRing next prev l) (hn : ∀ c ∈ l, next' c = next c)
    (hp : ∀ c ∈ l, prev' c = prev c) : IsRing next' prev' l := by
  cases l with
  | nil => exact Cycle.Chain.nil _
  | cons a l =>
    rw [isRing_cons] at h ⊢
    refine h.imp_of_mem_imp fun c d hc hd hcd ↦ ?_
    have hmem : ∀ e ∈ a :: l ++ [a], e ∈ a :: l := by simp [or_comm]
    exact ⟨(hn c (hmem c hc)).trans hcd.1, (hp d (hmem d hd)).trans hcd.2⟩

theorem IsRing.exists_next (h : IsRing next prev l) (hx : x ∈ l) :
    ∃ y ∈ l, Neighbours next prev x y := by
  obtain ⟨l₁, l₂, rfl⟩ := List.append_of_mem hx
  rw [isRing_split, isRing_cons, List.cons_append] at h
  cases hl : l₂ ++ l₁ ++ [x] with
  | nil => simp at hl
  | cons y t =>
    rw [hl, List.isChain_cons_cons] at h
    have hy : y ∈ l₂ ++ l₁ ++ [x] := hl ▸ List.mem_cons_self
    exact ⟨y, by simp only [List.mem_append, List.mem_cons] at hy ⊢; tauto, h.1⟩

theorem IsRing.exists_prev (h : IsRing next prev l) (hx : x ∈ l) :
    ∃ y ∈ l, Neighbours next prev y x := by
  obtain ⟨l₁, l₂, rfl⟩ := List.append_of_mem hx
  rw [isRing_split, isRing_getLast] at h
  refine ⟨_, ?_, h.1⟩
  have hy := List.getLast_mem (List.cons_ne_nil x (l₂ ++ l₁))
  simp only [List.mem_append, List.mem_cons] at hy ⊢
  tauto

theorem IsRing.reachable_iff (h : IsRing next prev l) (hx : x ∈ l) :
    Relation.ReflTransGen (fun a b ↦ next a = some b) x y ↔ y ∈ l := by
  constructor
  · intro hreach
    induction hreach with
    | refl => exact hx
    | tail _ hstep ih =>
      obtain ⟨z, hz, hn, -⟩ := h.exists_next ih
      exact Option.some.inj (hn.symm.trans hstep) ▸ hz
  · intro hy
    -- read the ring off from `x`, and stop at `y`
    obtain ⟨l₁, l₂, rfl⟩ := List.append_of_mem hx
    rw [isRing_split, isRing_cons] at h
    have hmem : y ∈ x :: (l₂ ++ l₁) := by
      simp only [List.mem_append, List.mem_cons] at hy ⊢
      tauto
    exact (List.isChain_append.mp h).1.induction (Relation.ReflTransGen _ x) _
      (fun _ _ hab hreach ↦ hreach.tail hab.1) (fun _ ↦ .refl) y hmem

theorem IsRing.next_head (h : IsRing next prev (x :: y :: l)) : next x = some y :=
  (List.isChain_cons_cons.mp (isRing_cons.mp h)).1.1

theorem IsRing.prev_head (h : IsRing next prev (a :: l)) :
    prev a = some ((a :: l).getLast (List.cons_ne_nil _ _)) := (isRing_getLast.mp h).1.2

theorem IsRing.next_self_iff (h : IsRing next prev (l₁ ++ x :: l₂)) (hd : (l₁ ++ x :: l₂).Nodup) :
    next x = some x ↔ l₁ ++ l₂ = [] := by
  have hd' : (x :: (l₂ ++ l₁)).Nodup := (List.perm_middle.trans
    (List.perm_append_comm.cons x)).nodup_iff.mp hd
  rw [isRing_split] at h
  cases hl : l₂ ++ l₁ with
  | nil =>
    rw [hl, isRing_singleton] at h
    simp_all [h.1]
  | cons y t =>
    rw [hl] at h hd'
    have hxy : x ≠ y := fun e ↦ (List.nodup_cons.mp hd').1 (e ▸ List.mem_cons_self)
    have hne : l₁ ++ l₂ ≠ [] := fun e ↦ by simp_all
    simp [h.next_head, hxy.symm, hne]

theorem IsRing.prev_self_iff (h : IsRing next prev (l₁ ++ x :: l₂)) (hd : (l₁ ++ x :: l₂).Nodup) :
    prev x = some x ↔ l₁ ++ l₂ = [] := by
  obtain ⟨y, _, hyx⟩ := h.exists_prev (x := x) (by simp)
  rw [← h.next_self_iff hd]
  constructor
  · intro hx
    have hy : y = x := Option.some.inj (hyx.2.symm.trans hx)
    exact hy ▸ hyx.1
  · intro hx
    obtain ⟨z, _, hxz⟩ := h.exists_next (x := x) (by simp)
    have hz : z = x := Option.some.inj (hxz.1.symm.trans hx)
    exact hz ▸ hxz.2

/-- Linking a new node between the last node and the first appends it to the ring. -/
theorem IsRing.concat (h : IsRing next prev (a :: l)) (hd : (a :: l).Nodup) (hz : prev a = some z)
    (hzn : next' z = some n) (hnz : prev' n = some z) (hna : next' n = some a) (han : prev' a = some n)
    (hnext : ∀ c ∈ a :: l, c ≠ z → next' c = next c)
    (hprev : ∀ c ∈ a :: l, c ≠ a → prev' c = prev c) : IsRing next' prev' (a :: l ++ [n]) := by
  rw [isRing_getLast] at h
  obtain ⟨⟨hlast, hlast'⟩, hchain⟩ := h
  have hzl : (a :: l).getLast (List.cons_ne_nil _ _) = z := Option.some.inj (hlast'.symm.trans hz)
  rw [hzl] at hlast
  have hchain' : (a :: l).IsChain (Neighbours next' prev') := by
    refine hchain.imp_of_mem_tail_imp fun c d hc hd' hcd ↦ ?_
    have hda : d ≠ a := fun e ↦ (List.nodup_cons.mp hd).1 (e ▸ hd')
    have hcz : c ≠ z := fun e ↦ hda (Option.some.inj (hcd.1.symm.trans (e ▸ hlast)))
    exact ⟨(hnext c hc hcz).trans hcd.1, (hprev d (List.mem_cons_of_mem a hd') hda).trans hcd.2⟩
  rw [List.cons_append, isRing_getLast]
  refine ⟨by simpa using ⟨hna, han⟩, ?_⟩
  rw [← List.cons_append, List.isChain_append]
  refine ⟨hchain', .singleton n, ?_⟩
  intro c hc d hd'
  rw [List.getLast?_eq_getLast_of_ne_nil (List.cons_ne_nil _ _), hzl] at hc
  obtain rfl : z = c := by simpa using hc
  obtain rfl : n = d := by simpa using hd'
  exact ⟨hzn, hnz⟩

/-- Linking the two neighbours of a node removes it from the ring. -/
theorem IsRing.remove (h : IsRing next prev (l₁ ++ x :: l₂)) (hd : (l₁ ++ x :: l₂).Nodup)
    (hne : l₁ ++ l₂ ≠ []) (hy : prev x = some y) (hz : next x = some z)
    (hyz : next' y = some z) (hzy : prev' z = some y)
    (hnext : ∀ c ∈ l₁ ++ l₂, c ≠ y → next' c = next c)
    (hprev : ∀ c ∈ l₁ ++ l₂, c ≠ z → prev' c = prev c) : IsRing next' prev' (l₁ ++ l₂) := by
  have hd' : (x :: (l₂ ++ l₁)).Nodup := (List.perm_middle.trans
    (List.perm_append_comm.cons x)).nodup_iff.mp hd
  have hmem : ∀ {c}, c ∈ l₂ ++ l₁ → c ∈ l₁ ++ l₂ := fun hc ↦ List.perm_append_comm.mem_iff.mp hc
  rw [isRing_split] at h
  rw [isRing_swap]
  cases hl : l₂ ++ l₁ with
  | nil => simp_all
  | cons b t =>
    rw [hl] at h hd' hmem
    have hzb : z = b := Option.some.inj (hz.symm.trans h.next_head)
    subst hzb
    rw [isRing_getLast] at h
    obtain ⟨⟨hlast, hlast'⟩, hchain⟩ := h
    have hyl := Option.some.inj (hlast'.symm.trans hy)
    rw [hyl] at hlast
    rw [isRing_getLast]
    rw [List.getLast_cons (List.cons_ne_nil z t)] at hyl
    refine ⟨by rw [hyl]; exact ⟨hyz, hzy⟩, ?_⟩
    refine (List.isChain_cons_cons.mp hchain).2.imp_of_mem_tail_imp fun c d hc hdt hcd ↦ ?_
    obtain ⟨hx, hz'⟩ := List.nodup_cons.mp hd'
    have hdz : d ≠ z := fun e ↦ (List.nodup_cons.mp hz').1 (e ▸ hdt)
    have hdx : d ≠ x := fun e ↦ hx (e ▸ List.mem_cons_of_mem z hdt)
    have hcy : c ≠ y := fun e ↦ hdx (Option.some.inj (hcd.1.symm.trans (e ▸ hlast)))
    exact ⟨(hnext c (hmem hc) hcy).trans hcd.1,
      (hprev d (hmem (List.mem_cons_of_mem z hdt)) hdz).trans hcd.2⟩

theorem IsRing.exists_neighbours (h : IsRing next prev (l₁ ++ x :: l₂)) (hd : (l₁ ++ x :: l₂).Nodup)
    (hne : l₁ ++ l₂ ≠ []) : ∃ y ∈ l₁ ++ l₂, ∃ z ∈ l₁ ++ l₂,
      Neighbours next prev y x ∧ Neighbours next prev x z := by
  obtain ⟨y, hy, hyx⟩ := h.exists_prev (x := x) (by simp)
  obtain ⟨z, hz, hxz⟩ := h.exists_next (x := x) (by simp)
  have hmem : ∀ {c}, c ∈ l₁ ++ x :: l₂ → c ≠ x → c ∈ l₁ ++ l₂ := fun hc hcx ↦ by
    simpa [hcx] using hc
  refine ⟨y, hmem hy ?_, z, hmem hz ?_, hyx, hxz⟩
  · rintro rfl
    exact hne ((h.prev_self_iff hd).mp hyx.2)
  · rintro rfl
    exact hne ((h.next_self_iff hd).mp hxz.1)

section Update

variable [DecidableEq α]

open Function

theorem IsRing.concat_update (h : IsRing next prev (a :: l)) (hd : (a :: l).Nodup)
    (hza : Neighbours next prev z a) (hn : n ∉ a :: l) (hz : z ∈ a :: l) :
    IsRing (update (update next n (some a)) z (some n)) (update (update prev n (some z)) a (some n))
      (a :: l ++ [n]) := by
  have hne : ∀ c ∈ a :: l, c ≠ n := fun c hc e ↦ hn (e ▸ hc)
  apply h.concat hd hza.2
  · simp
  · simp [(hne a List.mem_cons_self).symm]
  · simp [(hne z hz).symm]
  · simp
  · intro c hc hcz
    simp [hcz, hne c hc]
  · intro c hc hca
    simp [hca, hne c hc]

theorem IsRing.remove_update (h : IsRing next prev (l₁ ++ x :: l₂)) (hd : (l₁ ++ x :: l₂).Nodup)
    (hy : y ∈ l₁ ++ l₂) (hz : z ∈ l₁ ++ l₂) (hyx : Neighbours next prev y x)
    (hxz : Neighbours next prev x z) (v w : Option α) :
    IsRing (update (update next y (some z)) x v) (update (update prev z (some y)) x w)
      (l₁ ++ l₂) := by
  have hne : ∀ c ∈ l₁ ++ l₂, c ≠ x := fun c hc e ↦
    (List.nodup_cons.mp (List.perm_middle.nodup_iff.mp hd)).1 (e ▸ hc)
  apply h.remove hd (List.ne_nil_of_mem hy) hyx.2 hxz.1
  · simp [hne y hy]
  · simp [hne z hz]
  · intro c hc hcy
    simp [hne c hc, hcy]
  · intro c hc hcz
    simp [hne c hc, hcz]

structure Flanked (next prev : α → Option α) (l₁ : List α) (x : α) (l₂ : List α) (y z : α) : Prop where
  prev_eq : prev x = some y
  next_eq : next x = some z
  prev_ne : y ≠ x
  next_ne : z ≠ x
  head : (l₁ ++ l₂).head? = if (l₁ ++ x :: l₂).head? = some x then some z else (l₁ ++ x :: l₂).head?
  ring : ∀ v w, IsRing (update (update next y (some z)) x v) (update (update prev z (some y)) x w)
    (l₁ ++ l₂)
  apart : ∀ c, c ∉ l₁ ++ x :: l₂ → c ≠ y ∧ c ≠ z ∧ c ≠ x

theorem IsRing.exists_flanked (h : IsRing next prev (l₁ ++ x :: l₂)) (hd : (l₁ ++ x :: l₂).Nodup)
    (hne : l₁ ++ l₂ ≠ []) : ∃ y z, Flanked next prev l₁ x l₂ y z := by
  obtain ⟨y, hy, z, hz, hyx, hxz⟩ := h.exists_neighbours hd hne
  have hout : ∀ c ∈ l₁ ++ l₂, c ≠ x := fun c hc e ↦
    (List.nodup_cons.mp (List.perm_middle.nodup_iff.mp hd)).1 (e ▸ hc)
  refine ⟨y, z, hyx.2, hxz.1, hout y hy, hout z hz, ?_,
    fun v w ↦ h.remove_update hd hy hz hyx hxz v w, fun c hc ↦ ?_⟩
  · -- the ring begins with another node if it began with this one
    cases l₁ with
    | nil =>
      cases l₂ with
      | nil => exact absurd rfl hne
      | cons b l₂ =>
        have hzb : some z = some b := hxz.1.symm.trans h.next_head
        simpa using hzb.symm
    | cons b l₁ =>
      have hbx : b ≠ x := hout b List.mem_cons_self
      simp [hbx]
  · have hrest : c ∉ l₁ ++ l₂ := fun hm ↦ hc (by
      simp only [List.mem_append, List.mem_cons] at hm ⊢
      tauto)
    exact ⟨fun e ↦ hrest (e ▸ hy), fun e ↦ hrest (e ▸ hz), fun e ↦ hc (by simp [e])⟩

end Update

section Flanks

variable {β : Type}

/-- The nodes behind `p`, each between its neighbours. Behind the last of them comes `stop`. -/
def flanksFrom (stop : α) : α → List α → List (α × α × α)
  | _, [] => []
  | p, x :: l => (p, x, l.headD stop) :: flanksFrom stop x l

def flanks : List α → List (α × α × α)
  | [] => []
  | a :: l => flanksFrom a ((a :: l).getLast (List.cons_ne_nil a l)) (a :: l)

theorem nodes_flanksFrom (stop p : α) (l : List α) : (flanksFrom stop p l).map (·.2.1) = l := by
  induction l generalizing p with
  | nil => rfl
  | cons x l ih => exact congrArg (x :: ·) (ih x)

theorem nodes_flanks (l : List α) : (flanks l).map (·.2.1) = l := by
  cases l with
  | nil => rfl
  | cons a l => exact nodes_flanksFrom a _ _

theorem flanksFrom_map (f : α → β) (stop p : α) (l : List α) :
    flanksFrom (f stop) (f p) (l.map f) = (flanksFrom stop p l).map (Prod.map f (Prod.map f f)) := by
  induction l generalizing p with
  | nil => rfl
  | cons x l ih =>
    rw [List.map_cons, flanksFrom, ih, flanksFrom, List.map_cons]
    cases l <;> rfl

theorem flanks_map (f : α → β) (l : List α) :
    flanks (l.map f) = (flanks l).map (Prod.map f (Prod.map f f)) := by
  cases l with
  | nil => rfl
  | cons a l =>
    have hlast : ((a :: l).map f).getLast (List.cons_ne_nil _ _) =
        f ((a :: l).getLast (List.cons_ne_nil a l)) := List.getLast_map _
    change flanksFrom (f a) (((a :: l).map f).getLast _) ((a :: l).map f) = _
    rw [hlast, flanksFrom_map]
    rfl

theorem forall_flanksFrom {P : α → Prop} {stop p : α} (hstop : P stop) (hp : P p) (h : ∀ x ∈ l, P x) :
    ∀ t ∈ flanksFrom stop p l, P t.1 ∧ P t.2.1 ∧ P t.2.2 := by
  induction l generalizing p with
  | nil => exact fun t ht ↦ absurd ht List.not_mem_nil
  | cons x l ih =>
    obtain ⟨hx, hl⟩ := List.forall_mem_cons.mp h
    rintro t (_ | ⟨_, ht⟩)
    · refine ⟨hp, hx, ?_⟩
      cases l with
      | nil => exact hstop
      | cons y l => exact hl y List.mem_cons_self
    · exact ih hx hl t ht

theorem forall_flanks {P : α → Prop} (h : ∀ x ∈ l, P x) : ∀ t ∈ flanks l, P t.1 ∧ P t.2.1 ∧ P t.2.2 := by
  cases l with
  | nil => exact fun t ht ↦ absurd ht List.not_mem_nil
  | cons a l => exact forall_flanksFrom (h a List.mem_cons_self) (h _ (List.getLast_mem _)) h

theorem neighbours_flanksFrom {stop p : α} (h : (p :: (l ++ [stop])).IsChain (Neighbours next prev)) :
    ∀ t ∈ flanksFrom stop p l, prev t.2.1 = some t.1 ∧ next t.2.1 = some t.2.2 := by
  induction l generalizing p with
  | nil => exact fun t ht ↦ absurd ht List.not_mem_nil
  | cons x l ih =>
    obtain ⟨hpx, hchain⟩ := List.isChain_cons_cons.mp h
    rintro t (_ | ⟨_, ht⟩)
    · refine ⟨hpx.2, ?_⟩
      cases l with
      | nil => exact (List.isChain_pair.mp hchain).1
      | cons y l => exact (List.isChain_cons_cons.mp hchain).1.1
    · exact ih hchain t ht

theorem IsRing.neighbours_flanks (h : IsRing next prev l) :
    ∀ t ∈ flanks l, prev t.2.1 = some t.1 ∧ next t.2.1 = some t.2.2 := by
  cases l with
  | nil => exact fun t ht ↦ absurd ht List.not_mem_nil
  | cons a l =>
    exact neighbours_flanksFrom (List.isChain_cons_cons.mpr ⟨(isRing_getLast.mp h).1, isRing_cons.mp h⟩)

end Flanks

section Walk

variable [DecidableEq α]

/-- The nodes met from `a` by following `next` until it leads back to `stop`. -/
def walk (next : α → Option α) (stop : α) : ℕ → α → List α
  | 0, _ => []
  | n + 1, a => a :: match next a with
    | none => []
    | some b => if b = stop then [] else walk next stop n b

theorem walk_chain {stop : α} (n : ℕ) (h : (a :: l ++ [stop]).IsChain (Neighbours next prev))
    (hs : stop ∉ l) (hn : l.length < n) : walk next stop n a = a :: l := by
  induction l generalizing a n with
  | nil =>
    cases n with
    | zero => simp at hn
    | succ n => simp [walk, (List.isChain_pair.mp h).1]
  | cons b l ih =>
    cases n with
    | zero => simp at hn
    | succ n =>
      obtain ⟨hab, h'⟩ := List.isChain_cons_cons.mp h
      have hbs : b ≠ stop := fun e ↦ hs (e ▸ List.mem_cons_self)
      simp only [walk, hab.1, if_neg hbs]
      rw [ih n h' (fun hm ↦ hs (List.mem_cons_of_mem b hm)) (by simpa using hn)]

/-- Walking a ring from its first node meets every node once, in order. -/
theorem IsRing.walk_eq (h : IsRing next prev (a :: l)) (hd : (a :: l).Nodup) {n : ℕ}
    (hn : l.length < n) : walk next a n a = a :: l :=
  walk_chain n h (List.nodup_cons.mp hd).1 hn

theorem walk_rel {β : Type} [DecidableEq β] {R : α → β → Prop} (hR : Relator.BiUnique R)
    {follow : β → Option β} (h : ∀ a b, R a b → Option.Rel R (next a) (follow b)) {stop : α} {stop' : β}
    (hstop : R stop stop') (n : ℕ) {a : α} {b : β} (hab : R a b) :
    List.Forall₂ R (walk next stop n a) (walk follow stop' n b) := by
  induction n generalizing a b with
  | zero => exact .nil
  | succ n ih =>
    refine .cons hab ?_
    rcases rel_cases (h a b hab) with ⟨hn, hf⟩ | ⟨c, d, hn, hf, hcd⟩
    · rw [hn, hf]
      exact .nil
    · have hiff : c = stop ↔ d = stop' := Relator.rel_eq hR hcd hstop
      simp only [hn, hf, hiff]
      split
      · exact .nil
      · exact ih hcd

end Walk

end LowLatency.LinkedRing
