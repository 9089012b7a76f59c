import LowLatency.Book.Ladder

namespace LowLatency.Book

open Common

variable {κ : Type}

/-- A trade with a resting order as it was before, and what it leaves of the incoming order. -/
structure Fill (κ : Type) where
  entry : Entry κ
  qty : ℕ
  leaves : ℕ

def sweep : ℕ → List (Entry κ) → List (Fill κ)
  | _, [] => []
  | leaves, e :: es =>
    if leaves = 0 then []
    else
      let fillQty := min leaves e.qty
      ⟨e, fillQty, leaves - fillQty⟩ :: sweep (leaves - fillQty) es

def offered (es : List (Entry κ)) : ℕ := (es.map Entry.qty).sum

@[simp] theorem offered_nil : offered ([] : List (Entry κ)) = 0 := rfl

@[simp] theorem offered_cons (e : Entry κ) (es : List (Entry κ)) :
    offered (e :: es) = e.qty + offered es := by simp [offered]

@[simp] theorem sweep_zero (es : List (Entry κ)) : sweep 0 es = [] := by
  cases es <;> rfl

theorem sweep_cons {leaves : ℕ} (h : leaves ≠ 0) (e : Entry κ) (es : List (Entry κ)) :
    sweep leaves (e :: es) = ⟨e, min leaves e.qty, leaves - min leaves e.qty⟩ ::
      sweep (leaves - min leaves e.qty) es := by rw [sweep, if_neg h]

theorem sweep_entry_mem {leaves : ℕ} {es : List (Entry κ)} {f : Fill κ} (h : f ∈ sweep leaves es) :
    f.entry ∈ es := by
  induction es generalizing leaves with
  | nil => simp [sweep] at h
  | cons e es ih =>
    by_cases hl : leaves = 0
    · simp [hl] at h
    · rw [sweep_cons hl] at h
      rcases List.mem_cons.mp h with rfl | h
      · exact List.mem_cons_self
      · exact List.mem_cons_of_mem e (ih h)

theorem sweep_append {leaves : ℕ} {es : List (Entry κ)} (es' : List (Entry κ))
    (h : leaves ≤ offered es) : sweep leaves (es ++ es') = sweep leaves es := by
  induction es generalizing leaves with
  | nil =>
    obtain rfl : leaves = 0 := Nat.le_zero.mp h
    simp
  | cons e es ih =>
    by_cases hl : leaves = 0
    · simp [hl]
    · rw [List.cons_append, sweep_cons hl, sweep_cons hl, ih]
      rw [offered_cons] at h
      omega

theorem sweep_of_lt {leaves : ℕ} {es : List (Entry κ)} (h : offered es < leaves) :
    (sweep leaves es).map Fill.entry = es ∧ ∀ f ∈ sweep leaves es, f.qty = f.entry.qty := by
  induction es generalizing leaves with
  | nil => simp [sweep]
  | cons e es ih =>
    rw [offered_cons] at h
    rw [sweep_cons (by omega), Nat.min_eq_right (by omega)]
    obtain ⟨hmap, hall⟩ := ih (show offered es < leaves - e.qty by omega)
    refine ⟨by rw [List.map_cons, hmap], fun f hf ↦ ?_⟩
    rcases List.mem_cons.mp hf with rfl | hf
    · rfl
    · exact hall f hf

theorem sweep_qty (leaves : ℕ) (es : List (Entry κ)) :
    ((sweep leaves es).map Fill.qty).sum = min leaves (offered es) := by
  induction es generalizing leaves with
  | nil => simp [sweep]
  | cons e es ih =>
    by_cases hl : leaves = 0
    · simp [hl]
    · rw [sweep_cons hl, List.map_cons, List.sum_cons, ih, offered_cons]
      change min leaves e.qty + min (leaves - min leaves e.qty) (offered es) = _
      omega

def dropOrders (ps : List Ptr) (ls : List (Level κ)) : List (Level κ) :=
  (ls.map fun l ↦ { l with orders := l.orders.filter (·.ptr ∉ ps) }).filter (·.orders ≠ [])

theorem dropOrders_cons (p : Ptr) (ps : List Ptr) (ls : List (Level κ)) :
    dropOrders ps (removeFrom p ls) = dropOrders (p :: ps) ls := by
  induction ls with
  | nil => rfl
  | cons l ls ih =>
    have hfilter : (l.orders.filter (·.ptr ≠ p)).filter (·.ptr ∉ ps) =
        l.orders.filter (·.ptr ∉ p :: ps) := by
      rw [List.filter_filter]
      exact List.filter_congr fun e _ ↦ by simp [Bool.and_comm]
    unfold dropOrders at ih ⊢
    rw [removeFrom_cons, List.map_append, List.filter_append, ih, List.map_cons, List.filter_cons]
    split_ifs with h <;> simp_all

theorem dropOrders_of_notMem {ps : List Ptr} {ls : List (Level κ)} (hne : ∀ l ∈ ls, l.orders ≠ [])
    (h : ∀ e ∈ queue ls, e.ptr ∉ ps) : dropOrders ps ls = ls := by
  have hmap : (ls.map fun l ↦ { l with orders := l.orders.filter (·.ptr ∉ ps) }) = ls := by
    conv_rhs => rw [← List.map_id ls]
    refine List.map_congr_left fun l hl ↦ ?_
    have : l.orders.filter (·.ptr ∉ ps) = l.orders := List.filter_eq_self.mpr fun e he ↦ by
      simpa using h e (mem_queue.mpr ⟨l, hl, he⟩)
    rw [this]
    rfl
  rw [dropOrders, hmap, List.filter_eq_self]
  exact fun l hl ↦ by simpa using hne l hl

theorem queue_dropOrders (ps : List Ptr) (ls : List (Level κ)) :
    queue (dropOrders ps ls) = (queue ls).filter (·.ptr ∉ ps) := by
  induction ls with
  | nil => rfl
  | cons l ls ih =>
    unfold dropOrders at ih ⊢
    rw [List.map_cons, List.filter_cons, queue_cons, List.filter_append, ← ih]
    split
    · rw [queue_cons]
    · next h =>
      have hnil : l.orders.filter (·.ptr ∉ ps) = [] := by simpa using h
      rw [hnil, List.nil_append]

def against : Side → Side
  | .BUY => .SELL
  | .SELL => .BUY
  | .INVALID => .INVALID

@[simp] theorem against_eq_INVALID {side : Side} : against side = .INVALID ↔ side = .INVALID := by
  cases side <;> simp [against]

namespace Ladder

/-- The orders that an incoming order of this price trades with if it is large enough: those of
the other side up to the first with a higher price, which is where both loops of `checkForMatch`
leave. -/
def crossing (a : Ladder κ) (side : Side) (price : ℤ) : List (Entry κ) :=
  (queue (a.on (against side))).takeWhile fun e ↦ ¬ price < e.price

def Rests (a : Ladder κ) (side : Side) (price : ℤ) (qty : ℕ) : Prop :=
  offered (a.crossing side price) < qty

instance (a : Ladder κ) (side : Side) (price : ℤ) (qty : ℕ) :
    Decidable (a.Rests side price qty) := inferInstanceAs (Decidable (_ < _))

def swept (a : Ladder κ) (side : Side) (price : ℤ) : Ladder κ :=
  let ps := (a.crossing side price).map Entry.ptr
  ⟨dropOrders ps a.bids, dropOrders ps a.asks⟩

theorem on_swept (a : Ladder κ) (side side' : Side) (price : ℤ) :
    (a.swept side price).on side' =
      dropOrders ((a.crossing side price).map Entry.ptr) (a.on side') := by
  unfold on swept
  split <;> rfl

def fills (a : Ladder κ) (side : Side) (price : ℤ) (qty : ℕ) : List (Fill κ) :=
  sweep qty (a.crossing side price)

def trade (a : Ladder κ) (f : Fill κ) : Ladder κ :=
  if f.entry.qty = f.qty then a.remove f.entry.ptr else a.setQty f.entry.ptr (f.entry.qty - f.qty)

theorem mem_entries_trade {a : Ladder κ} {f : Fill κ} (hf : f.entry ∈ a.entries)
    (hinj : ∀ e ∈ a.entries, e.ptr = f.entry.ptr → e = f.entry) {e : Entry κ} :
    e ∈ (a.trade f).entries ↔ (e ∈ a.entries ∧ e.ptr ≠ f.entry.ptr) ∨
      (f.entry.qty ≠ f.qty ∧ e = { f.entry with qty := f.entry.qty - f.qty }) := by
  unfold trade
  split
  · next h => simp [mem_entries_remove, h]
  · next h =>
    rw [entries_setQty, List.mem_map]
    constructor
    · rintro ⟨e', he', rfl⟩
      unfold withQty
      split_ifs with hp
      · exact .inr ⟨h, by rw [hinj e' he' hp]⟩
      · exact .inl ⟨he', hp⟩
    · rintro (⟨he, hp⟩ | ⟨-, rfl⟩)
      · exact ⟨e, he, if_neg hp⟩
      · exact ⟨f.entry, hf, if_pos rfl⟩

def traded (a : Ladder κ) (fs : List (Fill κ)) : Ladder κ := fs.foldl trade a

@[simp] theorem traded_nil (a : Ladder κ) : a.traded [] = a := rfl

@[simp] theorem traded_cons (a : Ladder κ) (f : Fill κ) (fs : List (Fill κ)) :
    a.traded (f :: fs) = (a.trade f).traded fs := rfl

/-- Every fill is a trade with the first order of the other side at the time. -/
inductive Sweeps (side : Side) : Ladder κ → ℕ → List (Fill κ) → Prop
  | nil {a : Ladder κ} {leaves : ℕ} : Sweeps side a leaves []
  | cons {a : Ladder κ} {leaves : ℕ} {e : Entry κ} {es : List (Entry κ)} {fs : List (Fill κ)}
      (hq : queue (a.on side) = e :: es) (hl : leaves ≠ 0)
      (h : Sweeps side (a.trade ⟨e, min leaves e.qty, leaves - min leaves e.qty⟩)
        (leaves - min leaves e.qty) fs) :
      Sweeps side a leaves (⟨e, min leaves e.qty, leaves - min leaves e.qty⟩ :: fs)

theorem queue_on_trade {a : Ladder κ} {side : Side} {f : Fill κ} {es : List (Entry κ)}
    (hq : queue (a.on side) = f.entry :: es) (hd : ((queue (a.on side)).map Entry.ptr).Nodup)
    (hf : f.entry.qty = f.qty) : queue ((a.trade f).on side) = es := by
  rw [hq, List.map_cons, List.nodup_cons] at hd
  rw [trade, if_pos hf, on_remove, queue_removeFrom, hq, List.filter_cons]
  simp only [ne_eq, not_true_eq_false, decide_false, Bool.false_eq_true, if_false]
  rw [List.filter_eq_self]
  intro e he
  simpa using fun h : e.ptr = f.entry.ptr ↦ hd.1 (h ▸ List.mem_map_of_mem he)

theorem fuel_trade {a : Ladder κ} {side : Side} {leaves fuel : ℕ} {e : Entry κ} {es : List (Entry κ)}
    (hq : queue (a.on side) = e :: es) (hd : ((queue (a.on side)).map Entry.ptr).Nodup)
    (hl : leaves ≠ 0) (hfuel : leaves = 0 ∧ 0 < fuel + 1 ∨ (queue (a.on side)).length < fuel + 1) :
    leaves - min leaves e.qty = 0 ∧ 0 < fuel ∨
      (queue ((a.trade ⟨e, min leaves e.qty, leaves - min leaves e.qty⟩).on side)).length < fuel := by
  rw [hq, List.length_cons] at hfuel
  by_cases hfull : e.qty = min leaves e.qty
  · rw [queue_on_trade (f := ⟨e, min leaves e.qty, leaves - min leaves e.qty⟩) hq hd hfull]
    omega
  · omega

theorem fills_cons {a : Ladder κ} {side : Side} {price : ℤ} {qty : ℕ} {e : Entry κ}
    {es : List (Entry κ)} (hq : queue (a.on (against side)) = e :: es)
    (hd : ((queue (a.on (against side))).map Entry.ptr).Nodup) (hp : ¬ price < e.price)
    (hl : qty ≠ 0) :
    a.fills side price qty = ⟨e, min qty e.qty, qty - min qty e.qty⟩ ::
      (a.trade ⟨e, min qty e.qty, qty - min qty e.qty⟩).fills side price (qty - min qty e.qty) := by
  rw [fills, crossing, hq, List.takeWhile_cons_of_pos (by simpa using hp), sweep_cons hl]
  congr 1
  by_cases hf : e.qty = min qty e.qty
  · rw [fills, crossing, queue_on_trade (f := ⟨e, min qty e.qty, qty - min qty e.qty⟩) hq hd hf]
  · have : qty - min qty e.qty = 0 := by omega
    rw [this, fills, sweep_zero, sweep_zero]

theorem leaves_trade {a : Ladder κ} {side : Side} {price : ℤ} {leaves : ℕ} {e : Entry κ}
    {es : List (Entry κ)} (hq : queue (a.on (against side)) = e :: es)
    (hd : ((queue (a.on (against side))).map Entry.ptr).Nodup) (hp : ¬ price < e.price) :
    leaves - min leaves e.qty - offered
        ((a.trade ⟨e, min leaves e.qty, leaves - min leaves e.qty⟩).crossing side price) =
      leaves - offered (a.crossing side price) := by
  have hcross : a.crossing side price = e :: es.takeWhile fun e ↦ ¬ price < e.price := by
    rw [crossing, hq, List.takeWhile_cons_of_pos (by simpa using hp)]
  rw [hcross, offered_cons]
  by_cases hf : e.qty = min leaves e.qty
  · rw [crossing, queue_on_trade (f := ⟨e, min leaves e.qty, leaves - min leaves e.qty⟩) hq hd hf]
    omega
  · omega

def Stops (a : Ladder κ) (side : Side) (price : ℤ) (leaves : ℕ) : Prop :=
  leaves = 0 ∨ queue (a.on (against side)) = [] ∨
    ∃ e es, queue (a.on (against side)) = e :: es ∧ price < e.price

theorem Stops.crossing_eq {a : Ladder κ} {side : Side} {price : ℤ} {leaves : ℕ}
    (h : a.Stops side price leaves) : leaves = 0 ∨ a.crossing side price = [] := by
  rcases h with hl | hq | ⟨e, es, hq, hp⟩
  · exact .inl hl
  · exact .inr (by rw [crossing, hq]; rfl)
  · exact .inr (by rw [crossing, hq, List.takeWhile_cons_of_neg (by simpa using hp)])

theorem fills_nil {a : Ladder κ} {side : Side} {price : ℤ} {qty : ℕ} (h : a.Stops side price qty) :
    a.fills side price qty = [] := by
  rcases h.crossing_eq with rfl | hcross
  · exact sweep_zero _
  · rw [fills, hcross]
    rfl

theorem leaves_stops {a : Ladder κ} {side : Side} {price : ℤ} {leaves : ℕ}
    (h : a.Stops side price leaves) : leaves - offered (a.crossing side price) = leaves := by
  rcases h.crossing_eq with rfl | hcross
  · exact Nat.zero_sub _
  · rw [hcross, offered_nil, Nat.sub_zero]

theorem nodup_trade {a : Ladder κ} {side : Side} {f : Fill κ}
    (hd : ((queue (a.on side)).map Entry.ptr).Nodup) :
    ((queue ((a.trade f).on side)).map Entry.ptr).Nodup := by
  unfold trade
  split
  · rw [on_remove, queue_removeFrom]
    exact hd.sublist (List.filter_sublist.map _)
  · rw [on_setQty, queue_setQtyIn, map_ptr_withQty]
    exact hd

theorem sweeps_fills {a : Ladder κ} {side : Side} {price : ℤ} (qty : ℕ)
    (hd : ((queue (a.on (against side))).map Entry.ptr).Nodup) :
    Sweeps (against side) a qty (a.fills side price qty) := by
  obtain ⟨n, hn⟩ : ∃ n, n = (queue (a.on (against side))).length := ⟨_, rfl⟩
  induction n generalizing a qty with
  | zero =>
    rw [fills_nil (.inr (.inl (List.length_eq_zero_iff.mp hn.symm)))]
    exact .nil
  | succ n ih =>
    by_cases hl : qty = 0
    · rw [fills_nil (.inl hl)]
      exact .nil
    cases hq : queue (a.on (against side)) with
    | nil => simp [hq] at hn
    | cons e es =>
      by_cases hp : price < e.price
      · rw [fills_nil (.inr (.inr ⟨e, es, hq, hp⟩))]
        exact .nil
      · rw [fills_cons hq hd hp hl]
        refine .cons hq hl ?_
        by_cases hf : e.qty = min qty e.qty
        · apply ih _ (nodup_trade hd)
          rw [queue_on_trade (f := ⟨e, min qty e.qty, qty - min qty e.qty⟩) hq hd hf]
          simpa [hq] using hn
        · rw [fills_nil (.inl (by omega))]
          exact .nil

theorem traded_fills {a : Ladder κ} {side : Side} {price : ℤ} {qty : ℕ}
    (hne : ∀ l ∈ a.levels, l.orders ≠ []) (h : a.Rests side price qty) :
    a.traded (a.fills side price qty) = a.swept side price := by
  obtain ⟨hmap, hall⟩ := sweep_of_lt h
  have key : ∀ (fs : List (Fill κ)) (a : Ladder κ), (∀ l ∈ a.levels, l.orders ≠ []) →
      (∀ f ∈ fs, f.qty = f.entry.qty) → a.traded fs =
        ⟨dropOrders ((fs.map Fill.entry).map Entry.ptr) a.bids,
          dropOrders ((fs.map Fill.entry).map Entry.ptr) a.asks⟩ := by
    intro fs
    induction fs with
    | nil =>
      intro a hne _
      have hdrop : ∀ ls, (∀ l ∈ ls, l ∈ a.levels) → dropOrders [] ls = ls := fun ls hls ↦
        dropOrders_of_notMem (fun l hl ↦ hne l (hls l hl)) (by simp)
      simp only [traded_nil, List.map_nil]
      rw [hdrop a.bids fun l hl ↦ List.mem_append_left _ hl,
        hdrop a.asks fun l hl ↦ List.mem_append_right _ hl]
    | cons f fs ih =>
      intro a hne hall
      have hf : a.trade f = a.remove f.entry.ptr := if_pos (hall f List.mem_cons_self).symm
      have hne' : ∀ l ∈ (a.remove f.entry.ptr).levels, l.orders ≠ [] := by
        intro l hl
        rcases List.mem_append.mp hl with hl | hl
        all_goals simpa using (List.mem_filter.mp hl).2
      rw [traded_cons, hf, ih _ hne' fun g hg ↦ hall g (List.mem_cons_of_mem f hg)]
      simp only [remove, dropOrders_cons, List.map_cons]
  rw [fills, key _ a hne hall, hmap]
  rfl

end Ladder

end LowLatency.Book
