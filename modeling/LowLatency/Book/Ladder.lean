import LowLatency.Common.Types

namespace LowLatency.Book

open Common

structure Entry (κ : Type) where
  ptr : Ptr
  key : κ
  side : Side
  price : ℤ
  qty : ℕ
  priority : ℕ
  deriving DecidableEq

structure Level (κ : Type) where
  ptr : Ptr
  price : ℤ
  orders : List (Entry κ)
  deriving DecidableEq

variable {κ : Type}

/-- The orders of one side, in the order in which an incoming order meets them. -/
def queue (ls : List (Level κ)) : List (Entry κ) := ls.flatMap Level.orders

theorem mem_queue {e : Entry κ} {ls : List (Level κ)} : e ∈ queue ls ↔ ∃ l ∈ ls, e ∈ l.orders :=
  List.mem_flatMap

@[simp] theorem queue_nil : queue ([] : List (Level κ)) = [] := rfl

@[simp] theorem queue_cons (l : Level κ) (ls : List (Level κ)) :
    queue (l :: ls) = l.orders ++ queue ls := List.flatMap_cons

@[simp] theorem queue_append (ls₁ ls₂ : List (Level κ)) :
    queue (ls₁ ++ ls₂) = queue ls₁ ++ queue ls₂ := List.flatMap_append

/-- Take the order at `p` out, and its level with it when no other order is left there. -/
def removeFrom (p : Ptr) (ls : List (Level κ)) : List (Level κ) :=
  (ls.map fun l ↦ { l with orders := l.orders.filter (·.ptr ≠ p) }).filter (·.orders ≠ [])

def withQty (p : Ptr) (qty : ℕ) (e : Entry κ) : Entry κ :=
  if e.ptr = p then { e with qty := qty } else e

@[simp] theorem withQty_fields (p : Ptr) (qty : ℕ) (e : Entry κ) :
    (withQty p qty e).ptr = e.ptr ∧ (withQty p qty e).key = e.key ∧
    (withQty p qty e).side = e.side ∧ (withQty p qty e).price = e.price ∧
    (withQty p qty e).priority = e.priority := by
  unfold withQty
  split <;> exact ⟨rfl, rfl, rfl, rfl, rfl⟩

def setQtyIn (p : Ptr) (qty : ℕ) (ls : List (Level κ)) : List (Level κ) :=
  ls.map fun l ↦ { l with orders := l.orders.map (withQty p qty) }

/-- Put an order behind the orders of the level in its slot, or on a new last level at `lp`. -/
def restIn (lp : Ptr) (e : Entry κ) (ls : List (Level κ)) : List (Level κ) :=
  if ∃ l ∈ ls, priceToIndex l.price = priceToIndex e.price then
    ls.map fun l ↦ if priceToIndex l.price = priceToIndex e.price then
      { l with orders := l.orders ++ [e] } else l
  else ls ++ [⟨lp, e.price, [e]⟩]

theorem queue_removeFrom (p : Ptr) (ls : List (Level κ)) :
    queue (removeFrom p ls) = (queue ls).filter (·.ptr ≠ p) := by
  induction ls with
  | nil => rfl
  | cons l ls ih =>
    unfold removeFrom at ih ⊢
    rw [List.map_cons, List.filter_cons, queue_cons, List.filter_append, ← ih]
    split
    · rw [queue_cons]
    · next h =>
      have hnil : l.orders.filter (·.ptr ≠ p) = [] := by simpa using h
      rw [hnil, List.nil_append]

theorem removeFrom_append (p : Ptr) (ls₁ ls₂ : List (Level κ)) :
    removeFrom p (ls₁ ++ ls₂) = removeFrom p ls₁ ++ removeFrom p ls₂ := by
  simp only [removeFrom, List.map_append, List.filter_append]

theorem removeFrom_cons (p : Ptr) (l : Level κ) (ls : List (Level κ)) :
    removeFrom p (l :: ls) = (if l.orders.filter (·.ptr ≠ p) = [] then []
      else [{ l with orders := l.orders.filter (·.ptr ≠ p) }]) ++ removeFrom p ls := by
  simp only [removeFrom, List.map_cons, List.filter_cons, ne_eq, decide_not, Bool.not_eq_true']
  split_ifs <;> simp_all

theorem removeFrom_of_notMem {p : Ptr} {ls : List (Level κ)} (hne : ∀ l ∈ ls, l.orders ≠ [])
    (hp : p ∉ (queue ls).map Entry.ptr) : removeFrom p ls = ls := by
  induction ls with
  | nil => rfl
  | cons l ls ih =>
    rw [queue_cons, List.map_append, List.mem_append, not_or] at hp
    have hl : l.orders.filter (·.ptr ≠ p) = l.orders := by
      rw [List.filter_eq_self]
      intro e he
      simpa using fun h : e.ptr = p ↦ hp.1 (List.mem_map.mpr ⟨e, he, h⟩)
    rw [removeFrom_cons, hl, if_neg (hne l List.mem_cons_self),
      ih (fun m hm ↦ hne m (List.mem_cons_of_mem l hm)) hp.2]
    rfl

theorem removeFrom_split {e : Entry κ} {l : Level κ} {ls₁ ls₂ : List (Level κ)}
    {os₁ os₂ : List (Entry κ)} (hl : l.orders = os₁ ++ e :: os₂)
    (hne : ∀ m ∈ ls₁ ++ l :: ls₂, m.orders ≠ [])
    (hd : ((queue (ls₁ ++ l :: ls₂)).map Entry.ptr).Nodup) :
    removeFrom e.ptr (ls₁ ++ l :: ls₂) = ls₁ ++ ((if os₁ ++ os₂ = [] then []
      else [{ l with orders := os₁ ++ os₂ }]) ++ ls₂) := by
  have hrest : e.ptr ∉ (queue ls₁ ++ (os₁ ++ os₂) ++ queue ls₂).map Entry.ptr := by
    have hperm : (queue (ls₁ ++ l :: ls₂)).Perm (e :: (queue ls₁ ++ (os₁ ++ os₂) ++ queue ls₂)) := by
      simp only [queue_append, queue_cons, hl, List.append_assoc, List.cons_append]
      rw [← List.append_assoc, ← List.append_assoc (queue ls₁)]
      exact List.perm_middle
    exact (List.nodup_cons.mp ((hperm.map Entry.ptr).nodup_iff.mp hd)).1
  simp only [List.map_append, List.mem_append, not_or] at hrest
  obtain ⟨⟨h₁, ho₁, ho₂⟩, h₂⟩ := hrest
  have hfilter : ∀ os : List (Entry κ), e.ptr ∉ os.map Entry.ptr → os.filter (·.ptr ≠ e.ptr) = os := by
    intro os hos
    rw [List.filter_eq_self]
    intro e' he'
    simpa using fun h : e'.ptr = e.ptr ↦ hos (List.mem_map.mpr ⟨e', he', h⟩)
  have hlf : l.orders.filter (·.ptr ≠ e.ptr) = os₁ ++ os₂ := by
    rw [hl, List.filter_append, List.filter_cons, hfilter os₁ ho₁, hfilter os₂ ho₂]
    simp
  rw [removeFrom_append, removeFrom_cons, hlf,
    removeFrom_of_notMem (fun m hm ↦ hne m (by simp [hm])) h₁,
    removeFrom_of_notMem (fun m hm ↦ hne m (by simp [hm])) h₂]

theorem queue_setQtyIn (p : Ptr) (qty : ℕ) (ls : List (Level κ)) :
    queue (setQtyIn p qty ls) = (queue ls).map (withQty p qty) := by
  simp only [queue, setQtyIn, List.flatMap_map, List.map_flatMap]

theorem map_ptr_withQty (p : Ptr) (qty : ℕ) (os : List (Entry κ)) :
    (os.map (withQty p qty)).map Entry.ptr = os.map Entry.ptr := by
  simp [List.map_map, Function.comp_def]

theorem map_slot_eq {ls₁ ls₂ : List (Level κ)} {l : Level κ} {i : ℕ} (f : Level κ → Level κ)
    (hd : ((ls₁ ++ l :: ls₂).map fun l ↦ priceToIndex l.price).Nodup) (hl : priceToIndex l.price = i) :
    ((ls₁ ++ l :: ls₂).map fun m ↦ if priceToIndex m.price = i then f m else m) =
      ls₁ ++ f l :: ls₂ := by
  have hother : ∀ m ∈ ls₁ ++ ls₂, priceToIndex m.price ≠ i := by
    intro m hm he
    rw [List.map_append, List.map_cons] at hd
    have hnd := List.perm_middle.nodup_iff.mp hd
    rw [List.nodup_cons, ← List.map_append] at hnd
    exact hnd.1 (List.mem_map.mpr ⟨m, hm, he.trans hl.symm⟩)
  have hid : ∀ ms : List (Level κ), (∀ m ∈ ms, m ∈ ls₁ ++ ls₂) →
      (ms.map fun m ↦ if priceToIndex m.price = i then f m else m) = ms := by
    intro ms hms
    conv_rhs => rw [← List.map_id ms]
    exact List.map_congr_left fun m hm ↦ by rw [if_neg (hother m (hms m hm))]; rfl
  rw [List.map_append, List.map_cons, if_pos hl, hid ls₁ (by simp +contextual),
    hid ls₂ (by simp +contextual)]

theorem restIn_join {ls₁ ls₂ : List (Level κ)} {l : Level κ} {e : Entry κ} (lp : Ptr)
    (hd : ((ls₁ ++ l :: ls₂).map fun l ↦ priceToIndex l.price).Nodup)
    (hl : priceToIndex l.price = priceToIndex e.price) :
    restIn lp e (ls₁ ++ l :: ls₂) = ls₁ ++ { l with orders := l.orders ++ [e] } :: ls₂ := by
  rw [restIn, if_pos ⟨l, by simp, hl⟩]
  exact map_slot_eq (fun l ↦ { l with orders := l.orders ++ [e] }) hd hl

theorem restIn_new {e : Entry κ} {ls : List (Level κ)} (lp : Ptr)
    (h : ∀ l ∈ ls, priceToIndex l.price ≠ priceToIndex e.price) :
    restIn lp e ls = ls ++ [⟨lp, e.price, [e]⟩] := by
  rw [restIn, if_neg]
  rintro ⟨l, hl, he⟩
  exact h l hl he

theorem removeFrom_setQtyIn (p : Ptr) (qty : ℕ) (ls : List (Level κ)) :
    removeFrom p (setQtyIn p qty ls) = removeFrom p ls := by
  have hfilter : ∀ os : List (Entry κ),
      (os.map (withQty p qty)).filter (·.ptr ≠ p) = os.filter (·.ptr ≠ p) := by
    intro os
    induction os with
    | nil => rfl
    | cons e os ih =>
      rw [List.map_cons, List.filter_cons, List.filter_cons, ih, (withQty_fields p qty e).1]
      split_ifs with h
      · rw [withQty, if_neg (by simpa using h)]
      · rfl
  simp only [removeFrom, setQtyIn, List.map_map, Function.comp_def, hfilter]

theorem queue_restIn_perm (lp : Ptr) (e : Entry κ) {ls : List (Level κ)}
    (hd : (ls.map fun l ↦ priceToIndex l.price).Nodup) :
    (queue (restIn lp e ls)).Perm (queue ls ++ [e]) := by
  by_cases h : ∃ l ∈ ls, priceToIndex l.price = priceToIndex e.price
  · obtain ⟨l, hl, hle⟩ := h
    obtain ⟨ls₁, ls₂, rfl⟩ := List.append_of_mem hl
    rw [restIn_join lp hd hle]
    simp only [queue_append, queue_cons, List.append_assoc]
    exact .append_left _ (.append_left _ List.perm_append_comm)
  · simp only [not_exists, not_and] at h
    rw [restIn_new lp h]
    simp

theorem mem_restIn {lp : Ptr} {e : Entry κ} {ls : List (Level κ)} {l' : Level κ}
    (h : l' ∈ restIn lp e ls) :
    l' ∈ ls ∧ priceToIndex l'.price ≠ priceToIndex e.price ∨
    (∃ l ∈ ls, priceToIndex l.price = priceToIndex e.price ∧
      l' = { l with orders := l.orders ++ [e] }) ∨
    (∀ l ∈ ls, priceToIndex l.price ≠ priceToIndex e.price) ∧
      (l' ∈ ls ∨ l' = ⟨lp, e.price, [e]⟩) := by
  unfold restIn at h
  split_ifs at h with hslot
  · obtain ⟨l, hl, rfl⟩ := List.mem_map.mp h
    split_ifs with he
    · exact .inr (.inl ⟨l, hl, he, rfl⟩)
    · exact .inl ⟨hl, he⟩
  · simp only [not_exists, not_and] at hslot
    exact .inr (.inr ⟨hslot, by simpa using h⟩)

/-- A book without its links: the levels of each side from the best pointer's level on. -/
structure Ladder (κ : Type) where
  bids : List (Level κ)
  asks : List (Level κ)
  deriving DecidableEq

namespace Ladder

def on (a : Ladder κ) (side : Side) : List (Level κ) := if side = .BUY then a.bids else a.asks

def setOn (a : Ladder κ) (side : Side) (ls : List (Level κ)) : Ladder κ :=
  if side = .BUY then { a with bids := ls } else { a with asks := ls }

def levels (a : Ladder κ) : List (Level κ) := a.bids ++ a.asks

def entries (a : Ladder κ) : List (Entry κ) := queue a.levels

@[simp] theorem on_BUY (a : Ladder κ) : a.on .BUY = a.bids := rfl

@[simp] theorem on_SELL (a : Ladder κ) : a.on .SELL = a.asks := rfl

theorem on_setOn {a : Ladder κ} {side side' : Side} {ls : List (Level κ)} (hs : side ≠ .INVALID)
    (hs' : side' ≠ .INVALID) : (a.setOn side ls).on side' = if side' = side then ls else a.on side' := by
  cases side <;> cases side' <;> simp_all [on, setOn]

def remove (a : Ladder κ) (p : Ptr) : Ladder κ := ⟨removeFrom p a.bids, removeFrom p a.asks⟩

def setQty (a : Ladder κ) (p : Ptr) (qty : ℕ) : Ladder κ :=
  ⟨setQtyIn p qty a.bids, setQtyIn p qty a.asks⟩

def rest (a : Ladder κ) (lp : Ptr) (e : Entry κ) : Ladder κ :=
  a.setOn e.side (restIn lp e (a.on e.side))

theorem on_remove (a : Ladder κ) (p : Ptr) (side : Side) :
    (a.remove p).on side = removeFrom p (a.on side) := by
  unfold on remove
  split <;> rfl

theorem on_setQty (a : Ladder κ) (p : Ptr) (qty : ℕ) (side : Side) :
    (a.setQty p qty).on side = setQtyIn p qty (a.on side) := by
  unfold on setQty
  split <;> rfl

theorem levels_setQty (a : Ladder κ) (p : Ptr) (qty : ℕ) :
    (a.setQty p qty).levels = setQtyIn p qty a.levels := by
  simp only [levels, setQty, setQtyIn, List.map_append]

theorem entries_setQty (a : Ladder κ) (p : Ptr) (qty : ℕ) :
    (a.setQty p qty).entries = a.entries.map (withQty p qty) := by
  rw [entries, levels_setQty, queue_setQtyIn, entries]

theorem exists_levels_setQty {a : Ladder κ} {p : Ptr} {qty : ℕ} (P : Ptr → ℤ → Prop) :
    (∃ l ∈ (a.setQty p qty).levels, P l.ptr l.price) ↔ ∃ l ∈ a.levels, P l.ptr l.price := by
  simp only [levels_setQty, setQtyIn, List.mem_map, exists_exists_and_eq_and]

theorem exists_entries_setQty {a : Ladder κ} {p : Ptr} {qty : ℕ} (P : Ptr → κ → Prop) :
    (∃ e ∈ (a.setQty p qty).entries, P e.ptr e.key) ↔ ∃ e ∈ a.entries, P e.ptr e.key := by
  simp [entries_setQty]

theorem remove_setQty (a : Ladder κ) (p : Ptr) (qty : ℕ) : (a.setQty p qty).remove p = a.remove p := by
  simp only [remove, setQty, removeFrom_setQtyIn]

theorem ext_on {a a' : Ladder κ} (h : ∀ side, side ≠ .INVALID → a.on side = a'.on side) : a = a' := by
  cases a; cases a'
  simpa using And.intro (h .BUY (by decide)) (h .SELL (by decide))

theorem mem_levels {a : Ladder κ} {l : Level κ} :
    l ∈ a.levels ↔ ∃ side, side ≠ .INVALID ∧ l ∈ a.on side := by
  constructor
  · intro h
    rcases List.mem_append.mp h with h | h
    · exact ⟨.BUY, by decide, h⟩
    · exact ⟨.SELL, by decide, h⟩
  · rintro ⟨side, hs, h⟩
    cases side <;> simp_all [levels, on]

theorem exists_levels_setOn {a : Ladder κ} {side : Side} {ls : List (Level κ)}
    (hs : side ≠ .INVALID) (h : ls.map (fun l ↦ (l.ptr, l.price)) =
      (a.on side).map fun l ↦ (l.ptr, l.price)) (P : Ptr → ℤ → Prop) :
    (∃ l ∈ (a.setOn side ls).levels, P l.ptr l.price) ↔ ∃ l ∈ a.levels, P l.ptr l.price := by
  have key : ∀ ls' : List (Level κ), (∃ l ∈ ls', P l.ptr l.price) ↔
      ∃ q ∈ ls'.map (fun l ↦ (l.ptr, l.price)), P q.1 q.2 := by simp
  cases side with
  | INVALID => exact absurd rfl hs
  | BUY =>
    have h' : ls.map (fun l ↦ (l.ptr, l.price)) = a.bids.map fun l ↦ (l.ptr, l.price) := h
    rw [key, key]
    simp only [setOn, levels, if_true, List.map_append, h']
  | SELL =>
    have h' : ls.map (fun l ↦ (l.ptr, l.price)) = a.asks.map fun l ↦ (l.ptr, l.price) := h
    rw [key, key]
    simp only [setOn, levels, reduceCtorEq, if_false, List.map_append, h']

theorem mem_levels_setOn {a : Ladder κ} {side : Side} {l m : Level κ} (hs : side ≠ .INVALID) :
    l ∈ (a.setOn side (a.on side ++ [m])).levels ↔ l ∈ a.levels ∨ l = m := by
  cases side with
  | INVALID => exact absurd rfl hs
  | BUY => simp only [levels, setOn, on, if_true, List.mem_append, List.mem_singleton]; tauto
  | SELL =>
    simp only [levels, setOn, on, reduceCtorEq, if_false, List.mem_append, List.mem_singleton]
    tauto

theorem mem_entries {a : Ladder κ} {e : Entry κ} :
    e ∈ a.entries ↔ ∃ side, side ≠ .INVALID ∧ e ∈ queue (a.on side) := by
  simp only [entries, mem_queue, mem_levels]
  constructor
  · rintro ⟨l, ⟨side, hs, hl⟩, he⟩
    exact ⟨side, hs, l, hl, he⟩
  · rintro ⟨side, hs, l, hl, he⟩
    exact ⟨l, ⟨side, hs, hl⟩, he⟩

theorem entries_remove (a : Ladder κ) (p : Ptr) :
    (a.remove p).entries = a.entries.filter (·.ptr ≠ p) := by
  simp only [entries, levels, remove, queue_append, queue_removeFrom, List.filter_append]

theorem exists_level_of_remove {a : Ladder κ} {p : Ptr} {l' : Level κ}
    (h : l' ∈ (a.remove p).levels) : ∃ l ∈ a.levels, l.ptr = l'.ptr := by
  rw [levels, remove, ← removeFrom_append] at h
  obtain ⟨l, hl, rfl⟩ := List.mem_map.mp (List.mem_filter.mp h).1
  exact ⟨l, hl, rfl⟩

theorem mem_entries_remove {a : Ladder κ} {p : Ptr} {e : Entry κ} :
    e ∈ (a.remove p).entries ↔ e ∈ a.entries ∧ e.ptr ≠ p := by
  rw [entries_remove, List.mem_filter, decide_eq_true_eq]

theorem mem_levels_rest {a : Ladder κ} {lp : Ptr} {e : Entry κ} {l' : Level κ}
    (hs : e.side ≠ .INVALID) (h : l' ∈ (a.rest lp e).levels) :
    l' ∈ a.levels ∨ (∃ l ∈ a.on e.side, priceToIndex l.price = priceToIndex e.price ∧
      l' = { l with orders := l.orders ++ [e] }) ∨ l' = ⟨lp, e.price, [e]⟩ := by
  obtain ⟨side, hside, hl⟩ := mem_levels.mp h
  rw [rest, on_setOn hs hside] at hl
  split_ifs at hl with heq
  · rcases mem_restIn hl with ⟨hl, -⟩ | hjoin | ⟨-, hl | hl⟩
    · exact .inl (mem_levels.mpr ⟨e.side, hs, hl⟩)
    · exact .inr (.inl hjoin)
    · exact .inl (mem_levels.mpr ⟨e.side, hs, hl⟩)
    · exact .inr (.inr hl)
  · exact .inl (mem_levels.mpr ⟨side, hside, hl⟩)

theorem entries_rest_perm {a : Ladder κ} {lp : Ptr} {e : Entry κ} (hs : e.side ≠ .INVALID)
    (hd : ((a.on e.side).map fun l ↦ priceToIndex l.price).Nodup) :
    (a.rest lp e).entries.Perm (a.entries ++ [e]) := by
  have hq := queue_restIn_perm lp e hd
  unfold rest
  cases hside : e.side with
  | INVALID => exact absurd hside hs
  | BUY =>
    rw [hside] at hq
    simp only [entries, levels, setOn, if_true, queue_append, on_BUY] at hq ⊢
    rw [List.append_assoc]
    refine (hq.append_right _).trans ?_
    rw [List.append_assoc]
    exact List.perm_append_comm.append_left _
  | SELL =>
    rw [hside] at hq
    simp only [entries, levels, setOn, reduceCtorEq, if_false, queue_append, on_SELL] at hq ⊢
    rw [List.append_assoc]
    exact hq.append_left _

theorem mem_entries_rest {a : Ladder κ} {lp : Ptr} {e e' : Entry κ} (hs : e.side ≠ .INVALID)
    (hd : ((a.on e.side).map fun l ↦ priceToIndex l.price).Nodup) :
    e' ∈ (a.rest lp e).entries ↔ e' ∈ a.entries ∨ e' = e := by
  rw [(entries_rest_perm hs hd).mem_iff, List.mem_append, List.mem_singleton]

theorem length_entries_rest {a : Ladder κ} {lp : Ptr} {e : Entry κ} (hs : e.side ≠ .INVALID)
    (hd : ((a.on e.side).map fun l ↦ priceToIndex l.price).Nodup) :
    (a.rest lp e).entries.length = a.entries.length + 1 := by
  rw [(entries_rest_perm hs hd).length_eq, List.length_append, List.length_singleton]

end Ladder

end LowLatency.Book
