import Mathlib.Tactic

namespace LowLatency

inductive Way
  | buy
  | sell
  deriving DecidableEq, Repr

namespace Way

def other : Way → Way
  | .buy => .sell
  | .sell => .buy

/-- A resting order of this side at `p` trades before one at `q`. -/
def Before : Way → ℤ → ℤ → Prop
  | .buy, p, q => q < p
  | .sell, p, q => p < q

instance : ∀ (w : Way) (p q : ℤ), Decidable (w.Before p q)
  | .buy, p, q => inferInstanceAs (Decidable (q < p))
  | .sell, p, q => inferInstanceAs (Decidable (p < q))

variable {w : Way} {p q r : ℤ}

theorem Before.asymm (h : w.Before p q) : ¬ w.Before q p := by
  cases w <;> exact (lt_asymm h ·)

theorem Before.trans_not (h : w.Before p q) (h' : ¬ w.Before r q) : w.Before p r := by
  cases w with
  | buy => exact (not_lt.mp h').trans_lt h
  | sell => exact lt_of_lt_of_le h (not_lt.mp h')

end Way

structure BookOrder (ι : Type) where
  id : ι
  price : ℤ
  qty : ℕ
  deriving DecidableEq, Repr

/-- A trade with a resting order, and what it leaves of it. -/
structure Deal (ι : Type) where
  id : ι
  price : ℤ
  qty : ℕ
  left : ℕ
  deriving DecidableEq, Repr

/-- What the orders of one side make of an incoming order, and it of them. -/
structure Swept (ι : Type) where
  deals : List (Deal ι)
  leaves : ℕ
  rest : List (BookOrder ι)
  deriving DecidableEq, Repr

/-- A market in which orders trade by price and then by time: each side is a list in that order. -/
structure PriorityBook (ι : Type) where
  bids : List (BookOrder ι)
  asks : List (BookOrder ι)
  deriving DecidableEq, Repr

inductive BookEvent (ι : Type)
  | traded (w : Way) (d : Deal ι)
  | rested (w : Way) (o : BookOrder ι)
  | canceled (w : Way) (o : BookOrder ι)
  deriving DecidableEq, Repr

inductive BookAct (ι : Type)
  | add (w : Way) (o : BookOrder ι)
  | cancel (id : ι)
  deriving DecidableEq, Repr

variable {ι : Type}

/-- Behind all orders that are at least as good. -/
def place (w : Way) (o : BookOrder ι) : List (BookOrder ι) → List (BookOrder ι)
  | [] => [o]
  | o' :: os => if w.Before o.price o'.price then o :: o' :: os else o' :: place w o os

/-- An incoming order trades with the orders of the side `w` from the front, until nothing is left of it or
they are beyond its limit. -/
def sweepOrders (w : Way) (limit : ℤ) : ℕ → List (BookOrder ι) → Swept ι
  | qty, [] => ⟨[], qty, []⟩
  | qty, o :: os =>
    if qty = 0 ∨ w.Before limit o.price then ⟨[], qty, o :: os⟩
    else if qty < o.qty then ⟨[⟨o.id, o.price, qty, o.qty - qty⟩], 0, { o with qty := o.qty - qty } :: os⟩
    else
      let s := sweepOrders w limit (qty - o.qty) os
      ⟨⟨o.id, o.price, o.qty, 0⟩ :: s.deals, s.leaves, s.rest⟩

namespace PriorityBook

def on (b : PriorityBook ι) : Way → List (BookOrder ι)
  | .buy => b.bids
  | .sell => b.asks

def setOn (b : PriorityBook ι) (os : List (BookOrder ι)) : Way → PriorityBook ι
  | .buy => { b with bids := os }
  | .sell => { b with asks := os }

def add (b : PriorityBook ι) (w : Way) (o : BookOrder ι) : PriorityBook ι × List (BookEvent ι) :=
  let s := sweepOrders w.other o.price o.qty (b.on w.other)
  let b := b.setOn s.rest w.other
  let left := { o with qty := s.leaves }
  if s.leaves = 0 then (b, s.deals.map (.traded w))
  else (b.setOn (place w left (b.on w)) w, s.deals.map (.traded w) ++ [.rested w left])

variable [DecidableEq ι]

def cancel (b : PriorityBook ι) (id : ι) : PriorityBook ι × List (BookEvent ι) :=
  (⟨b.bids.filter (·.id ≠ id), b.asks.filter (·.id ≠ id)⟩,
    (b.bids.filter (·.id = id)).map (.canceled .buy) ++ (b.asks.filter (·.id = id)).map (.canceled .sell))

def act (b : PriorityBook ι) : BookAct ι → PriorityBook ι × List (BookEvent ι)
  | .add w o => b.add w o
  | .cancel id => b.cancel id

def play (s : PriorityBook ι × List (BookEvent ι)) (acts : List (BookAct ι)) :
    PriorityBook ι × List (BookEvent ι) :=
  acts.foldl (fun s a ↦ ((s.1.act a).1, s.2 ++ (s.1.act a).2)) s

def replay (acts : List (BookAct ι)) : PriorityBook ι × List (BookEvent ι) := play (⟨[], []⟩, []) acts

end PriorityBook

section Sides

variable {w : Way} {o : BookOrder ι} {os os' : List (BookOrder ι)} {limit : ℤ} {qty : ℕ}

def ByPrice (w : Way) (os : List (BookOrder ι)) : Prop :=
  (os.map BookOrder.price).Pairwise fun p q ↦ ¬ w.Before q p

theorem place_append (h : ∀ o' ∈ os, ¬ w.Before o.price o'.price) (h' : ∀ o' ∈ os', w.Before o.price o'.price) :
    place w o (os ++ os') = os ++ o :: os' := by
  induction os with
  | nil =>
    cases os' with
    | nil => rfl
    | cons o' os' => exact if_pos (h' o' List.mem_cons_self)
  | cons o' os ih =>
    rw [List.cons_append, place, if_neg (h o' List.mem_cons_self),
      ih fun o'' ho'' ↦ h o'' (List.mem_cons_of_mem o' ho''), List.cons_append]

theorem mem_place {o' : BookOrder ι} : o' ∈ place w o os ↔ o' = o ∨ o' ∈ os := by
  induction os with
  | nil => simp [place]
  | cons o'' os ih =>
    rw [place]
    split_ifs
    · exact List.mem_cons
    · rw [List.mem_cons, ih, List.mem_cons, or_left_comm]

theorem byPrice_cons {o' : BookOrder ι} :
    ByPrice w (o' :: os) ↔ (∀ o ∈ os, ¬ w.Before o.price o'.price) ∧ ByPrice w os := by
  rw [ByPrice, List.map_cons, List.pairwise_cons, List.forall_mem_map]
  rfl

theorem ByPrice.place (h : ByPrice w os) : ByPrice w (place w o os) := by
  induction os with
  | nil => exact List.pairwise_singleton _ _
  | cons o' os ih =>
    obtain ⟨hhead, htail⟩ := byPrice_cons.mp h
    rw [LowLatency.place]
    split_ifs with hbefore
    · refine byPrice_cons.mpr ⟨fun o'' ho'' ↦ ?_, h⟩
      rcases List.mem_cons.mp ho'' with rfl | ho''
      · exact hbefore.asymm
      · exact (hbefore.trans_not (hhead o'' ho'')).asymm
    · refine byPrice_cons.mpr ⟨fun o'' ho'' ↦ ?_, ih htail⟩
      rcases mem_place.mp ho'' with rfl | ho''
      · exact hbefore
      · exact hhead o'' ho''

theorem sweep_prices (w : Way) (limit : ℤ) (qty : ℕ) (os : List (BookOrder ι)) :
    ((sweepOrders w limit qty os).rest.map BookOrder.price).Sublist (os.map BookOrder.price) := by
  induction os generalizing qty with
  | nil => exact .slnil
  | cons o os ih =>
    rw [sweepOrders]
    split_ifs
    · exact .refl _
    · exact .refl _
    · exact (ih (qty - o.qty)).cons _

theorem ByPrice.sweep (h : ByPrice w os) : ByPrice w (sweepOrders w limit qty os).rest :=
  h.sublist (sweep_prices w limit qty os)

theorem beyond_of_sweep (h : ByPrice w os) (hleft : (sweepOrders w limit qty os).leaves ≠ 0) :
    ∀ o ∈ (sweepOrders w limit qty os).rest, w.Before limit o.price := by
  induction os generalizing qty with
  | nil => exact fun o ho ↦ absurd ho List.not_mem_nil
  | cons o os ih =>
    obtain ⟨hhead, htail⟩ := byPrice_cons.mp h
    rw [sweepOrders] at hleft ⊢
    split_ifs at hleft ⊢ with hstop hpart
    · have hbefore : w.Before limit o.price := hstop.resolve_left hleft
      intro o' ho'
      rcases List.mem_cons.mp ho' with rfl | ho'
      · exact hbefore
      · exact hbefore.trans_not (hhead o' ho')
    · exact absurd rfl hleft
    · exact ih htail hleft

end Sides

namespace PriorityBook

variable {b b' : PriorityBook ι} {w : Way} {o : BookOrder ι} {os : List (BookOrder ι)}

@[simp] theorem on_setOn (b : PriorityBook ι) (os : List (BookOrder ι)) (w : Way) : (b.setOn os w).on w = os := by
  cases w <;> rfl

@[simp] theorem on_setOn_other (b : PriorityBook ι) (os : List (BookOrder ι)) (w : Way) :
    (b.setOn os w).on w.other = b.on w.other := by cases w <;> rfl

@[simp] theorem on_setOn_other' (b : PriorityBook ι) (os : List (BookOrder ι)) (w : Way) :
    (b.setOn os w.other).on w = b.on w := by cases w <;> rfl

/-- Both sides are in order, and no bid reaches an ask. -/
structure Ordered (b : PriorityBook ι) : Prop where
  byPrice : ∀ w, ByPrice w (b.on w)
  uncrossed : ∀ o ∈ b.bids, ∀ o' ∈ b.asks, o.price < o'.price

theorem Ordered.beyond (h : b.Ordered) (w : Way) :
    ∀ o ∈ b.on w, ∀ o' ∈ b.on w.other, w.other.Before o.price o'.price := by
  cases w with
  | buy => exact h.uncrossed
  | sell => exact fun o ho o' ho' ↦ h.uncrossed o' ho' o ho

theorem Ordered.of_way (w : Way) (h : ByPrice w (b.on w)) (h' : ByPrice w.other (b.on w.other))
    (hx : ∀ o ∈ b.on w, ∀ o' ∈ b.on w.other, w.other.Before o.price o'.price) : b.Ordered := by
  cases w with
  | buy =>
    refine ⟨fun w ↦ ?_, hx⟩
    cases w with
    | buy => exact h
    | sell => exact h'
  | sell =>
    refine ⟨fun w ↦ ?_, fun o ho o' ho' ↦ hx o' ho' o ho⟩
    cases w with
    | buy => exact h'
    | sell => exact h

theorem ordered_empty : (⟨[], []⟩ : PriorityBook ι).Ordered := by
  refine ⟨fun w ↦ ?_, fun o ho ↦ absurd ho List.not_mem_nil⟩
  cases w <;> exact List.Pairwise.nil

theorem Ordered.add (h : b.Ordered) (w : Way) (o : BookOrder ι) : (b.add w o).1.Ordered := by
  have hrest : ByPrice w.other (sweepOrders w.other o.price o.qty (b.on w.other)).rest :=
    (h.byPrice w.other).sweep
  have hx : ∀ o₁ ∈ b.on w, ∀ o₂ ∈ (sweepOrders w.other o.price o.qty (b.on w.other)).rest,
      w.other.Before o₁.price o₂.price := by
    intro o₁ ho₁ o₂ ho₂
    obtain ⟨o', ho', hprice⟩ := List.mem_map.mp
      ((sweep_prices w.other o.price o.qty (b.on w.other)).mem (List.mem_map_of_mem ho₂))
    exact hprice ▸ h.beyond w o₁ ho₁ o' ho'
  unfold PriorityBook.add
  dsimp only
  split_ifs with hleft
  · refine .of_way w ?_ ?_ ?_
    · simpa using h.byPrice w
    · simpa using hrest
    · simpa using hx
  · refine .of_way w ?_ ?_ fun o₁ ho₁ o₂ ho₂ ↦ ?_
    · simpa using (h.byPrice w).place
    · simpa using hrest
    · simp only [on_setOn, on_setOn_other, on_setOn_other'] at ho₁ ho₂
      rcases mem_place.mp ho₁ with rfl | ho₁
      · exact beyond_of_sweep (h.byPrice w.other) hleft o₂ ho₂
      · exact hx o₁ ho₁ o₂ ho₂

variable [DecidableEq ι]

theorem Ordered.cancel (h : b.Ordered) (id : ι) : (b.cancel id).1.Ordered where
  byPrice := fun w ↦ by
    cases w with
    | buy => exact (h.byPrice .buy).sublist (List.filter_sublist.map _)
    | sell => exact (h.byPrice .sell).sublist (List.filter_sublist.map _)
  uncrossed := fun o ho o' ho' ↦ h.uncrossed o (List.mem_of_mem_filter ho) o' (List.mem_of_mem_filter ho')

theorem play_append (s : PriorityBook ι × List (BookEvent ι)) (acts acts' : List (BookAct ι)) :
    play s (acts ++ acts') = play (play s acts) acts' := List.foldl_append

/-- Whatever is added and canceled, the book is in order. -/
theorem ordered_replay (acts : List (BookAct ι)) : (replay acts).1.Ordered := by
  induction acts using List.reverseRecOn with
  | nil => exact ordered_empty
  | append_singleton acts a ih =>
    rw [replay, play_append]
    cases a with
    | add w o => exact Ordered.add ih w o
    | cancel id => exact Ordered.cancel ih id

end PriorityBook

end LowLatency
