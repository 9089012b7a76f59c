import LowLatency.Exchange.Arrivals

namespace LowLatency.Exchange

open Common Book MEOrderBook

def total (type : ClientResponseType) (field : MEClientResponse → Qty) (id : OrderId)
    (outs : List Output) : ℕ :=
  (outs.map fun
    | .response r => if r.type = type ∧ r.marketOrderId = id then field r else 0
    | .update _ => 0).sum

def accepted : OrderId → List Output → ℕ := total .ACCEPTED MEClientResponse.leavesQty

def filled : OrderId → List Output → ℕ := total .FILLED MEClientResponse.execQty

def canceled : OrderId → List Output → ℕ := total .CANCELED MEClientResponse.leavesQty

def openQty (id : OrderId) (outs : List Output) : ℤ :=
  accepted id outs - filled id outs - canceled id outs

@[simp] theorem openQty_append (id : OrderId) (xs ys : List Output) :
    openQty id (xs ++ ys) = openQty id xs + openQty id ys := by
  simp only [openQty, accepted, filled, canceled, total, List.map_append, List.sum_append]
  omega

@[simp] theorem openQty_cons (id : OrderId) (x y : Output) (xs : List Output) :
    openQty id (x :: y :: xs) = openQty id [x] + openQty id (y :: xs) := openQty_append id [x] (y :: xs)

@[simp] theorem openQty_nil (id : OrderId) : openQty id [] = 0 := rfl

@[simp] theorem openQty_update (id : OrderId) (u : MEMarketUpdate) : openQty id [.update u] = 0 := rfl

@[simp] theorem openQty_response (id : OrderId) (r : MEClientResponse) :
    openQty id [.response r] = if r.marketOrderId = id then
      match r.type with
      | .ACCEPTED => (r.leavesQty : ℤ)
      | .FILLED => -(r.execQty : ℤ)
      | .CANCELED => -(r.leavesQty : ℤ)
      | _ => 0
    else 0 := by
  cases h : r.type <;> by_cases hid : r.marketOrderId = id <;>
    simp [openQty, accepted, filled, canceled, total, h, hid]

/-- A message agrees with those before it: ids are accepted once, and what is reported as filled,
left, canceled or modified is what was open. -/
def Justified (before : List Output) : Output → Prop
  | .response r =>
    match r.type with
    | .ACCEPTED => ∀ r', .response r' ∈ before → r'.type = .ACCEPTED →
        r'.marketOrderId ≠ r.marketOrderId
    | .FILLED => 0 < r.execQty ∧ openQty r.marketOrderId before = r.execQty + r.leavesQty
    | .CANCELED => 0 < r.leavesQty ∧ openQty r.marketOrderId before = r.leavesQty
    | _ => True
  | .update u =>
    match u.type with
    | .MODIFY => 0 < u.qty ∧ openQty u.orderId before = u.qty
    | .TRADE => ∃ pre r r', before = pre ++ [.response r, .response r'] ∧ r.type = .FILLED ∧
        r'.type = .FILLED ∧ r.execQty = u.qty ∧ r'.execQty = u.qty
    | _ => True

/-- The messages account for the resting orders, and for `leaves` of the order `id` that is being
matched. Orders are told apart by their addresses and by their ids. -/
structure Ledger (outs : List Output) (a : Ladder MEOrderKey) (id : OrderId) (leaves : ℕ) : Prop where
  fair : EachAfter Justified [] outs
  resting : ∀ e ∈ a.entries, 0 < e.qty ∧ e.key.marketOrderId < id ∧
    openQty e.key.marketOrderId outs = e.qty
  inj : ∀ e ∈ a.entries, ∀ e' ∈ a.entries,
    (e.ptr = e'.ptr ∨ e.key.marketOrderId = e'.key.marketOrderId) → e = e'
  incoming : openQty id outs = leaves
  others : ∀ id', id' ≠ id → (∀ e ∈ a.entries, e.key.marketOrderId ≠ id') → openQty id' outs = 0

namespace Ledger

variable {outs : List Output} {a : Ladder MEOrderKey} {id : OrderId} {leaves : ℕ} {o : NewOrder}

theorem openQty_fillOutputs (o : NewOrder) (id id' : OrderId) (f : Fill MEOrderKey) :
    openQty id' (fillOutputs o id f) = (if id = id' then -(f.qty : ℤ) else 0) +
      if f.entry.key.marketOrderId = id' then -(f.qty : ℤ) else 0 := by
  simp [fillOutputs]

theorem fair_fillOutputs {f : Fill MEOrderKey} (hq : 0 < f.qty) (hle : f.qty ≤ f.entry.qty)
    (hne : id ≠ f.entry.key.marketOrderId)
    (hid : openQty id outs = (f.qty + f.leaves : ℕ))
    (hentry : openQty f.entry.key.marketOrderId outs = f.entry.qty) :
    EachAfter Justified outs (fillOutputs o id f) := by
  refine ⟨⟨hq, by simpa using hid⟩, ⟨hq, ?_⟩, ?_, ?_, trivial⟩
  · simp [hne, hentry]
    omega
  · exact ⟨outs, _, _, List.append_assoc _ _ _, rfl, rfl, rfl, rfl⟩
  · by_cases hfull : f.entry.qty = f.qty
    · rw [if_pos hfull]
      trivial
    · rw [if_neg hfull]
      refine ⟨?_, ?_⟩
      · exact Nat.sub_pos_of_lt (lt_of_le_of_ne hle (Ne.symm hfull))
      · simp [hne, hentry]
        omega

section Others

variable {e e' : Entry MEOrderKey} {id' : OrderId}

theorem marketOrderId_ne (h : Ledger outs a id leaves) (he : e ∈ a.entries) (he' : e' ∈ a.entries)
    (hp : e'.ptr ≠ e.ptr) : e.key.marketOrderId ≠ e'.key.marketOrderId := fun hk ↦
  hp (congrArg Entry.ptr (h.inj e' he' e he (.inr hk.symm)))

theorem others_without (h : Ledger outs a id leaves) (he : e ∈ a.entries) (hne : id' ≠ id)
    (hid : e.key.marketOrderId ≠ id')
    (hnone : ∀ e' ∈ a.entries, e'.ptr ≠ e.ptr → e'.key.marketOrderId ≠ id') : openQty id' outs = 0 :=
  h.others id' hne fun e' he' ↦ by
    by_cases hp : e'.ptr = e.ptr
    · rw [h.inj e' he' e he (.inl hp)]
      exact hid
    · exact hnone e' he' hp

theorem inj_insert {P Q : Entry MEOrderKey → Prop}
    (hP : ∀ e₁, P e₁ → ∀ e₂, P e₂ →
      (e₁.ptr = e₂.ptr ∨ e₁.key.marketOrderId = e₂.key.marketOrderId) → e₁ = e₂)
    (hnew : ∀ e', P e' → e'.ptr ≠ e.ptr ∧ e'.key.marketOrderId ≠ e.key.marketOrderId)
    (hQ : ∀ e', Q e' → P e' ∨ e' = e) : ∀ e₁, Q e₁ → ∀ e₂, Q e₂ →
      (e₁.ptr = e₂.ptr ∨ e₁.key.marketOrderId = e₂.key.marketOrderId) → e₁ = e₂ := by
  intro e₁ he₁ e₂ he₂ heq
  rcases hQ e₁ he₁ with he₁ | rfl
  · rcases hQ e₂ he₂ with he₂ | rfl
    · exact hP e₁ he₁ e₂ he₂ heq
    · exact (heq.elim (hnew e₁ he₁).1 (hnew e₁ he₁).2).elim
  · rcases hQ e₂ he₂ with he₂ | rfl
    · exact (heq.elim (fun hp ↦ (hnew e₂ he₂).1 hp.symm) fun hk ↦ (hnew e₂ he₂).2 hk.symm).elim
    · rfl

end Others

theorem fill (h : Ledger outs a id leaves) {e : Entry MEOrderKey} (he : e ∈ a.entries)
    (hl : leaves ≠ 0) :
    Ledger (outs ++ fillOutputs o id ⟨e, min leaves e.qty, leaves - min leaves e.qty⟩)
      (a.trade ⟨e, min leaves e.qty, leaves - min leaves e.qty⟩) id (leaves - min leaves e.qty) := by
  obtain ⟨hpos, hlt, hopen⟩ := h.resting e he
  obtain ⟨q, hq⟩ : ∃ q, q = min leaves e.qty := ⟨_, rfl⟩
  have hmem := fun e' ↦ Ladder.mem_entries_trade (f := ⟨e, q, leaves - q⟩) (e := e') he
    fun e' he' hp ↦ h.inj e' he' e he (.inl hp)
  rw [← hq]
  constructor
  · refine eachAfter_append.mpr ⟨h.fair, ?_⟩
    rw [List.nil_append]
    refine fair_fillOutputs ?_ ?_ hlt.ne' ?_ hopen
    · change 0 < q
      omega
    · change q ≤ e.qty
      omega
    · rw [h.incoming]
      change (leaves : ℤ) = (q + (leaves - q) : ℕ)
      omega
  · intro e' he'
    rcases (hmem e').mp he' with ⟨he', hp⟩ | ⟨hpart, rfl⟩
    · obtain ⟨hpos', hlt', hopen'⟩ := h.resting e' he'
      refine ⟨hpos', hlt', ?_⟩
      simp [openQty_fillOutputs, hopen', hlt'.ne', h.marketOrderId_ne he he' hp]
    · change e.qty ≠ q at hpart
      refine ⟨?_, hlt, ?_⟩
      · change 0 < e.qty - q
        omega
      · simp [openQty_fillOutputs, hopen, hlt.ne']
        omega
  · exact inj_insert (e := { e with qty := e.qty - q })
      (P := fun e' ↦ e' ∈ a.entries ∧ e'.ptr ≠ e.ptr)
      (fun e₁ he₁ e₂ he₂ ↦ h.inj e₁ he₁.1 e₂ he₂.1)
      (fun e' he' ↦ ⟨he'.2, (h.marketOrderId_ne he he'.1 he'.2).symm⟩)
      fun e' he' ↦ ((hmem e').mp he').imp_right And.right
  · simp [openQty_fillOutputs, h.incoming, hlt.ne]
    omega
  · intro id' hne hnone
    by_cases hid : e.key.marketOrderId = id'
    · -- the order is gone, so it was filled
      have hfull : e.qty = q := by
        by_contra hpart
        exact hnone _ ((hmem _).mpr (.inr ⟨hpart, rfl⟩)) hid
      simp [openQty_fillOutputs, ← hid, hopen, hlt.ne', hfull]
    · have hzero := h.others_without he hne hid fun e' he' hp ↦
        hnone e' ((hmem e').mpr (.inl ⟨he', hp⟩))
      simp [openQty_fillOutputs, hzero, hne.symm, hid]

theorem sweeps {side : Side} {fs : List (Fill MEOrderKey)} (hs : side ≠ .INVALID)
    (hsweep : Ladder.Sweeps side a leaves fs) (h : Ledger outs a id leaves) :
    Ledger (outs ++ fs.flatMap (fillOutputs o id)) (a.traded fs) id
      (leaves - (fs.map Fill.qty).sum) := by
  induction hsweep generalizing outs with
  | nil => simpa using h
  | @cons a leaves e es fs hq hl _ ih =>
    have he : e ∈ a.entries := Ladder.mem_entries.mpr ⟨side, hs, by simp [hq]⟩
    have := ih (h.fill (o := o) he hl)
    rw [List.flatMap_cons, ← List.append_assoc, Ladder.traded_cons, List.map_cons, List.sum_cons,
      ← Nat.sub_sub]
    exact this

theorem accept (h : Ledger outs a id 0)
    (hnew : ∀ r, .response r ∈ outs → r.type = .ACCEPTED → r.marketOrderId < id) :
    Ledger (outs ++ [.response ⟨.ACCEPTED, o.clientId, o.tickerId, o.clientOrderId, id, o.side,
      o.price, 0, o.qty⟩]) a id o.qty where
  fair := eachAfter_concat.mpr ⟨h.fair, fun r hr ht ↦ (hnew r hr ht).ne⟩
  resting := fun e he ↦ by
    obtain ⟨hpos, hlt, hopen⟩ := h.resting e he
    exact ⟨hpos, hlt, by simp [hopen, hlt.ne']⟩
  inj := h.inj
  incoming := by simp [h.incoming]
  others := fun id' hne hnone ↦ by simp [h.others id' hne hnone, hne.symm]

/-- Trading accounts for the incoming order as far as its id survives the narrowing to a `Qty`. -/
theorem trade (h : Ledger outs a id 0)
    (hnew : ∀ r, .response r ∈ outs → r.type = .ACCEPTED → r.marketOrderId < id)
    (hside : o.side ≠ .INVALID)
    (hfits : o.qty = 0 ∨ a.crossing o.side o.price = [] ∨ id < 2 ^ 32)
    (hd : ((queue (a.on (against o.side))).map Entry.ptr).Nodup) :
    Ledger (outs ++ tradeOutputs a o id) (a.traded (a.fills o.side o.price o.qty)) id
      (o.qty - offered (a.crossing o.side o.price)) := by
  have hfills : Ladder.Sweeps (against o.side) a o.qty (a.fills o.side o.price o.qty) :=
    Ladder.sweeps_fills o.qty hd
  have hsweep := (h.accept (o := o) hnew).sweeps (o := o) (by simpa using hside) hfills
  have hids : (a.fills o.side o.price o.qty).flatMap (fillOutputs o (id % 2 ^ 32)) =
      (a.fills o.side o.price o.qty).flatMap (fillOutputs o id) := by
    rcases hfits with hq | hq | hid
    · rw [Ladder.fills, hq, sweep_zero]
      rfl
    · rw [Ladder.fills, hq]
      rfl
    · rw [Nat.mod_eq_of_lt hid]
  have hleaves : o.qty - ((a.fills o.side o.price o.qty).map Fill.qty).sum =
      o.qty - offered (a.crossing o.side o.price) := by
    rw [Ladder.fills, sweep_qty]
    exact tsub_min
  rw [hleaves, List.append_assoc] at hsweep
  rw [tradeOutputs, hids]
  exact hsweep

theorem next (h : Ledger outs a id 0) : Ledger outs a (id + 1) 0 where
  fair := h.fair
  resting := fun e he ↦ by
    obtain ⟨hpos, hlt, hopen⟩ := h.resting e he
    exact ⟨hpos, Nat.lt_succ_of_lt hlt, hopen⟩
  inj := h.inj
  incoming := h.others (id + 1) (Nat.succ_ne_self id) fun e he ↦
    (Nat.lt_succ_of_lt (h.resting e he).2.1).ne
  others := fun id' _ hnone ↦ by
    by_cases hid : id' = id
    · exact hid ▸ h.incoming
    · exact h.others id' hid hnone

theorem rest (h : Ledger outs a id leaves) (hpos : 0 < leaves) {e : Entry MEOrderKey}
    (hq : e.qty = leaves) (hid : e.key.marketOrderId = id) (hfresh : ∀ e' ∈ a.entries, e'.ptr ≠ e.ptr)
    {a' : Ladder MEOrderKey} (hmem : ∀ e', e' ∈ a'.entries ↔ e' ∈ a.entries ∨ e' = e) :
    Ledger (outs ++ [restOutput o e]) a' (id + 1) 0 where
  fair := eachAfter_concat.mpr ⟨h.fair, trivial⟩
  resting := fun e' he' ↦ by
    rcases (hmem e').mp he' with he' | rfl
    · obtain ⟨hpos', hlt, hopen⟩ := h.resting e' he'
      exact ⟨hpos', Nat.lt_succ_of_lt hlt, by simp [restOutput, hopen]⟩
    · exact ⟨hq ▸ hpos, hid ▸ Nat.lt_succ_self _, by simp [restOutput, hid, h.incoming, hq]⟩
  inj := inj_insert h.inj (fun e' he' ↦ ⟨hfresh e' he', hid ▸ (h.resting e' he').2.1.ne⟩)
    fun e' he' ↦ (hmem e').mp he'
  incoming := by
    have := h.others (id + 1) (Nat.succ_ne_self id) fun e' he' ↦
      (Nat.lt_succ_of_lt (h.resting e' he').2.1).ne
    simp [restOutput, this]
  others := fun id' hne hnone ↦ by
    have hne' : id' ≠ id := fun heq ↦ hnone e ((hmem e).mpr (.inr rfl)) (hid.trans heq.symm)
    simp [restOutput, h.others id' hne' fun e' he' ↦ hnone e' ((hmem e').mpr (.inl he'))]

theorem cancel (h : Ledger outs a id 0) {e : Entry MEOrderKey} (he : e ∈ a.entries)
    (clientId : ClientId) (orderId : OrderId) (tickerId : TickerId) :
    Ledger (outs ++ canceledOutputs clientId orderId tickerId e) (a.remove e.ptr) id 0 := by
  obtain ⟨hpos, hlt, hopen⟩ := h.resting e he
  have hchange : ∀ id', openQty id' (canceledOutputs clientId orderId tickerId e) =
      if e.key.marketOrderId = id' then -(e.qty : ℤ) else 0 := fun id' ↦ by simp [canceledOutputs]
  constructor
  · refine eachAfter_append.mpr ⟨h.fair, trivial, ⟨hpos, ?_⟩, trivial⟩
    simpa using hopen
  · intro e' he'
    obtain ⟨he', hp⟩ := Ladder.mem_entries_remove.mp he'
    obtain ⟨hpos', hlt', hopen'⟩ := h.resting e' he'
    exact ⟨hpos', hlt', by simp [hchange, hopen', h.marketOrderId_ne he he' hp]⟩
  · intro e₁ he₁ e₂ he₂
    exact h.inj e₁ (Ladder.mem_entries_remove.mp he₁).1 e₂ (Ladder.mem_entries_remove.mp he₂).1
  · simp [hchange, h.incoming, hlt.ne]
  · intro id' hne hnone
    by_cases hid : e.key.marketOrderId = id'
    · simp [hchange, ← hid, hopen]
    · have hzero := h.others_without he hne hid fun e' he' hp ↦
        hnone e' (Ladder.mem_entries_remove.mpr ⟨he', hp⟩)
      simp [hchange, hzero, hid]

theorem reject (h : Ledger outs a id 0) (clientId : ClientId) (orderId : OrderId)
    (tickerId : TickerId) :
    Ledger (outs ++ [.response (rejection clientId orderId tickerId)]) a id 0 where
  fair := eachAfter_concat.mpr ⟨h.fair, trivial⟩
  resting := fun e he ↦ by simpa [rejection] using h.resting e he
  inj := h.inj
  incoming := by simpa [rejection] using h.incoming
  others := fun id' hne hnone ↦ by simpa [rejection] using h.others id' hne hnone

end Ledger

theorem accepted_eq_zero {id : OrderId} {outs : List Output} (h : ∀ r, .response r ∈ outs →
    r.type = .ACCEPTED → r.marketOrderId ≠ id) : accepted id outs = 0 := by
  refine List.sum_eq_zero fun n hn ↦ ?_
  obtain ⟨out, hout, rfl⟩ := List.mem_map.mp hn
  cases out with
  | update u => rfl
  | response r => exact if_neg fun ⟨ht, hid⟩ ↦ h r hout ht hid

theorem accepted_append (id : OrderId) (xs ys : List Output) :
    accepted id (xs ++ ys) = accepted id xs + accepted id ys := by
  simp [accepted, total]

theorem accepted_eq {outs : List Output} (h : EachAfter Justified [] outs) {r : MEClientResponse}
    (hr : .response r ∈ outs) (ht : r.type = .ACCEPTED) :
    accepted r.marketOrderId outs = r.leavesQty := by
  induction outs using List.reverseRecOn with
  | nil => cases hr
  | append_singleton outs out ih =>
    obtain ⟨hfair, hout⟩ := eachAfter_concat.mp h
    rw [List.nil_append] at hout
    rw [accepted_append]
    rcases List.mem_append.mp hr with hmem | hr
    · have hzero : accepted r.marketOrderId [out] = 0 := accepted_eq_zero fun r' hr' ht' hid ↦ by
        obtain rfl := List.mem_singleton.mp hr'
        simp only [Justified, ht'] at hout
        exact hout r hmem ht hid.symm
      rw [ih hfair hmem, hzero, Nat.add_zero]
    · obtain rfl := List.mem_singleton.mp hr
      simp only [Justified, ht] at hout
      rw [accepted_eq_zero hout]
      simp [accepted, total, ht]

namespace MEOrderBook

variable {s s' : MEOrderBook} {c : Call} {o : NewOrder} {cs : List Call} {tickerId : TickerId}

def resting (s : MEOrderBook) (id : OrderId) : ℕ :=
  ((s.ladder.entries.find? (·.key.marketOrderId = id)).map Entry.qty).getD 0

/-- What `c` sends is justified by the messages before it, and afterwards every order ever accepted
is filled, canceled or at rest with its whole quantity. -/
def Conserves (s : MEOrderBook) (c : Call) : Prop :=
  EachAfter Justified [] (s.sent ++ s.outputsOf c) ∧
  ∀ s', s.step c = .ok s' → ∀ r, .response r ∈ s'.sent → r.type = .ACCEPTED →
    r.leavesQty = filled r.marketOrderId s'.sent + canceled r.marketOrderId s'.sent +
      s'.resting r.marketOrderId

/-- The ids do not wrap around, and one that is reported for a trade fits the `Qty` it is passed as. -/
def IdFits (s : MEOrderBook) : Call → Prop
  | .add o => s.nextMarketOrderId + 1 < 2 ^ 64 ∧ (o.qty = 0 ∨ s.ladder.crossing o.side o.price = [] ∨
      s.nextMarketOrderId < 2 ^ 32)
  | .cancel _ _ _ => True

instance : DecidableRel IdFits
  | _, .add _ => inferInstanceAs (Decidable (_ ∧ _))
  | _, .cancel _ _ _ => inferInstanceAs (Decidable True)

structure Accounted (s : MEOrderBook) : Prop where
  ledger : Ledger s.sent s.ladder s.nextMarketOrderId 0
  new : ∀ r, .response r ∈ s.sent → r.type = .ACCEPTED → r.marketOrderId < s.nextMarketOrderId

theorem Accounted.conserved (h : s.Accounted) {r : MEClientResponse} (hr : .response r ∈ s.sent)
    (ht : r.type = .ACCEPTED) : r.leavesQty = filled r.marketOrderId s.sent +
      canceled r.marketOrderId s.sent + s.resting r.marketOrderId := by
  have hopen : openQty r.marketOrderId s.sent = s.resting r.marketOrderId := by
    unfold resting
    cases hfind : s.ladder.entries.find? (·.key.marketOrderId = r.marketOrderId) with
    | none =>
      have hnone := List.find?_eq_none.mp hfind
      exact h.ledger.others _ (h.new r hr ht).ne fun e he ↦ by simpa using hnone e he
    | some e =>
      have hid : e.key.marketOrderId = r.marketOrderId := by simpa using List.find?_some hfind
      exact hid ▸ (h.ledger.resting e (List.mem_of_find?_eq_some hfind)).2.2
  have hacc := accepted_eq h.ledger.fair hr ht
  rw [openQty, hacc] at hopen
  change @Eq ℕ _ _
  omega

theorem accepted_mem_tradeOutputs {a : Ladder MEOrderKey} {id : OrderId} {r : MEClientResponse}
    (hr : .response r ∈ tradeOutputs a o id) (ht : r.type = .ACCEPTED) : r.marketOrderId = id := by
  rcases List.mem_cons.mp hr with hacc | hfill
  · rw [Output.response.inj hacc]
  · obtain ⟨f, -, hout⟩ := List.mem_flatMap.mp hfill
    simp only [fillOutputs, List.mem_cons, Output.response.injEq, reduceCtorEq, List.not_mem_nil,
      or_false] at hout
    rcases hout with rfl | rfl <;> cases ht

theorem ledger_trade (hs : s.Sound) (hadm : s.Admitted (.add o)) (hfits : s.IdFits (.add o))
    (h : s.Accounted) : Ledger (s.sent ++ tradeOutputs s.ladder o s.nextMarketOrderId)
      (s.ladder.traded (s.ladder.fills o.side o.price o.qty)) s.nextMarketOrderId
      (o.qty - offered (s.ladder.crossing o.side o.price)) :=
  h.ledger.trade h.new hadm.1 hfits.2
    (hs.represents.linked.side_rep _ (by simpa using hadm.1)).orders_nodup

theorem accounted_new (tickerId : TickerId) : (new tickerId).Accounted := by
  have hnil : (new tickerId).ladder = ⟨[], []⟩ := rfl
  have hsent : (new tickerId).sent = [] := rfl
  constructor
  · rw [hnil, hsent]
    constructor <;> simp [EachAfter, Ladder.entries, Ladder.levels]
  · simp [hsent]

theorem Accounted.new_append {n : ℕ} {outs : List Output} (h : s.Accounted)
    (hle : s.nextMarketOrderId ≤ n)
    (hnew : ∀ r, .response r ∈ outs → r.type = .ACCEPTED → r.marketOrderId < n) :
    ∀ r, .response r ∈ s.sent ++ outs → r.type = .ACCEPTED → r.marketOrderId < n := fun r hr ht ↦ by
  rcases List.mem_append.mp hr with hr | hr
  · exact lt_of_lt_of_le (h.new r hr ht) hle
  · exact hnew r hr ht

theorem accounted_step (hs : s.Sound) (hadm : s.Admitted c) (hfits : s.IdFits c)
    (hrun : s.step c = .ok s') (h : s.Accounted) : s'.Accounted := by
  cases hs.outcome hadm hrun with
  | @traded o hr hlad hsent hnext =>
    have hledger := ledger_trade hs hadm hfits h
    rw [Nat.sub_eq_zero_of_le (Nat.not_lt.mp hr)] at hledger
    rw [Nat.mod_eq_of_lt hfits.1] at hnext
    constructor <;> rw [hsent, hnext]
    · rw [hlad]
      exact hledger.next
    · exact h.new_append (Nat.le_succ _) fun r hr ht ↦
        accepted_mem_tradeOutputs hr ht ▸ Nat.lt_succ_self _
  | @rested o lp hr hlad hsent hnext =>
    have hledger := ledger_trade hs hadm hfits h
    rw [Ladder.traded_fills (fun _ ↦ hs.represents.linked.orders_ne) hr] at hledger
    rw [Nat.mod_eq_of_lt hfits.1] at hnext
    constructor <;> rw [hsent, hnext]
    · rw [hlad, ← List.append_assoc]
      exact hledger.rest (Nat.sub_pos_of_lt hr) rfl rfl (fresh_swept hs o)
        (mem_entries_rested hs hadm.1 lp)
    · refine h.new_append (Nat.le_succ _) fun r hr ht ↦ ?_
      have hmem : .response r ∈ tradeOutputs s.ladder o s.nextMarketOrderId := by
        simpa [restOutput] using hr
      exact accepted_mem_tradeOutputs hmem ht ▸ Nat.lt_succ_self _
  | canceled he hlad hsent hnext =>
    constructor <;> rw [hsent, hnext]
    · rw [hlad]
      exact h.ledger.cancel he _ _ _
    · refine h.new_append le_rfl fun r hr ht ↦ ?_
      obtain rfl : r = _ := by simpa [canceledOutputs] using hr
      cases ht
  | rejected hs' =>
    subst hs'
    refine ⟨h.ledger.reject _ _ _, h.new_append le_rfl fun r hr ht ↦ ?_⟩
    rw [Output.response.inj (List.mem_singleton.mp hr)] at ht
    cases ht

theorem fair_outputsOf (hs : s.Sound) (hadm : s.Admitted c) (hfits : s.IdFits c)
    (h : s.Accounted) : EachAfter Justified [] (s.sent ++ s.outputsOf c) := by
  cases hrun : s.step c with
  | ok s' => exact sent_eq hs hadm hrun ▸ (accounted_step hs hadm hfits hrun h).ledger.fair
  | error halt =>
    cases c with
    | add o =>
      rw [outputsOf_error hrun (add_error hs hadm hrun).2.2.2]
      exact (ledger_trade hs hadm hfits h).fair
    | cancel clientId orderId tickerId =>
      obtain ⟨-, rfl⟩ := cancel_error hs hrun
      rw [outputsOf_error hrun (List.append_nil _).symm, List.append_nil]
      exact h.ledger.fair

theorem conserves (hg : Guarded MEOrderBook.step (fun s c ↦ s.Admitted c ∧ s.IdFits c)
      (new tickerId) (cs ++ [c])) (hrun : (new tickerId).run cs = .ok s) : s.Conserves c := by
  obtain ⟨hcs, hc⟩ := hg.append
  obtain ⟨hadm, hfits⟩ := (hc s hrun).head
  have hinv := hcs.invariant (I := fun s ↦ s.Sound ∧ s.Accounted) ?_ ?_ hrun
  · obtain ⟨hs, h⟩ := hinv
    exact ⟨fair_outputsOf hs hadm hfits h,
      fun s' hstep r hr ht ↦ (accounted_step hs hadm hfits hstep h).conserved hr ht⟩
  · rintro s c s' ⟨hs, h⟩ ⟨hadm, hfits⟩ hstep
    exact ⟨hs.step hadm hstep, accounted_step hs hadm hfits hstep h⟩
  · exact ⟨sound_new tickerId, accounted_new tickerId⟩

def partialFills : List Call :=
  [.add ⟨1, 1, 0, .SELL, 100, 10⟩, .add ⟨2, 2, 0, .SELL, 101, 10⟩, .add ⟨3, 3, 0, .BUY, 101, 14⟩,
    .cancel 0 2 0]

theorem conserves_partial_fills : ∃ s, (new 0).run partialFills = .ok s ∧
    s.Conserves (.add ⟨4, 4, 0, .SELL, 103, 7⟩) := by
  obtain ⟨s, hs⟩ : ∃ s, (new 0).run partialFills = .ok s := exists_ok (by decide +kernel)
  exact ⟨s, hs, conserves (by decide +kernel) hs⟩

def canceledBehind : List Call :=
  [.add ⟨1, 1, 0, .SELL, 101, 10⟩, .add ⟨1, 2, 0, .SELL, 100, 10⟩, .cancel 0 1 0]

/-- The first order is canceled and trades nevertheless. -/
theorem canceled_order_trades : ∃ s, (new 0).run canceledBehind = .ok s ∧
    ¬ s.Conserves (.add ⟨2, 3, 0, .BUY, 101, 15⟩) := by
  obtain ⟨s, hs, hstep⟩ := Yields.exists_ok (show Yields ((new 0).run canceledBehind) fun s ↦
      Yields (s.step (.add ⟨2, 3, 0, .BUY, 101, 15⟩)) fun s' ↦
        .response ⟨.ACCEPTED, 1, 0, 1, 1, .SELL, 101, 0, 10⟩ ∈ s'.sent ∧ filled 1 s'.sent = 5 ∧
        canceled 1 s'.sent = 10 by decide +kernel)
  obtain ⟨s', hrun, hmem, hfilled, hcanceled⟩ := hstep.exists_ok
  refine ⟨s, hs, fun h ↦ ?_⟩
  have hsum := h.2 s' hrun _ hmem rfl
  rw [hfilled, hcanceled] at hsum
  change (10 : ℕ) = 5 + 10 + _ at hsum
  omega

end MEOrderBook

end LowLatency.Exchange
