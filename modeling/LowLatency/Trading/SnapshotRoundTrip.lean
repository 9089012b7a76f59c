import LowLatency.Exchange.SnapshotTable
import LowLatency.Trading.SnapshotSync

namespace LowLatency.Exchange.SnapshotSynthesizer

open Common

variable {v : SnapshotSynthesizer} {tickerId : TickerId} {u : MEMarketUpdate}

/-- The entries that the table has are updates of type `ADD`. -/
def OnlyAdds (v : SnapshotSynthesizer) : Prop :=
  ∀ tickerId < ME_MAX_TICKERS, ∀ orderId < ME_MAX_ORDER_IDS, ∀ p,
    v.tickerOrders tickerId orderId = some p → (v.orderPool.get p).type = .ADD

/-- Every table that updates lead to has only such entries. -/
theorem onlyAdds_of_run {ms : List MDPMarketUpdate} (h : ms.foldlM addToSnapshot new = .ok v) :
    v.OnlyAdds := by
  refine run_invariant (I := OnlyAdds) (fun v m v' hv hrun ↦ ?_) (fun _ _ _ _ p hp ↦ by cases hp) h
  obtain ⟨v₁, hadd, hrun⟩ := bind_eq_ok hrun
  split_ifs at hrun
  obtain rfl := Except.ok.inj hrun
  intro t ht i hi p hp
  rcases addOrder_cases hadd with ⟨htype, q, hget, htable⟩ | ⟨-, q, rfl⟩ | ⟨-, hget, htable⟩ | rfl
  · rw [hget]
    by_cases hpq : p = q
    · rw [hpq, Function.update_self]
      exact htype
    · rw [Function.update_of_ne hpq]
      rw [htable] at hp
      split_ifs at hp with hkey
      · exact absurd (Option.some.inj hp).symm hpq
      · exact hv t ht i hi p hp
  · rw [MemPool.get_modify]
    split_ifs with hpq
    · exact hv t ht i hi q (hpq ▸ hp)
    · exact hv t ht i hi p hp
  · rw [hget]
    rw [htable] at hp
    split_ifs at hp
    exact hv t ht i hi p hp
  · exact hv t ht i hi p hp

def StoredById (v : SnapshotSynthesizer) : Prop :=
  ∀ tickerId < ME_MAX_TICKERS, ∀ orderId < ME_MAX_ORDER_IDS, ∀ p,
    v.tickerOrders tickerId orderId = some p → (v.orderPool.get p).orderId = orderId

theorem mem_orders :
    u ∈ v.orders tickerId ↔
      ∃ orderId < ME_MAX_ORDER_IDS, ∃ p, v.tickerOrders tickerId orderId = some p ∧
        v.orderPool.get p = u := by
  simp [orders]

theorem mem_body (h : u ∈ v.body) :
    ∃ tickerId < ME_MAX_TICKERS, u = clear tickerId ∨ u ∈ v.orders tickerId := by
  obtain ⟨tickerId, hlt, hu⟩ := List.mem_flatMap.mp h
  exact ⟨tickerId, List.mem_range.mp hlt, List.mem_cons.mp hu⟩

theorem OnlyAdds.type_of_mem (h : v.OnlyAdds) (hu : u ∈ v.body) :
    u.type = .CLEAR ∨ u.type = .ADD := by
  obtain ⟨tickerId, hticker, rfl | hu⟩ := mem_body hu
  · exact .inl rfl
  · obtain ⟨orderId, horder, p, hp, rfl⟩ := mem_orders.mp hu
    exact .inr (h tickerId hticker orderId horder p hp)

@[simp] theorem head?_opening : v.opening.head? = some (mark .SNAPSHOT_START v.lastIncSeqNum) := rfl

theorem OnlyAdds.not_end (h : v.OnlyAdds) (hu : u ∈ v.opening) : u.type ≠ .SNAPSHOT_END := by
  rcases List.mem_cons.mp hu with rfl | hu
  · simp [mark]
  · rcases h.type_of_mem hu with htype | htype <;> simp [htype]

theorem StoredById.orders_sorted (h : v.StoredById) (hticker : tickerId < ME_MAX_TICKERS) :
    (v.orders tickerId).Pairwise fun a b ↦ a.orderId < b.orderId := by
  refine List.pairwise_filterMap.mpr (List.pairwise_lt_range.imp_of_mem fun hi hj hij a ha b hb ↦ ?_)
  obtain ⟨p, hp, rfl⟩ := Option.map_eq_some_iff.mp ha
  obtain ⟨q, hq, rfl⟩ := Option.map_eq_some_iff.mp hb
  rw [h tickerId hticker _ (List.mem_range.mp hi) p hp, h tickerId hticker _ (List.mem_range.mp hj) q hq]
  exact hij

end LowLatency.Exchange.SnapshotSynthesizer

namespace LowLatency.Trading

open Common Exchange SnapshotSynthesizer OrderedMap

namespace MarketDataConsumer

variable {v : SnapshotSynthesizer} {c : MarketDataConsumer} {us : List MEMarketUpdate}

def deliver (c : MarketDataConsumer) (messages : List MDPMarketUpdate) : MarketDataConsumer :=
  messages.foldl (queueMessage true) c

theorem deliver_concat (c : MarketDataConsumer) (messages : List MDPMarketUpdate)
    (m : MDPMarketUpdate) : c.deliver (messages ++ [m]) = (c.deliver messages).queueMessage true m := by
  simp [deliver]

theorem deliver_open {u : MEMarketUpdate} (hs : c.snapshotQueuedMsgs = ∅)
    (hhead : us.head? = some u) (hu : u.type = .SNAPSHOT_START)
    (hend : ∀ w ∈ us, w.type ≠ .SNAPSHOT_END) :
    ∃ queued, c.deliver (messages us) = { c with snapshotQueuedMsgs := queued } ∧
      queued.toList = numbered 0 us := by
  induction us using List.reverseRecOn with
  | nil => cases hhead
  | append_singleton us w ih =>
    obtain ⟨queued, hrun, hq⟩ : ∃ queued, c.deliver (messages us) =
        { c with snapshotQueuedMsgs := queued } ∧ queued.toList = numbered 0 us := by
      cases us with
      | nil => exact ⟨∅, by simp [deliver, messages, ← hs], rfl⟩
      | cons w' us => exact ih hhead fun w hw ↦ hend w (List.mem_append_left _ hw)
    obtain ⟨queued', henq, hq'⟩ := enqueue_next (c := { c with snapshotQueuedMsgs := queued }) hq w
    refine ⟨queued', ?_, hq'⟩
    rw [messages_concat, deliver_concat, hrun, queueMessage, henq]
    exact checkSnapshotSync_open hq' hhead hu (by simp) (hend w (by simp))

theorem deliver_complete {u : MEMarketUpdate} (last : ℕ) (hs : c.snapshotQueuedMsgs = ∅)
    (hi : c.incrementalQueuedMsgs = ∅) (hhead : us.head? = some u) (hu : u.type = .SNAPSHOT_START)
    (hend : ∀ w ∈ us, w.type ≠ .SNAPSHOT_END) :
    c.deliver (messages (us ++ [mark .SNAPSHOT_END last])) = { c with
      nextExpIncSeqNum := (last + 1) % 2 ^ 64
      incomingMdUpdates := c.incomingMdUpdates ++ unmarked us
      inRecovery := false
      snapshotMcastSocket := c.snapshotMcastSocket.leave } := by
  obtain ⟨queued, hrun, hq⟩ := deliver_open hs hhead hu hend
  obtain ⟨queued', henq, hq'⟩ := enqueue_next (c := { c with snapshotQueuedMsgs := queued }) hq
    (mark .SNAPSHOT_END last)
  have hcomplete : Complete (us ++ [mark .SNAPSHOT_END last]) last := by
    refine ⟨⟨u, ?_, hu⟩, _, List.getLast?_concat, rfl, rfl⟩
    rw [List.head?_append, hhead]
    rfl
  rw [messages_concat, deliver_concat, hrun, queueMessage, henq,
    checkSnapshotSync_complete hq' hcomplete (by rw [hi]; rfl)]
  simp [unmarked, isMark, mark, hs, hi]

theorem unmarked_opening (h : v.OnlyAdds) : unmarked v.opening = v.body := by
  have hbody : unmarked v.body = v.body := by
    refine List.filter_eq_self.mpr fun u hu ↦ ?_
    rcases h.type_of_mem hu with htype | htype <;> simp [isMark, htype]
  rw [unmarked, opening, List.filter_cons, if_neg (by simp [isMark, mark]), ← unmarked, hbody]

theorem unmarked_snapshot (h : v.OnlyAdds) : unmarked v.snapshot = v.body := by
  rw [snapshot, unmarked, List.filter_append, ← unmarked, unmarked_opening h]
  simp [isMark, mark]

/-- A consumer in recovery that receives a whole snapshot is brought to the state of the table,
with its last message and not before. -/
theorem deliver_publishSnapshot (hadds : v.OnlyAdds) (hrec : c.inRecovery = true)
    (hs : c.snapshotQueuedMsgs = ∅) (hi : c.incrementalQueuedMsgs = ∅) :
    (∀ n < v.publishSnapshot.length, (c.deliver (v.publishSnapshot.take n)).inRecovery = true ∧
      (c.deliver (v.publishSnapshot.take n)).incomingMdUpdates = c.incomingMdUpdates) ∧
    (c.deliver v.publishSnapshot).inRecovery = false ∧
    (c.deliver v.publishSnapshot).nextExpIncSeqNum = (v.lastIncSeqNum + 1) % 2 ^ 64 ∧
    (c.deliver v.publishSnapshot).incomingMdUpdates = c.incomingMdUpdates ++
      (List.range ME_MAX_TICKERS).flatMap (fun tickerId ↦ clear tickerId :: v.orders tickerId) ∧
    (∀ u ∈ v.body, u.type ≠ .SNAPSHOT_START ∧ u.type ≠ .SNAPSHOT_END) ∧
    (v.StoredById → ∀ tickerId < ME_MAX_TICKERS,
      (v.orders tickerId).Pairwise fun a b ↦ a.orderId < b.orderId) := by
  have hend : ∀ w ∈ v.opening, w.type ≠ .SNAPSHOT_END := fun w hw ↦ hadds.not_end hw
  have hall : c.deliver v.publishSnapshot = { c with
      nextExpIncSeqNum := (v.lastIncSeqNum + 1) % 2 ^ 64
      incomingMdUpdates := c.incomingMdUpdates ++ v.body
      inRecovery := false
      snapshotMcastSocket := c.snapshotMcastSocket.leave } := by
    have := deliver_complete v.lastIncSeqNum hs hi head?_opening rfl hend
    rwa [unmarked_opening hadds] at this
  refine ⟨fun n hn ↦ ?_, by rw [hall], by rw [hall], by rw [hall]; rfl, fun u hu ↦ ?_,
    fun hstored tickerId hticker ↦ hstored.orders_sorted hticker⟩
  · rw [publishSnapshot, length_messages, snapshot, List.length_append] at hn
    rw [publishSnapshot, take_messages, snapshot, List.take_append_of_le_length (Nat.lt_succ_iff.mp hn)]
    cases n with
    | zero => exact ⟨hrec, rfl⟩
    | succ n =>
      have hhead : (v.opening.take (n + 1)).head? = some (mark .SNAPSHOT_START v.lastIncSeqNum) := rfl
      obtain ⟨queued, hrun, _⟩ := deliver_open hs hhead rfl
        fun w hw ↦ hend w (List.mem_of_mem_take hw)
      rw [hrun]
      exact ⟨hrec, rfl⟩
  · rcases hadds.type_of_mem hu with htype | htype <;> simp [htype]

def bid : MEMarketUpdate := ⟨.ADD, 0, 0, .BUY, 100, 5, 1⟩

def ask : MEMarketUpdate := ⟨.ADD, 1, 0, .SELL, 102, 7, 1⟩

theorem deliver_pair :
    (started.deliver (pair 5 bid ask).publishSnapshot).inRecovery = false ∧
      (started.deliver (pair 5 bid ask).publishSnapshot).nextExpIncSeqNum = 6 ∧
      (started.deliver (pair 5 bid ask).publishSnapshot).incomingMdUpdates =
        [clear 0, bid, ask, clear 1, clear 2, clear 3, clear 4, clear 5, clear 6, clear 7] := by
  have hadds : (pair 5 bid ask).OnlyAdds := by
    intro _ _ _ _ p _
    change (((MemPool.new ME_MAX_ORDER_IDS bid).modify 1 fun _ ↦ ask).get p).type = .ADD
    rw [MemPool.get_modify]
    split_ifs <;> rfl
  obtain ⟨_, hrec, hnext, hpassed, _⟩ := deliver_publishSnapshot (c := started) hadds rfl rfl rfl
  refine ⟨hrec, hnext, hpassed.trans ?_⟩
  have hrange : List.range ME_MAX_TICKERS = [0, 1, 2, 3, 4, 5, 6, 7] := rfl
  rw [hrange]
  simp only [List.flatMap_cons, List.flatMap_nil, orders_pair_zero, orders_pair_of_ne, ne_eq,
    OfNat.ofNat_ne_zero, one_ne_zero, not_false_eq_true, List.cons_append, List.nil_append]
  rfl

end MarketDataConsumer

end LowLatency.Trading
