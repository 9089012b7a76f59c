import LowLatency.GuardedRun
import LowLatency.Exchange.SnapshotSynthesizer

namespace LowLatency.Exchange

open Common Function

/-- The live orders of all tickers, oldest first, with their current prices and quantities. -/
abbrev LiveOrders := List MEMarketUpdate

namespace LiveOrders

/-- The key under which two updates speak of one order. -/
def Named (tickerId : TickerId) (orderId : OrderId) (o : MEMarketUpdate) : Prop :=
  o.tickerId = tickerId ∧ o.orderId = orderId

instance (tickerId : TickerId) (orderId : OrderId) : DecidablePred (Named tickerId orderId) :=
  fun _ ↦ inferInstanceAs (Decidable (_ ∧ _))

def find (live : LiveOrders) (tickerId : TickerId) (orderId : OrderId) : Option MEMarketUpdate :=
  List.find? (fun o ↦ Named tickerId orderId o) live

def apply (live : LiveOrders) (u : MEMarketUpdate) : LiveOrders :=
  match u.type with
  | .ADD => live ++ [u]
  | .MODIFY => live.map fun o ↦
      if Named u.tickerId u.orderId o then { o with qty := u.qty, price := u.price } else o
  | .CANCEL => live.filter fun o ↦ ¬ Named u.tickerId u.orderId o
  | _ => live

/-- What a well-formed stream may say next when these orders are live. -/
def Admits (live : LiveOrders) (u : MEMarketUpdate) : Prop :=
  u.tickerId < ME_MAX_TICKERS ∧
  (match u.type with
    | .ADD => u.orderId < ME_MAX_ORDER_IDS ∧ live.find u.tickerId u.orderId = none
    | .MODIFY | .CANCEL => (live.find u.tickerId u.orderId).map (·.side) = some u.side
    | .TRADE => True
    | _ => False) ∧
  (live.apply u).length < ME_MAX_ORDER_IDS

instance (live : LiveOrders) (u : MEMarketUpdate) : Decidable (live.Admits u) := by
  cases u with
  | mk type => cases type <;> unfold Admits <;> infer_instance

end LiveOrders

def liveOrders (ms : List MDPMarketUpdate) : LiveOrders :=
  ms.foldl (fun live m ↦ live.apply m.meMarketUpdate) []

/-- A stream of updates numbered from 1 on, in which orders are added, modified and canceled. -/
def WellFormed : List MDPMarketUpdate → Prop :=
  EachAfter (fun before m ↦ m.seqNum = (before.length + 1) % 2 ^ 64 ∧
    (liveOrders before).Admits m.meMarketUpdate) []

theorem liveOrders_concat (ms : List MDPMarketUpdate) (m : MDPMarketUpdate) :
    liveOrders (ms ++ [m]) = (liveOrders ms).apply m.meMarketUpdate := by
  simp [liveOrders]

namespace SnapshotSynthesizer

/-- The table has an entry for exactly the live orders, with their prices and quantities. -/
def Shows (v : SnapshotSynthesizer) (live : LiveOrders) : Prop :=
  ∀ tickerId < ME_MAX_TICKERS, ∀ orderId < ME_MAX_ORDER_IDS,
    (v.tickerOrders tickerId orderId).map (fun p ↦ ((v.orderPool.get p).price, (v.orderPool.get p).qty)) =
      (live.find tickerId orderId).map fun o ↦ (o.price, o.qty)

/-- Every call of `addToSnapshot` returns, and after each of them the table shows the live orders. -/
def Tracks (ms : List MDPMarketUpdate) : Prop :=
  ∀ cs, cs <+: ms → ∃ v, cs.foldlM addToSnapshot new = .ok v ∧ v.Shows (liveOrders cs)

structure Holds (v : SnapshotSynthesizer) (objs : List (Ptr × MEMarketUpdate)) : Prop where
  pool : v.orderPool.Ok
  size : v.orderPool.size = ME_MAX_ORDER_IDS
  ptrs : (objs.map Prod.fst).Nodup
  live : ∀ p, v.orderPool.Live p ↔ p ∈ objs.map Prod.fst
  object : ∀ e ∈ objs, v.orderPool.get e.1 = e.2
  entry : ∀ tickerId orderId p, v.tickerOrders tickerId orderId = some p ↔
    ∃ e ∈ objs, e.1 = p ∧ LiveOrders.Named tickerId orderId e.2
  ids : ∀ e ∈ objs, e.2.orderId < ME_MAX_ORDER_IDS

theorem new_holds : new.Holds [] where
  pool := MemPool.new_ok _ (by decide) _
  size := rfl
  ptrs := List.nodup_nil
  live := fun p ↦ by simp [new, MemPool.new, MemPool.Live]
  object := fun e he ↦ by simp at he
  entry := fun tickerId orderId p ↦ by simp [new]
  ids := fun e he ↦ by simp at he

section Holds

variable {v : SnapshotSynthesizer} {objs : List (Ptr × MEMarketUpdate)} {u : MEMarketUpdate}
  {tickerId : TickerId} {orderId : OrderId} {e : Ptr × MEMarketUpdate}

theorem update_entry (table : TickerId → OrderId → Option Ptr) (x : Option Ptr) (t i t' i' : ℕ) :
    update table t (update (table t) i x) t' i' = if t' = t ∧ i' = i then x else table t' i' := by
  by_cases ht : t' = t
  · subst ht
    by_cases hi : i' = i
    · simp [hi]
    · simp [hi]
  · simp [ht]

theorem Holds.lookup (h : v.Holds objs) (he : e ∈ objs)
    (hn : LiveOrders.Named tickerId orderId e.2) : v.tickerOrders tickerId orderId = some e.1 :=
  (h.entry _ _ _).mpr ⟨e, he, rfl, hn⟩

theorem Holds.named_iff (h : v.Holds objs) (he : e ∈ objs) {e' : Ptr × MEMarketUpdate}
    (he' : e' ∈ objs) (hn : LiveOrders.Named tickerId orderId e.2) :
    LiveOrders.Named tickerId orderId e'.2 ↔ e'.1 = e.1 := by
  constructor
  · intro hn'
    have := (h.lookup he' hn').symm.trans (h.lookup he hn)
    exact Option.some.inj this
  · intro hp
    have : e'.2 = e.2 := by rw [← h.object e' he', hp, h.object e he]
    rwa [this]

theorem find_of_holds (objs : List (Ptr × MEMarketUpdate)) (tickerId : TickerId) (orderId : OrderId) :
    (LiveOrders.find (objs.map Prod.snd) tickerId orderId = none ∧
      ∀ e ∈ objs, ¬ LiveOrders.Named tickerId orderId e.2) ∨
    ∃ e ∈ objs, LiveOrders.find (objs.map Prod.snd) tickerId orderId = some e.2 ∧
      LiveOrders.Named tickerId orderId e.2 := by
  cases hf : LiveOrders.find (objs.map Prod.snd) tickerId orderId with
  | none =>
    refine .inl ⟨rfl, fun e he ↦ ?_⟩
    have := List.find?_eq_none.mp hf e.2 (List.mem_map_of_mem he)
    simpa using this
  | some o =>
    obtain ⟨e, he, rfl⟩ := List.mem_map.mp (List.mem_of_find?_eq_some hf)
    refine .inr ⟨e, he, rfl, ?_⟩
    simpa using List.find?_some hf

theorem Holds.shows (h : v.Holds objs) : v.Shows (objs.map Prod.snd) := by
  intro tickerId _ orderId _
  rcases find_of_holds objs tickerId orderId with ⟨hf, hn⟩ | ⟨e, he, hf, hn⟩
  · have : v.tickerOrders tickerId orderId = none := by
      refine Option.eq_none_iff_forall_ne_some.mpr fun p hp ↦ ?_
      obtain ⟨e, he, _, hn'⟩ := (h.entry _ _ _).mp hp
      exact hn e he hn'
    rw [this, hf]
    rfl
  · rw [h.lookup he hn, hf]
    simp [h.object e he]

theorem Holds.existing (h : v.Holds objs)
    (hu : (LiveOrders.find (objs.map Prod.snd) u.tickerId u.orderId).map (·.side) = some u.side) :
    ∃ e ∈ objs, v.existing u = .ok e.1 ∧ LiveOrders.Named u.tickerId u.orderId e.2 := by
  rcases find_of_holds objs u.tickerId u.orderId with ⟨hf, _⟩ | ⟨e, he, hf, hn⟩
  · rw [hf] at hu
    cases hu
  · rw [hf] at hu
    have hside : e.2.side = u.side := Option.some.inj hu
    have hlt : u.orderId < ME_MAX_ORDER_IDS := hn.2 ▸ h.ids e he
    refine ⟨e, he, ?_, hn⟩
    simp [SnapshotSynthesizer.existing, orderAt, hlt, h.lookup he hn, h.object e he, hn.2, hside]

theorem Holds.unnamed (h : v.Holds objs)
    (hnone : LiveOrders.find (objs.map Prod.snd) tickerId orderId = none) :
    (∀ e ∈ objs, ¬ LiveOrders.Named tickerId orderId e.2) ∧ v.tickerOrders tickerId orderId = none := by
  have hfree : ∀ e ∈ objs, ¬ LiveOrders.Named tickerId orderId e.2 := by
    rcases find_of_holds objs tickerId orderId with ⟨_, hn⟩ | ⟨e, _, hf, _⟩
    · exact hn
    · cases hf.symm.trans hnone
  refine ⟨hfree, Option.eq_none_iff_forall_ne_some.mpr fun p hp ↦ ?_⟩
  obtain ⟨e, he, _, hn⟩ := (h.entry _ _ _).mp hp
  exact hfree e he hn

theorem Holds.store (h : v.Holds objs) (hlt : u.orderId < ME_MAX_ORDER_IDS)
    (hentry : v.tickerOrders u.tickerId u.orderId = none) {pool : MemPool MEMarketUpdate} {p : Ptr}
    (hfree : ¬ v.orderPool.Live p) (hok : pool.Ok) (hsize : pool.size = v.orderPool.size)
    (hget : pool.get = update v.orderPool.get p u)
    (hlive : ∀ q, pool.Live q ↔ q = p ∨ v.orderPool.Live q) :
    Holds { v with
      orderPool := pool
      tickerOrders := update v.tickerOrders u.tickerId
        (update (v.tickerOrders u.tickerId) u.orderId (some p)) } (objs ++ [(p, u)]) := by
  have hnew : ∀ e ∈ objs, e.1 ≠ p := fun e he hp ↦
    hfree (hp ▸ (h.live e.1).mpr (List.mem_map_of_mem he))
  constructor
  case pool => exact hok
  case size => exact hsize.trans h.size
  case ptrs =>
    rw [List.map_append, List.nodup_append]
    refine ⟨h.ptrs, by simp, fun q hq q' hq' ↦ ?_⟩
    obtain ⟨e, he, rfl⟩ := List.mem_map.mp hq
    rw [show q' = p by simpa using hq']
    exact hnew e he
  case live =>
    intro q
    rw [hlive, h.live, List.map_append, List.mem_append]
    simp [or_comm]
  case object =>
    intro e he
    rcases List.mem_append.mp he with he | he
    · simpa [hget, hnew e he] using h.object e he
    · obtain rfl := List.mem_singleton.mp he
      simp [hget]
  case entry =>
    intro tickerId orderId q
    simp only [update_entry, List.mem_append, List.mem_singleton, or_and_right, exists_or,
      exists_eq_left, ← h.entry]
    by_cases hn : tickerId = u.tickerId ∧ orderId = u.orderId
    · simp [hn, hentry, LiveOrders.Named]
    · have hn' : ¬ LiveOrders.Named tickerId orderId u := fun ⟨ht, hi⟩ ↦ hn ⟨ht.symm, hi.symm⟩
      simp [hn, hn']
  case ids =>
    intro e he
    rcases List.mem_append.mp he with he | he
    · exact h.ids e he
    · exact List.mem_singleton.mp he ▸ hlt

theorem Holds.addOrder_add (h : v.Holds objs) (htype : u.type = .ADD)
    (hu : LiveOrders.Admits (objs.map Prod.snd) u) (hid : u.orderId = u.tickerId) :
    ∃ v' p, v.addOrder u = .ok v' ∧ v'.Holds (objs ++ [(p, u)]) := by
  obtain ⟨hticker, hadd, hlen⟩ := hu
  simp only [htype, LiveOrders.apply, List.length_append, List.length_map, List.length_singleton]
    at hadd hlen
  obtain ⟨hlt, hnone⟩ := hadd
  obtain ⟨_, hentry⟩ := h.unnamed hnone
  rcases MemPool.allocate_cases h.pool u with ⟨pool, hrun, hok, hsize, hget, hlive⟩ | ⟨_, hfull⟩
  · refine ⟨_, _, ?_, h.store hlt hentry (by simpa using h.pool.next_free) hok hsize hget hlive⟩
    have hlt' : u.tickerId < ME_MAX_ORDER_IDS := hid ▸ hlt
    rw [hid] at hentry ⊢
    simp [addOrder, hticker, htype, orderAt, hid, hentry, hrun, setOrder, hlt']
  · have := MemPool.size_le_of_full h.pool (objs.map Prod.fst) (fun p hp ↦ (h.live p).mp hp) hfull
    rw [h.size, List.length_map] at this
    omega

def rewritten (p : Ptr) (f : MEMarketUpdate → MEMarketUpdate) (e : Ptr × MEMarketUpdate) :
    Ptr × MEMarketUpdate :=
  (e.1, if e.1 = p then f e.2 else e.2)

theorem Holds.rewrite (h : v.Holds objs) (he : e ∈ objs) {f : MEMarketUpdate → MEMarketUpdate}
    (hf : ∀ o, (f o).tickerId = o.tickerId ∧ (f o).orderId = o.orderId) :
    Holds { v with orderPool := v.orderPool.modify e.1 f } (objs.map (rewritten e.1 f)) := by
  have hkey : ∀ e', (rewritten e.1 f e').2.tickerId = e'.2.tickerId ∧
      (rewritten e.1 f e').2.orderId = e'.2.orderId := by
    intro e'
    simp only [rewritten]
    split
    · exact hf e'.2
    · exact ⟨rfl, rfl⟩
  constructor
  case pool => simpa using h.pool
  case size => simpa using h.size
  case ptrs =>
    rw [List.map_map]
    exact h.ptrs
  case live =>
    intro p
    rw [MemPool.live_modify, h.live, List.map_map]
    rfl
  case object =>
    intro e' he'
    obtain ⟨e₀, he₀, rfl⟩ := List.mem_map.mp he'
    rw [MemPool.get_modify, h.object e he]
    by_cases hp : e₀.1 = e.1
    · have : e₀.2 = e.2 := by rw [← h.object e₀ he₀, hp, h.object e he]
      simp [rewritten, hp, this]
    · simp [rewritten, hp, h.object e₀ he₀]
  case entry =>
    intro tickerId orderId p
    rw [h.entry]
    refine ⟨fun hp ↦ ?_, fun hp ↦ ?_⟩
    · obtain ⟨e₀, he₀, rfl, ht, hi⟩ := hp
      exact ⟨_, List.mem_map_of_mem he₀, rfl, (hkey e₀).1.trans ht, (hkey e₀).2.trans hi⟩
    · obtain ⟨e', he', rfl, ht, hi⟩ := hp
      obtain ⟨e₀, he₀, rfl⟩ := List.mem_map.mp he'
      exact ⟨e₀, he₀, rfl, (hkey e₀).1.symm.trans ht, (hkey e₀).2.symm.trans hi⟩
  case ids =>
    intro e' he'
    obtain ⟨e₀, he₀, rfl⟩ := List.mem_map.mp he'
    rw [(hkey e₀).2]
    exact h.ids e₀ he₀

theorem Holds.addOrder_modify (h : v.Holds objs) (htype : u.type = .MODIFY)
    (hu : LiveOrders.Admits (objs.map Prod.snd) u) :
    ∃ v' objs', v.addOrder u = .ok v' ∧ v'.Holds objs' ∧
      objs'.map Prod.snd = LiveOrders.apply (objs.map Prod.snd) u := by
  obtain ⟨hticker, hmod, _⟩ := hu
  simp only [htype] at hmod
  obtain ⟨e₀, he₀, hrun, hn₀⟩ := h.existing hmod
  refine ⟨_, _, ?_, h.rewrite he₀ (f := fun o ↦ { o with qty := u.qty, price := u.price })
    fun _ ↦ ⟨rfl, rfl⟩, ?_⟩
  · simp [addOrder, hticker, htype, hrun]
  · simp only [LiveOrders.apply, htype, List.map_map]
    refine List.map_congr_left fun e he ↦ ?_
    by_cases hp : e.1 = e₀.1
    · simp [rewritten, hp, h.named_iff he₀ he hn₀]
    · simp [rewritten, hp, h.named_iff he₀ he hn₀]

theorem Holds.erase (h : v.Holds objs) (he : e ∈ objs) {pool : MemPool MEMarketUpdate} (hok : pool.Ok)
    (hsize : pool.size = v.orderPool.size) (hget : ∀ p, pool.get p = v.orderPool.get p)
    (hlive : ∀ p, pool.Live p ↔ v.orderPool.Live p ∧ p ≠ e.1) :
    Holds { v with
      orderPool := pool
      tickerOrders := update v.tickerOrders e.2.tickerId
        (update (v.tickerOrders e.2.tickerId) e.2.orderId none) }
      (objs.filter fun e' ↦ e'.1 ≠ e.1) := by
  have hn : LiveOrders.Named e.2.tickerId e.2.orderId e.2 := ⟨rfl, rfl⟩
  constructor
  case pool => exact hok
  case size => exact hsize.trans h.size
  case ptrs => exact h.ptrs.sublist (List.filter_sublist.map Prod.fst)
  case live =>
    intro p
    rw [hlive, h.live]
    simp only [List.mem_map, List.mem_filter, decide_eq_true_eq]
    refine ⟨fun hp ↦ ?_, fun hp ↦ ?_⟩
    · obtain ⟨⟨e', he', rfl⟩, hne⟩ := hp
      exact ⟨e', ⟨he', hne⟩, rfl⟩
    · obtain ⟨e', ⟨he', hne⟩, rfl⟩ := hp
      exact ⟨⟨e', he', rfl⟩, hne⟩
  case object =>
    intro e' he'
    rw [hget]
    exact h.object e' (List.mem_filter.mp he').1
  case entry =>
    intro tickerId orderId p
    simp only [update_entry, List.mem_filter, decide_eq_true_eq]
    by_cases hkey : tickerId = e.2.tickerId ∧ orderId = e.2.orderId
    · obtain ⟨rfl, rfl⟩ := hkey
      rw [if_pos ⟨rfl, rfl⟩]
      refine ⟨fun hp ↦ (by cases hp), fun hp ↦ ?_⟩
      obtain ⟨e', ⟨he', hne⟩, rfl, hn'⟩ := hp
      exact absurd ((h.named_iff he he' hn).mp hn') hne
    · rw [if_neg hkey, h.entry]
      refine ⟨fun hp ↦ ?_, fun hp ↦ ?_⟩
      · obtain ⟨e', he', rfl, hn'⟩ := hp
        refine ⟨e', ⟨he', fun hp ↦ hkey ?_⟩, rfl, hn'⟩
        obtain ⟨ht, hi⟩ := (h.named_iff he' he hn').mpr hp.symm
        exact ⟨ht.symm, hi.symm⟩
      · obtain ⟨e', ⟨he', _⟩, rfl, hn'⟩ := hp
        exact ⟨e', he', rfl, hn'⟩
  case ids => exact fun e' he' ↦ h.ids e' (List.mem_filter.mp he').1

theorem Holds.addOrder_cancel (h : v.Holds objs) (htype : u.type = .CANCEL)
    (hu : LiveOrders.Admits (objs.map Prod.snd) u) :
    ∃ v' objs', v.addOrder u = .ok v' ∧ v'.Holds objs' ∧
      objs'.map Prod.snd = LiveOrders.apply (objs.map Prod.snd) u := by
  obtain ⟨hticker, hcancel, _⟩ := hu
  simp only [htype] at hcancel
  obtain ⟨e₀, he₀, hrun, hn₀⟩ := h.existing hcancel
  have hlt : e₀.2.orderId < ME_MAX_ORDER_IDS := h.ids e₀ he₀
  have hticker' : e₀.2.tickerId < ME_MAX_TICKERS := hn₀.1 ▸ hticker
  have hlive₀ := (h.live e₀.1).mpr (List.mem_map_of_mem he₀)
  obtain ⟨pool, hdealloc, hok, hsize, _, hget, hlive⟩ :=
    MemPool.deallocate_spec (h.pool.bounded _ hlive₀) hlive₀
  refine ⟨_, _, ?_, h.erase he₀ (hok h.pool) hsize hget hlive, ?_⟩
  · simp [addOrder, hticker', htype, hrun, hdealloc, setOrder, ← hn₀.1, ← hn₀.2, hlt]
  · simp only [LiveOrders.apply, htype, List.filter_map]
    congr 1
    refine List.filter_congr fun e he ↦ ?_
    simp [h.named_iff he₀ he hn₀]

theorem Holds.of_tables {v' : SnapshotSynthesizer} (h : v.Holds objs)
    (ht : v'.tickerOrders = v.tickerOrders) (hp : v'.orderPool = v.orderPool) : v'.Holds objs := by
  obtain ⟨h₁, h₂, h₃, h₄, h₅, h₆, h₇⟩ := h
  refine ⟨?_, ?_, h₃, ?_, ?_, ?_, h₇⟩
  all_goals simp only [ht, hp]
  all_goals assumption

theorem Holds.addOrder (h : v.Holds objs) (hu : LiveOrders.Admits (objs.map Prod.snd) u)
    (hid : u.type = .ADD → u.orderId = u.tickerId) :
    ∃ v' objs', v.addOrder u = .ok v' ∧ v'.Holds objs' ∧
      objs'.map Prod.snd = LiveOrders.apply (objs.map Prod.snd) u := by
  have hticker := hu.1
  cases htype : u.type with
  | ADD =>
    obtain ⟨v', p, hrun, hv'⟩ := h.addOrder_add htype hu (hid htype)
    exact ⟨v', _, hrun, hv', by simp [LiveOrders.apply, htype]⟩
  | MODIFY => exact h.addOrder_modify htype hu
  | CANCEL => exact h.addOrder_cancel htype hu
  | TRADE =>
    exact ⟨v, objs, by simp [SnapshotSynthesizer.addOrder, hticker, htype], h,
      by simp [LiveOrders.apply, htype]⟩
  | INVALID | CLEAR | SNAPSHOT_START | SNAPSHOT_END =>
    obtain ⟨_, hfalse, _⟩ := hu
    simp [htype] at hfalse

end Holds

def After (ms : List MDPMarketUpdate) (v : SnapshotSynthesizer) : Prop :=
  ∃ objs, v.Holds objs ∧ objs.map Prod.snd = liveOrders ms ∧ v.lastIncSeqNum = ms.length % 2 ^ 64

theorem After.addToSnapshot {ms : List MDPMarketUpdate} {v : SnapshotSynthesizer} {m : MDPMarketUpdate}
    (h : After ms v) (hseq : m.seqNum = (ms.length + 1) % 2 ^ 64)
    (hm : (liveOrders ms).Admits m.meMarketUpdate)
    (hid : m.meMarketUpdate.type = .ADD → m.meMarketUpdate.orderId = m.meMarketUpdate.tickerId) :
    ∃ v', v.addToSnapshot m = .ok v' ∧ After (ms ++ [m]) v' := by
  obtain ⟨objs, hv, hlive, hlast⟩ := h
  rw [← hlive] at hm
  obtain ⟨v', objs', hrun, hv', hlive'⟩ := hv.addOrder hm hid
  have hnext : m.seqNum = (v.lastIncSeqNum + 1) % 2 ^ 64 := by
    rw [hlast, hseq]
    omega
  refine ⟨{ v' with lastIncSeqNum := m.seqNum }, ?_, objs', hv'.of_tables rfl rfl, ?_, ?_⟩
  · simp only [SnapshotSynthesizer.addToSnapshot, hrun, ok_bind, if_pos hnext, pure_eq_ok]
  · rw [hlive', hlive, liveOrders_concat]
  · simp [hseq]

theorem setOrder_eq {v v' : SnapshotSynthesizer} {tickerId : TickerId} {orderId : OrderId}
    {order : Option Ptr} (h : v.setOrder tickerId orderId order = .ok v') (t : TickerId) (i : OrderId) :
    v'.tickerOrders t i = if t = tickerId ∧ i = orderId then order else v.tickerOrders t i := by
  unfold setOrder at h
  split_ifs at h
  obtain rfl := Except.ok.inj h
  exact update_entry _ order tickerId orderId t i

theorem setOrder_pool {v v' : SnapshotSynthesizer} {tickerId : TickerId} {orderId : OrderId}
    {order : Option Ptr} (h : v.setOrder tickerId orderId order = .ok v') : v'.orderPool = v.orderPool := by
  unfold setOrder at h
  split_ifs at h
  rw [← Except.ok.inj h]

theorem addOrder_cases {v v' : SnapshotSynthesizer} {u : MEMarketUpdate} (h : v.addOrder u = .ok v') :
    (u.type = .ADD ∧ ∃ p, v'.orderPool.get = update v.orderPool.get p u ∧ ∀ tickerId orderId,
      v'.tickerOrders tickerId orderId = if tickerId = u.tickerId ∧ orderId = u.tickerId then some p
        else v.tickerOrders tickerId orderId) ∨
    (u.type = .MODIFY ∧ ∃ p, v' = { v with
      orderPool := v.orderPool.modify p fun o ↦ { o with qty := u.qty, price := u.price } }) ∨
    (u.type = .CANCEL ∧ v'.orderPool.get = v.orderPool.get ∧ ∀ tickerId orderId,
      v'.tickerOrders tickerId orderId = if tickerId = u.tickerId ∧ orderId = u.orderId then none
        else v.tickerOrders tickerId orderId) ∨ v' = v := by
  unfold addOrder at h
  split_ifs at h
  cases htype : u.type with
  | ADD =>
    simp only [htype] at h
    obtain ⟨entry, -, h⟩ := bind_eq_ok h
    cases entry with
    | some order => cases h
    | none =>
      obtain ⟨⟨p, pool⟩, hpool, h⟩ := bind_eq_ok h
      have htable := setOrder_eq h
      exact .inl ⟨rfl, p, (setOrder_pool h).symm ▸ MemPool.get_allocate hpool, htable⟩
  | MODIFY =>
    simp only [htype] at h
    obtain ⟨order, -, h⟩ := bind_eq_ok h
    exact .inr (.inl ⟨rfl, order, (Except.ok.inj h).symm⟩)
  | CANCEL =>
    simp only [htype] at h
    obtain ⟨order, -, h⟩ := bind_eq_ok h
    obtain ⟨pool, hpool, h⟩ := bind_eq_ok h
    have htable := setOrder_eq h
    exact .inr (.inr (.inl ⟨rfl, (setOrder_pool h).symm ▸ MemPool.get_deallocate hpool, htable⟩))
  | TRADE | INVALID | CLEAR | SNAPSHOT_START | SNAPSHOT_END =>
    simp only [htype, Except.ok.injEq] at h
    exact .inr (.inr (.inr h.symm))

theorem addOrder_fst {v v' : SnapshotSynthesizer} {u : MEMarketUpdate} (h : v.addOrder u = .ok v')
    {tickerId : TickerId} {orderId : OrderId} (hne : orderId ≠ tickerId)
    (hnone : v.tickerOrders tickerId orderId = none) : v'.tickerOrders tickerId orderId = none := by
  rcases addOrder_cases h with ⟨-, p, -, htable⟩ | ⟨-, p, rfl⟩ | ⟨-, -, htable⟩ | rfl
  · rw [htable, if_neg fun hkey ↦ hne (hkey.2.trans hkey.1.symm)]
    exact hnone
  · exact hnone
  · rw [htable]
    split_ifs
    · rfl
    · exact hnone
  · exact hnone

/-- No order is ever stored away from the entry that has its ticker's number. -/
theorem off_diagonal {ms : List MDPMarketUpdate} {v : SnapshotSynthesizer}
    (h : ms.foldlM addToSnapshot new = .ok v) (tickerId : TickerId) (orderId : OrderId)
    (hne : orderId ≠ tickerId) : v.tickerOrders tickerId orderId = none := by
  refine run_invariant (I := fun v ↦ v.tickerOrders tickerId orderId = none) (fun v m v' hv hrun ↦ ?_)
    rfl h
  obtain ⟨v₁, hadd, hrun⟩ := bind_eq_ok hrun
  split_ifs at hrun
  obtain rfl := Except.ok.inj hrun
  exact addOrder_fst hadd hne hv

theorem orders_of_run {ms : List MDPMarketUpdate} {v : SnapshotSynthesizer}
    (h : ms.foldlM addToSnapshot new = .ok v) {tickerId : TickerId} (ht : tickerId < ME_MAX_ORDER_IDS) :
    v.orders tickerId = ((v.tickerOrders tickerId tickerId).map v.orderPool.get).toList := by
  have hbehind : ∀ orderId ≥ tickerId + 1, v.tickerOrders tickerId orderId = none :=
    fun orderId ho ↦ off_diagonal h tickerId orderId (Nat.ne_of_gt ho)
  have hbefore : (List.range tickerId).filterMap
      (fun orderId ↦ (v.tickerOrders tickerId orderId).map v.orderPool.get) = [] := by
    refine List.filterMap_eq_nil_iff.mpr fun orderId ho ↦ ?_
    rw [off_diagonal h tickerId orderId (List.mem_range.mp ho).ne, Option.map_none]
  rw [orders_eq_range ht hbehind, List.range_succ, List.filterMap_append, hbefore, List.nil_append]
  cases hp : v.tickerOrders tickerId tickerId <;> simp [hp]

/-- The table follows exactly the streams in which every added order is numbered as its ticker. -/
theorem tracks_iff {ms : List MDPMarketUpdate} (h : WellFormed ms) :
    Tracks ms ↔ ∀ m ∈ ms, m.meMarketUpdate.type = .ADD →
      m.meMarketUpdate.orderId = m.meMarketUpdate.tickerId := by
  constructor
  · intro htracks m hm htype
    obtain ⟨before, behind, rfl⟩ := List.append_of_mem hm
    obtain ⟨v, hrun, hshows⟩ := htracks (before ++ [m]) ⟨behind, by simp⟩
    have hm : (liveOrders before).Admits m.meMarketUpdate := (eachAfter_append.mp h).2.1.2
    obtain ⟨hticker, hadd, _⟩ := hm
    simp only [htype] at hadd
    by_contra hne
    have hnone := off_diagonal hrun _ _ hne
    have hentry := hshows _ hticker _ hadd.1
    rw [liveOrders_concat, LiveOrders.apply, htype, hnone] at hentry
    simp [LiveOrders.find, LiveOrders.Named] at hentry
  · intro hid cs hcs
    obtain ⟨behind, rfl⟩ := hcs
    have hcs := (eachAfter_append.mp h).1.and_mem fun m hm ↦ hid m (List.mem_append_left behind hm)
    obtain ⟨v, hrun, objs, hv, hlive, _⟩ := hcs.returns (I := After) (s := new)
      ⟨[], new_holds, rfl, rfl⟩ fun before m v hv hm ↦ hv.addToSnapshot hm.1.1 hm.1.2 hm.2
    exact ⟨v, hrun, hlive ▸ hv.shows⟩

def lifetime (orderId : OrderId) : List MDPMarketUpdate :=
  [⟨1, ⟨.ADD, orderId, 1, .BUY, 100, 5, 1⟩⟩, ⟨2, ⟨.MODIFY, orderId, 1, .BUY, 100, 3, 1⟩⟩,
    ⟨3, ⟨.CANCEL, orderId, 1, .BUY, 100, 0, 1⟩⟩]

theorem tracks_lifetime_one : WellFormed (lifetime 1) ∧ Tracks (lifetime 1) := by
  have h : WellFormed (lifetime 1) :=
    ⟨⟨rfl, by decide⟩, ⟨rfl, by decide⟩, ⟨rfl, by decide⟩, trivial⟩
  exact ⟨h, (tracks_iff h).mpr (by decide)⟩

/-- Order 7 of ticker 1 is stored as if it were order 1 and then not found. -/
theorem not_tracks_lifetime_seven : WellFormed (lifetime 7) ∧ ¬ Tracks (lifetime 7) := by
  refine ⟨⟨⟨rfl, by decide⟩, ⟨rfl, by decide⟩, ⟨rfl, by decide⟩, trivial⟩, fun h ↦ ?_⟩
  obtain ⟨v, hrun, _⟩ := h (lifetime 7) List.prefix_rfl
  have hfail : ¬ Yields ((lifetime 7).foldlM addToSnapshot new) fun _ ↦ True := by decide +kernel
  rw [hrun] at hfail
  exact hfail trivial

end SnapshotSynthesizer

end LowLatency.Exchange
