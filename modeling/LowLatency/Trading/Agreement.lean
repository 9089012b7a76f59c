import LowLatency.Exchange.Feed
import LowLatency.Trading.LevelLists

namespace LowLatency.Trading

open Common Book Exchange

section Client

namespace MarketOrderBook

def view (m : MarketOrderBook) : Ladder Unit := m.ladder.relabel MarketOrderKey.orderId

variable {m m' : MarketOrderBook} {u : MEMarketUpdate} {us : List MEMarketUpdate} {v : Ladder Unit}

theorem Sound.labels (h : m.Sound) : Labels MarketOrderKey.orderId m.ladder := by
  intro e he e' he'
  constructor
  · intro hid
    obtain ⟨k, hk⟩ := Option.isSome_iff_exists.mp (h.represents.in_range e he)
    have hk' : TableKey.entry e'.key = some k := by
      rw [← hk]
      simp only [TableKey.entry, hid]
    exact Option.some.inj ((h.complete e he k hk).symm.trans (h.complete e' he' k hk'))
  · exact fun hp ↦ by rw [h.represents.linked.entry_inj he he' hp]

theorem view_updated (h : m.Sound) (hv : Valid m.ladder u) (hupd : Updated m.ladder u m'.ladder) :
    m'.view = applyTo m.view u := by
  unfold Valid at hv
  unfold Updated at hupd
  unfold applyTo view
  cases ht : u.type <;> simp only [ht] at hv hupd ⊢
  case ADD =>
    obtain ⟨lp, p, -, hlad⟩ := hupd
    rw [hlad, Ladder.relabel_rest hv.1]
    rfl
  case MODIFY =>
    obtain ⟨e, he, hid, hlad⟩ := hupd
    rw [hlad, ← hid, Ladder.relabel_setQty h.labels he]
  case CANCEL =>
    obtain ⟨e, he, hid, hlad⟩ := hupd
    rw [hlad, ← hid, Ladder.relabel_remove h.labels he]
  all_goals rw [hupd]

theorem mem_view {id : OrderId} (h : ∃ e ∈ m.view.entries, e.ptr = id) :
    ∃ e ∈ m.ladder.entries, e.key.orderId = id := by
  obtain ⟨e', he', hid⟩ := h
  rw [view, Ladder.entries_relabel] at he'
  obtain ⟨e, he, rfl⟩ := List.mem_map.mp he'
  exact ⟨e, he, hid⟩

theorem valid_of_applicable (h : m.Sound) (hu : Applicable m.view u) : Valid m.ladder u := by
  unfold Applicable at hu
  unfold Valid
  cases ht : u.type <;> simp only [ht] at hu ⊢
  case ADD =>
    obtain ⟨hs, hfresh, hadm, -⟩ := hu
    refine ⟨hs, fun e he ↦ ?_, hadm.of_relabel h.represents.linked hs⟩
    apply hfresh (e.relabel MarketOrderKey.orderId)
    rw [view, Ladder.entries_relabel]
    exact List.mem_map_of_mem he
  case MODIFY => exact mem_view hu
  case CANCEL => exact mem_view hu

theorem Sound.levels_lt (h : m.Sound) : m.ladder.levels.length + 1 < ME_MAX_ORDER_IDS := by
  have hle := length_le_of_lt h.represents.linked.levels_slots_nodup (n := ME_MAX_PRICE_LEVELS)
    fun i hi ↦ by
      obtain ⟨l, -, rfl⟩ := List.mem_map.mp hi
      exact priceToIndex_lt _
  rw [List.length_map] at hle
  exact lt_of_le_of_lt (Nat.succ_le_succ hle) (by decide)

theorem follows_update (h : m.Sound) (hu : Applicable m.view u) :
    ∃ m', m.onMarketUpdate u = .ok m' ∧ m'.Sound ∧ m'.view = applyTo m.view u := by
  have hv := valid_of_applicable h hu
  rcases onMarketUpdate_spec h hv with ⟨m', hrun, hs, hupd⟩ | ⟨hadd, -, -, -, hwhy⟩
  · exact ⟨m', hrun, hs, view_updated h hv hupd⟩
  · simp only [Applicable, hadd] at hu
    obtain ⟨-, -, -, hroom, hid⟩ := hu
    rw [view, Ladder.entries_relabel, List.length_map] at hroom
    rcases hwhy with hfull | hfull | hfull
    · exact absurd hroom (Nat.not_lt.mpr hfull)
    · exact absurd h.levels_lt (Nat.not_lt.mpr hfull)
    · exact absurd hid hfull

theorem follows (h : m.Sound) (hfeed : Feed m.view us v) :
    ∃ m', m.run us = .ok m' ∧ m'.Sound ∧ m'.view = v := by
  obtain ⟨v₀, hv₀⟩ : ∃ v₀, v₀ = m.view := ⟨_, rfl⟩
  rw [← hv₀] at hfeed
  induction hfeed generalizing m with
  | nil => exact ⟨m, rfl, h, hv₀.symm⟩
  | cons hu _ ih =>
    subst hv₀
    obtain ⟨m₁, hrun, hs, hview⟩ := follows_update h hu
    obtain ⟨m', hrun', hs', hview'⟩ := ih hs hview.symm
    exact ⟨m', by rw [run, List.foldlM_cons, hrun]; exact hrun', hs', hview'⟩

end MarketOrderBook

end Client

/-- The client book rests the orders of the exchange: ids, sides, prices and quantities are the same,
in the same levels and in the same order there. -/
def Agrees (s : MEOrderBook) (m : MarketOrderBook) : Prop := published s.ladder = m.view

/-- The client book processes all market data and agrees with the exchange after every call. -/
theorem agrees {tickerId : TickerId} {cs : List MEOrderBook.Call} {c : MEOrderBook.Call}
    {s : MEOrderBook} (hg : Guarded MEOrderBook.step MEOrderBook.Admitted (.new tickerId) (cs ++ [c]))
    (hfew : (adds (cs ++ [c])).length < ME_MAX_ORDER_IDS)
    (hrun : (MEOrderBook.new tickerId).run cs = .ok s) (engine : Ptr) :
    ∃ m, ((MarketOrderBook.new tickerId).setTradeEngine (some engine)).run
        (updates (s.sent ++ s.outputsOf c)) = .ok m ∧
      ∀ s', s.step c = .ok s' → Agrees s' m := by
  obtain ⟨hcs, hc⟩ := hg.append
  have hadm := (hc s hrun).head
  have hinv := hcs.history (I := fun cs s ↦ s.Sound ∧
    ((adds cs).length < ME_MAX_ORDER_IDS → s.Published (adds cs).length)) ?_ ?_ hrun
  · obtain ⟨hs, hpub⟩ := hinv
    rw [adds_append, List.length_append] at hfew
    have h := hpub (lt_of_le_of_lt (Nat.le_add_right _ _) hfew)
    obtain ⟨v, hfeed, hv⟩ := MEOrderBook.feed_outputsOf hs hadm h hfew
    obtain ⟨m, hm, -, hview⟩ := MarketOrderBook.follows
      (MarketOrderBook.sound_new tickerId engine) (h.feed.append hfeed)
    rw [updates_append]
    exact ⟨m, hm, fun s' hs' ↦ (hv s' hs').trans hview.symm⟩
  · exact ⟨MEOrderBook.sound_new tickerId, fun _ ↦ MEOrderBook.published_new tickerId⟩
  · rintro cs c s s' ⟨hs, h⟩ hadm hstep
    refine ⟨hs.step hadm hstep, fun hlt ↦ ?_⟩
    rw [adds_append, List.length_append] at hlt ⊢
    exact (h (lt_of_le_of_lt (Nat.le_add_right _ _) hlt)).step hs hadm hlt hstep

def sweptLevels : List MEOrderBook.Call :=
  [.add ⟨1, 1, 0, .SELL, 100, 10⟩, .add ⟨2, 2, 0, .SELL, 101, 10⟩, .add ⟨3, 3, 0, .BUY, 99, 4⟩,
    .add ⟨4, 4, 0, .BUY, 101, 14⟩]

theorem agrees_partial_fills : ∃ s, (MEOrderBook.new 0).run sweptLevels = .ok s ∧ ∃ m, ((MarketOrderBook.new 0).setTradeEngine (some 0)).run
        (updates (s.sent ++ s.outputsOf (.cancel 0 3 0))) = .ok m ∧
      ∀ s', s.step (.cancel 0 3 0) = .ok s' → Agrees s' m := by
  obtain ⟨s, hs⟩ : ∃ s, (MEOrderBook.new 0).run sweptLevels = .ok s := exists_ok (by decide +kernel)
  exact ⟨s, hs, agrees (by decide +kernel) (by decide) hs 0⟩

/-- The canceled order trades again, and its `MODIFY` finds no order in the client book. -/
theorem modify_finds_null : ∃ s, (MEOrderBook.new 0).run MEOrderBook.canceledBehind = .ok s ∧
    ((MarketOrderBook.new 0).setTradeEngine (some 0)).run
      (updates (s.sent ++ s.outputsOf (.add ⟨1, 3, 0, .BUY, 101, 15⟩))) = .error .nullPointer := by
  obtain ⟨s, hs, herr⟩ := Yields.exists_ok (show Yields
    ((MEOrderBook.new 0).run MEOrderBook.canceledBehind) fun s ↦
      (((MarketOrderBook.new 0).setTradeEngine (some 0)).run
        (updates (s.sent ++ s.outputsOf (.add ⟨1, 3, 0, .BUY, 101, 15⟩)))).map (fun _ ↦ ()) =
          .error .nullPointer by decide +kernel)
  refine ⟨s, hs, ?_⟩
  cases hrun : ((MarketOrderBook.new 0).setTradeEngine (some 0)).run
    (updates (s.sent ++ s.outputsOf (.add ⟨1, 3, 0, .BUY, 101, 15⟩))) with
  | ok m => rw [hrun] at herr; cases herr
  | error f => rw [hrun] at herr; rw [Except.error.inj herr]

end LowLatency.Trading
