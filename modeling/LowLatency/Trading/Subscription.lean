import LowLatency.Trading.SnapshotSync

namespace LowLatency.Trading.MarketDataConsumer

open Common Exchange

variable {os : Os} {snapshotGroup incrementalGroup : Group} {c c' c₀ : MarketDataConsumer}
  {arrivals : List (Channel × List MDPMarketUpdate)}

/-- The incremental stream is received, and the snapshot stream during a recovery. -/
def Subscribed (snapshotGroup incrementalGroup : Group) (c : MarketDataConsumer) : Prop :=
  c.incrementalMcastSocket.Subscribed incrementalGroup ∧
    (c.inRecovery = true → c.snapshotMcastSocket.Subscribed snapshotGroup)

instance (snapshotGroup incrementalGroup : Group) (c : MarketDataConsumer) :
    Decidable (c.Subscribed snapshotGroup incrementalGroup) := inferInstanceAs (Decidable (_ ∧ _))

/-- A consumer in recovery that has no socket on which a snapshot could come. -/
structure Deaf (incrementalGroup : Group) (c : MarketDataConsumer) : Prop where
  inRecovery : c.inRecovery = true
  snapshotSocket : c.snapshotMcastSocket = .new
  snapshotQueue : c.snapshotQueuedMsgs.toList = []
  incrementalSocket : c.incrementalMcastSocket.Subscribed incrementalGroup
  written : c.incomingMdUpdates = []

theorem Deaf.of_new (h : new os snapshotGroup incrementalGroup = .ok c) : c.Deaf incrementalGroup := by
  obtain ⟨socket, hsock, hc⟩ := bind_eq_ok h
  obtain rfl := Except.ok.inj hc
  exact ⟨rfl, rfl, rfl, McastSocket.subscribe_ok hsock, rfl⟩

theorem Deaf.onRequest {m : MDPMarketUpdate} (h : c.Deaf incrementalGroup)
    (hrun : onRequest os false c m = .ok c') : c'.Deaf incrementalGroup := by
  simp only [MarketDataConsumer.onRequest, h.inRecovery, if_true, pure_eq_ok, Except.ok.injEq] at hrun
  subst hrun
  have hq : (c.enqueue false m).snapshotQueuedMsgs.toList = [] := h.snapshotQueue
  have hsame : c.queueMessage false m = c.enqueue false m := by
    rw [queueMessage, checkSnapshotSync, hq]
  rw [hsame]
  exact ⟨h.inRecovery, h.snapshotSocket, hq, h.incrementalSocket, h.written⟩

theorem Deaf.sendAndRecv {arrival : Channel × List MDPMarketUpdate} (h : c.Deaf incrementalGroup)
    (hrun : c.sendAndRecv os arrival = .ok c') : c'.Deaf incrementalGroup := by
  have hfd : c.snapshotMcastSocket.socketFd = -1 := by rw [h.snapshotSocket]; rfl
  obtain ⟨channel, messages⟩ := arrival
  unfold MarketDataConsumer.sendAndRecv at hrun
  split_ifs at hrun with hopen
  · cases channel with
    | snapshot =>
      simp only [socket, hfd] at hopen
      omega
    | incremental =>
      simp only [socket] at hopen
      have hne : c.incrementalMcastSocket.socketFd ≠ c.snapshotMcastSocket.socketFd := by omega
      simp only [recvCallback, socket, hne, decide_false] at hrun
      rcases onReceived_cases hrun with ⟨⟨hsnap, _⟩, _⟩ | ⟨_, hloop⟩
      · cases hsnap
      · exact run_invariant (fun _ _ _ hdeaf hstep ↦ Deaf.onRequest hdeaf hstep) h hloop
  · exact Except.ok.inj hrun ▸ h

/-- Whatever is received, the consumer stays as it is after construction: in recovery and without
a snapshot. -/
theorem deaf_of_run (hnew : new os snapshotGroup incrementalGroup = .ok c₀)
    (hrun : arrivals.foldlM (sendAndRecv os) c₀ = .ok c) : c.Deaf incrementalGroup :=
  run_invariant (fun _ _ _ hdeaf hstep ↦ Deaf.sendAndRecv hdeaf hstep) (.of_new hnew) hrun

/-- In no state of any run is the consumer subscribed to what it needs. -/
theorem not_subscribed (hnew : new os snapshotGroup incrementalGroup = .ok c₀)
    (hrun : arrivals.foldlM (sendAndRecv os) c₀ = .ok c) :
    ¬ c.Subscribed snapshotGroup incrementalGroup := by
  intro h
  have hdeaf := deaf_of_run hnew hrun
  have hfd := (h.2 hdeaf.inRecovery).1
  rw [hdeaf.snapshotSocket] at hfd
  simp [McastSocket.new] at hfd

theorem not_subscribed_one :
    ∃ c, [(.incremental, [⟨1, ⟨.ADD, 7, 0, .BUY, 100, 5, 1⟩⟩])].foldlM (sendAndRecv sameFd) started =
        .ok c ∧ c.incrementalQueuedMsgs.size = 1 ∧
      ¬ c.Subscribed ⟨"233.252.14.1", 20000⟩ ⟨"233.252.14.3", 20001⟩ := by
  have hnew : new sameFd ⟨"233.252.14.1", 20000⟩ ⟨"233.252.14.3", 20001⟩ = .ok started := rfl
  obtain ⟨c, hrun, hsize⟩ : ∃ c, [(.incremental, [⟨1, ⟨.ADD, 7, 0, .BUY, 100, 5, 1⟩⟩])].foldlM
      (sendAndRecv sameFd) started = .ok c ∧ c.incrementalQueuedMsgs.size = 1 :=
    Yields.exists_ok (by decide +kernel)
  exact ⟨c, hrun, hsize, not_subscribed hnew hrun⟩

/-- The constructor leaves the snapshot socket closed and the consumer in recovery. -/
theorem not_subscribed_started : ∃ c,
    new sameFd ⟨"233.252.14.1", 20000⟩ ⟨"233.252.14.3", 20001⟩ = .ok c ∧
      ¬ c.Subscribed ⟨"233.252.14.1", 20000⟩ ⟨"233.252.14.3", 20001⟩ :=
  ⟨started, rfl, by decide⟩

end LowLatency.Trading.MarketDataConsumer
