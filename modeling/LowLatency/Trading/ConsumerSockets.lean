import LowLatency.Exchange.SnapshotLoop
import LowLatency.Trading.SnapshotRoundTrip
import LowLatency.Trading.Subscription

namespace LowLatency.Trading

open Common Exchange Function

structure ConsumerSockets where
  consumer : MarketDataConsumer
  inboundData : MarketDataConsumer.Channel → List UInt8

namespace ConsumerSockets

open MarketDataConsumer

def new (os : Os) (snapshotGroup incrementalGroup : Group) : Except Fault ConsumerSockets := do
  let consumer ← MarketDataConsumer.new os snapshotGroup incrementalGroup
  return ⟨consumer, fun _ ↦ []⟩

def recvCallback (os : Os) (s : ConsumerSockets) (channel : Channel) : Except Fault ConsumerSockets :=
  let isSnapshot := decide
    ((s.consumer.socket channel).socketFd = s.consumer.snapshotMcastSocket.socketFd)
  if isSnapshot ∧ ¬ s.consumer.inRecovery then
    .ok { s with inboundData := update s.inboundData channel [] }
  else if (s.inboundData channel).length ≥ Layout.mdpMarketUpdate.size then do
    let consumer ← (Layout.mdpMarketUpdate.messages (s.inboundData channel)).foldlM
      (onRequest os isSnapshot) s.consumer
    return ⟨consumer, update s.inboundData channel
      (leftover Layout.mdpMarketUpdate.size (s.inboundData channel))⟩
  else .ok s

/-- `sendAndRecv` of one of the sockets, with the datagram that there is to be read. What does not
fit into the buffer is cut off. -/
def sendAndRecv (os : Os) (s : ConsumerSockets) (arrival : Channel × List UInt8) :
    Except Fault ConsumerSockets :=
  if 0 ≤ (s.consumer.socket arrival.1).socketFd then
    let data := arrival.2.take (McastBufferSize - (s.inboundData arrival.1).length)
    if data = [] then .ok s
    else recvCallback os { s with
      inboundData := update s.inboundData arrival.1 (s.inboundData arrival.1 ++ data) } arrival.1
  else .ok s

variable {os : Os} {s s' : ConsumerSockets} {c : MarketDataConsumer} {channel : Channel}
  {ms : List MDPMarketUpdate} {bytes : List UInt8}

section WholeMessages

theorem recvCallback_whole (hfits : ∀ m ∈ ms, Layout.mdpMarketUpdate.Fits m) (hne : ms ≠ [])
    (h : s.inboundData channel = Layout.mdpMarketUpdate.stream ms) :
    s.recvCallback os channel = (s.consumer.recvCallback os channel ms).map
      (⟨·, update s.inboundData channel []⟩) := by
  have hlength : (s.inboundData channel).length ≥ Layout.mdpMarketUpdate.size := by
    rw [h, Packed.length_stream]
    exact Nat.le_mul_of_pos_left _ (List.length_pos_of_ne_nil hne)
  unfold recvCallback MarketDataConsumer.recvCallback onReceived
  dsimp only
  split_ifs
  · rfl
  · rw [h, Packed.messages_stream _ (by decide) hfits, Packed.leftover_stream _ (by decide)]
    cases ms.foldlM (onRequest os _) s.consumer <;> rfl

theorem sendAndRecv_whole (hfits : ∀ m ∈ ms, Layout.mdpMarketUpdate.Fits m)
    (hroom : ms.length * Layout.mdpMarketUpdate.size ≤ McastBufferSize) :
    sendAndRecv os ⟨c, fun _ ↦ []⟩ (channel, Layout.mdpMarketUpdate.stream ms) =
      (c.sendAndRecv os (channel, ms)).map (⟨·, fun _ ↦ []⟩) := by
  have htake : (Layout.mdpMarketUpdate.stream ms).take McastBufferSize = Layout.mdpMarketUpdate.stream ms :=
    List.take_of_length_le (by rwa [Packed.length_stream])
  have hnone : (fun _ ↦ [] : Channel → List UInt8) = update (fun _ ↦ []) channel [] :=
    (update_eq_self channel _).symm
  unfold sendAndRecv MarketDataConsumer.sendAndRecv
  dsimp only
  split_ifs with hopen hempty
  · rw [List.length_nil, Nat.sub_zero, htake] at hempty
    have hnil : ms = [] := by
      cases ms with
      | nil => rfl
      | cons m ms =>
        have hlength := congrArg List.length hempty
        rw [Packed.length_stream, List.length_nil, List.length_cons, Nat.succ_mul] at hlength
        exact absurd hlength (Nat.add_pos_right _ (by decide)).ne'
    subst hnil
    unfold MarketDataConsumer.recvCallback onReceived
    dsimp only
    split_ifs <;> rfl
  · rw [List.length_nil, Nat.sub_zero, htake] at hempty ⊢
    have hdata : update (fun _ ↦ [] : Channel → List UInt8) channel ([] ++ Layout.mdpMarketUpdate.stream ms)
        channel = Layout.mdpMarketUpdate.stream ms := update_self ..
    rw [recvCallback_whole hfits (fun hnil ↦ hempty (by rw [hnil]; rfl)) hdata]
    dsimp only
    rw [update_idem, ← hnone]
  · rfl

variable (os c) in
/-- On datagrams of whole messages, the consumer of bytes does what the consumer of messages does. -/
theorem run_whole {arrivals : List (Channel × List MDPMarketUpdate)}
    (hfits : ∀ a ∈ arrivals, ∀ m ∈ a.2, Layout.mdpMarketUpdate.Fits m)
    (hroom : ∀ a ∈ arrivals, a.2.length * Layout.mdpMarketUpdate.size ≤ McastBufferSize) :
    (arrivals.map fun a ↦ (a.1, Layout.mdpMarketUpdate.stream a.2)).foldlM (sendAndRecv os)
        ⟨c, fun _ ↦ []⟩ =
      (arrivals.foldlM (MarketDataConsumer.sendAndRecv os) c).map (⟨·, fun _ ↦ []⟩) := by
  induction arrivals generalizing c with
  | nil => rfl
  | cons a arrivals ih =>
    rw [List.map_cons, List.foldlM_cons, List.foldlM_cons,
      sendAndRecv_whole (hfits a List.mem_cons_self) (hroom a List.mem_cons_self)]
    cases c.sendAndRecv os a with
    | error e => rfl
    | ok c' =>
      exact ih c' (fun b hb ↦ hfits b (List.mem_cons_of_mem a hb))
        fun b hb ↦ hroom b (List.mem_cons_of_mem a hb)

end WholeMessages

end ConsumerSockets

namespace MarketDataConsumer

variable {os : Os} {c c' : MarketDataConsumer} {m : MDPMarketUpdate} {ms ms' : List MDPMarketUpdate}
  {ds : List (List MDPMarketUpdate)} {incrementalGroup : Group}

section Deliver

theorem deliver_append : c.deliver (ms ++ ms') = (c.deliver ms).deliver ms' := List.foldl_append

theorem queueMessage_socket (h : (c.queueMessage true m).inRecovery = true) :
    (c.queueMessage true m).snapshotMcastSocket = c.snapshotMcastSocket := by
  rcases checkSnapshotSync_cases (c.enqueue true m) with ⟨next, queued, hcheck, -⟩ | ⟨_, _, _, _, -, -, -, hcheck⟩
  · rw [queueMessage, hcheck]
    rfl
  · rw [queueMessage, hcheck] at h
    cases h

/-- Until the last of them, the messages leave the consumer in recovery. -/
def Awaits (c : MarketDataConsumer) (ms : List MDPMarketUpdate) : Prop :=
  ∀ n < ms.length, (c.deliver (ms.take n)).inRecovery = true

theorem Awaits.left (h : c.Awaits (ms ++ ms')) : c.Awaits ms := by
  intro n hn
  have hrec := h n (hn.trans_le (by rw [List.length_append]; exact Nat.le_add_right _ _))
  rwa [List.take_append_of_le_length hn.le] at hrec

theorem Awaits.right (h : c.Awaits (ms ++ ms')) : (c.deliver ms).Awaits ms' := by
  intro n hn
  have hrec := h (ms.length + n) (by rw [List.length_append]; exact Nat.add_lt_add_left hn _)
  rwa [List.take_length_add_append, deliver_append] at hrec

theorem Awaits.tail (h : c.Awaits (m :: ms)) : (c.queueMessage true m).Awaits ms :=
  Awaits.right (show c.Awaits ([m] ++ ms) from h)

theorem Awaits.foldlM_onRequest (h : c.Awaits ms) :
    ms.foldlM (onRequest os true) c = .ok (c.deliver ms) := by
  induction ms generalizing c with
  | nil => rfl
  | cons m ms ih =>
    have hrec : c.inRecovery = true := h 0 (Nat.succ_pos _)
    rw [List.foldlM_cons, onRequest, if_pos hrec]
    exact ih h.tail

theorem deliver_socket (h : c.Awaits ms) (hend : (c.deliver ms).inRecovery = true) :
    (c.deliver ms).snapshotMcastSocket = c.snapshotMcastSocket := by
  induction ms generalizing c with
  | nil => rfl
  | cons m ms ih =>
    have hnext : (c.queueMessage true m).inRecovery = true := by
      cases ms with
      | nil => exact hend
      | cons m' ms => exact h 1 (Nat.succ_lt_succ (Nat.succ_pos _))
    exact (ih h.tail hend).trans (queueMessage_socket hnext)

variable (os) in
theorem Awaits.sendAndRecv (h : c.Awaits ds.flatten) (hne : ∀ d ∈ ds, d ≠ [])
    (hopen : 0 ≤ c.snapshotMcastSocket.socketFd) :
    (ds.map (Channel.snapshot, ·)).foldlM (sendAndRecv os) c = .ok (c.deliver ds.flatten) := by
  induction ds generalizing c with
  | nil => rfl
  | cons d ds ih =>
    rw [List.flatten_cons] at h
    have hlength : 0 < d.length := List.length_pos_of_ne_nil (hne d List.mem_cons_self)
    have hrec : c.inRecovery = true := h 0 (by rw [List.length_append]; exact Nat.add_pos_left hlength _)
    have hfirst : c.sendAndRecv os (.snapshot, d) = .ok (c.deliver d) := by
      have hopen' : 0 ≤ (c.socket (Channel.snapshot, d).1).socketFd := hopen
      rw [MarketDataConsumer.sendAndRecv, if_pos hopen', recvCallback]
      simp only [socket, decide_true, onReceived, hrec, not_true_eq_false, and_false, if_false]
      exact h.left.foldlM_onRequest
    rw [List.map_cons, List.foldlM_cons, hfirst, ok_bind, List.flatten_cons, deliver_append]
    cases ds with
    | nil => rfl
    | cons d' ds =>
      have hnonempty : 0 < (d' :: ds).flatten.length := by
        rw [List.flatten_cons, List.length_append]
        exact Nat.add_pos_left (List.length_pos_of_ne_nil (hne d' (by simp))) _
      have hend : (c.deliver d).inRecovery = true := h.right 0 hnonempty
      refine ih h.right (fun d hd ↦ hne d (List.mem_cons_of_mem _ hd)) ?_
      rw [deliver_socket h.left hend]
      exact hopen

end Deliver

section Deaf

variable (os)

theorem Deaf.onRequest_eq (h : c.Deaf incrementalGroup) (m : MDPMarketUpdate) :
    MarketDataConsumer.onRequest os false c m = .ok (c.enqueue false m) := by
  have hq : (c.enqueue false m).snapshotQueuedMsgs.toList = [] := h.snapshotQueue
  rw [MarketDataConsumer.onRequest, if_pos h.inRecovery, queueMessage, checkSnapshotSync, hq]
  rfl

def queuedAfter (queue : QueuedMarketUpdates) (ms : List MDPMarketUpdate) : QueuedMarketUpdates :=
  ms.foldl (fun queue m ↦ queue.insert m.seqNum m.meMarketUpdate) queue

theorem Deaf.foldlM_onRequest (h : c.Deaf incrementalGroup) (ms : List MDPMarketUpdate) :
    ∃ c', ms.foldlM (MarketDataConsumer.onRequest os false) c = .ok c' ∧ c'.Deaf incrementalGroup ∧
      c'.incrementalQueuedMsgs = queuedAfter c.incrementalQueuedMsgs ms := by
  induction ms generalizing c with
  | nil => exact ⟨c, rfl, h, rfl⟩
  | cons m ms ih =>
    have hstep := h.onRequest_eq os m
    obtain ⟨c', hrun, hdeaf, hqueue⟩ := ih (h.onRequest hstep)
    refine ⟨c', ?_, hdeaf, hqueue⟩
    rw [List.foldlM_cons, hstep]
    exact hrun

end Deaf

end MarketDataConsumer

namespace ConsumerSockets

open MarketDataConsumer SnapshotSynthesizer

variable {os : Os} {s s' s₀ : ConsumerSockets} {c : MarketDataConsumer} {v : SnapshotSynthesizer}
  {socket : McastSender} {snapshotGroup incrementalGroup : Group} {channel : Channel} {bytes : List UInt8}

/-- The packets of a snapshot bring a consumer in recovery, whose snapshot socket is open, to the
state of the table. -/
theorem packets_recover (hv : v.AllFit) (hadds : v.OnlyAdds) (hbuffer : socket.outboundData = [])
    (hopen : 0 ≤ c.snapshotMcastSocket.socketFd) (hrec : c.inRecovery = true)
    (hs : c.snapshotQueuedMsgs = ∅) (hi : c.incrementalQueuedMsgs = ∅) :
    ∃ packets s, v.publish socket = .ok ⟨[], socket.packets ++ packets⟩ ∧
      (packets.map (Channel.snapshot, ·)).foldlM (sendAndRecv os) ⟨c, fun _ ↦ []⟩ = .ok s ∧
      s.inboundData = (fun _ ↦ []) ∧ s.consumer.inRecovery = false ∧
      s.consumer.nextExpIncSeqNum = (v.lastIncSeqNum + 1) % 2 ^ 64 ∧
      s.consumer.incomingMdUpdates = c.incomingMdUpdates ++ v.body := by
  obtain ⟨ds, hpublish, hflatten, hsizes, -⟩ := v.publish_packets hbuffer
  obtain ⟨hawaits, hend, hnext, hincoming, -, -⟩ := deliver_publishSnapshot hadds hrec hs hi
  have hawaits' : c.Awaits ds.flatten := hflatten ▸ fun n hn ↦ (hawaits n hn).1
  have hmessages := hawaits'.sendAndRecv os
    (fun d hd ↦ List.ne_nil_of_length_pos (hsizes d hd).1) hopen
  have hfits : ∀ a ∈ ds.map (Channel.snapshot, ·), ∀ m ∈ a.2, Layout.mdpMarketUpdate.Fits m := by
    intro a ha m hm
    obtain ⟨d, hd, rfl⟩ := List.mem_map.mp ha
    exact hv.publishSnapshot_fits (hflatten ▸ List.mem_flatten_of_mem hd hm)
  have hroom : ∀ a ∈ ds.map (Channel.snapshot, ·),
      a.2.length * Layout.mdpMarketUpdate.size ≤ McastBufferSize := by
    intro a ha
    obtain ⟨d, hd, rfl⟩ := List.mem_map.mp ha
    exact (Nat.mul_le_mul_right _ (hsizes d hd).2).trans (by decide)
  have hbytes := run_whole os c hfits hroom
  rw [hmessages, List.map_map] at hbytes
  refine ⟨ds.map Layout.mdpMarketUpdate.stream, ⟨c.deliver ds.flatten, fun _ ↦ []⟩, hpublish, ?_, rfl, ?_⟩
  · rw [List.map_map]
    exact hbytes
  · rw [hflatten]
    exact ⟨hend, hnext, hincoming⟩

def listening : MarketDataConsumer := { started with snapshotMcastSocket := ⟨4, none, none⟩ }

theorem packets_recover_single : ∃ (packets : List (List UInt8)) (s : ConsumerSockets),
    (packets.map (Channel.snapshot, ·)).foldlM (sendAndRecv sameFd) ⟨listening, fun _ ↦ []⟩ = .ok s ∧
      s.consumer.inRecovery = false ∧ s.consumer.nextExpIncSeqNum = 6 := by
  have hv : (single 5 ⟨.ADD, 0, 0, .BUY, 100, 5, 1⟩).AllFit :=
    ⟨fun _ ↦ (by decide : MEMarketUpdate.Fits ⟨.ADD, 0, 0, .BUY, 100, 5, 1⟩), (by decide : 5 < 2 ^ 64)⟩
  obtain ⟨packets, s, -, hrun, -, hrec, hnext, -⟩ := @packets_recover sameFd listening _ .new hv
    (fun _ _ _ _ _ _ ↦ rfl) rfl (by decide) rfl rfl rfl
  exact ⟨packets, s, hrun, hrec, hnext⟩

def received (arrivals : List (Channel × List UInt8)) : List UInt8 :=
  (arrivals.filter (·.1 = .incremental)).flatMap (·.2)

/-- Of all that has come, the complete messages are queued and the rest is in the buffer. -/
structure Waits (incrementalGroup : Group) (arrivals : List (Channel × List UInt8)) (s : ConsumerSockets) :
    Prop where
  deaf : s.consumer.Deaf incrementalGroup
  inbound : s.inboundData .incremental = leftover Layout.mdpMarketUpdate.size (received arrivals)
  queue : s.consumer.incrementalQueuedMsgs =
    queuedAfter ∅ (Layout.mdpMarketUpdate.messages (received arrivals))

variable {arrivals : List (Channel × List UInt8)}

theorem Waits.of_new (h : new os snapshotGroup incrementalGroup = .ok s) : s.Waits incrementalGroup [] := by
  obtain ⟨c, hnew, hs⟩ := bind_eq_ok h
  obtain rfl := Except.ok.inj hs
  obtain ⟨-, -, -, hqueue⟩ := new_ok hnew
  exact ⟨.of_new hnew, rfl, hqueue⟩

theorem received_snapshot : received (arrivals ++ [(.snapshot, bytes)]) = received arrivals := by
  simp [received]

theorem received_incremental :
    received (arrivals ++ [(.incremental, bytes)]) = received arrivals ++ bytes := by
  simp [received]

theorem Waits.recvCallback (h : s.Waits incrementalGroup arrivals) :
    ∃ s', ConsumerSockets.recvCallback os { s with
        inboundData := update s.inboundData .incremental (s.inboundData .incremental ++ bytes) }
        .incremental = .ok s' ∧ s'.Waits incrementalGroup (arrivals ++ [(.incremental, bytes)]) := by
  have hpos : 0 < Layout.mdpMarketUpdate.size := by decide
  have hfd := h.deaf.incrementalSocket.1
  have hne : (s.consumer.socket .incremental).socketFd ≠ s.consumer.snapshotMcastSocket.socketFd := by
    rw [h.deaf.snapshotSocket]
    exact ne_of_gt (hfd.trans_lt' (by decide))
  have hmessages := Layout.mdpMarketUpdate.messages_more hpos (received arrivals) bytes
  have hleft := (frames_more hpos (received arrivals) bytes).2
  rw [← h.inbound] at hmessages hleft
  obtain ⟨c, hrun, hdeaf, hqueue⟩ := h.deaf.foldlM_onRequest os
    (Layout.mdpMarketUpdate.messages (s.inboundData .incremental ++ bytes))
  rw [h.queue] at hqueue
  have hall : c.incrementalQueuedMsgs =
      queuedAfter ∅ (Layout.mdpMarketUpdate.messages (received arrivals ++ bytes)) := by
    rw [hqueue, hmessages, queuedAfter, queuedAfter, queuedAfter, List.foldl_append]
  unfold ConsumerSockets.recvCallback
  dsimp only
  rw [decide_eq_false hne, if_neg (fun hsnap ↦ by cases hsnap.1)]
  simp only [update_self]
  split_ifs with hlength
  · rw [hrun]
    refine ⟨_, rfl, hdeaf, ?_, ?_⟩
    · simp only [received_incremental, hleft, update_self]
    · rw [received_incremental]
      exact hall
  · rw [Packed.messages, frames_of_lt (not_le.mp hlength)] at hrun
    obtain rfl := Except.ok.inj hrun
    refine ⟨_, rfl, hdeaf, ?_, ?_⟩
    · simp only [received_incremental, hleft, leftover_of_lt (not_le.mp hlength), update_self]
    · rw [received_incremental]
      exact hall

theorem Waits.sendAndRecv {a : Channel × List UInt8} (h : s.Waits incrementalGroup arrivals)
    (hsize : a.2.length ≤ 65535) :
    ∃ s', sendAndRecv os s a = .ok s' ∧ s'.Waits incrementalGroup (arrivals ++ [a]) := by
  obtain ⟨channel, bytes⟩ := a
  unfold ConsumerSockets.sendAndRecv
  cases channel with
  | snapshot =>
    have hclosed : ¬ 0 ≤ (s.consumer.socket .snapshot).socketFd := by
      rw [socket, h.deaf.snapshotSocket]
      decide
    rw [if_neg hclosed]
    refine ⟨s, rfl, h.deaf, ?_, ?_⟩
    · rw [received_snapshot]
      exact h.inbound
    · rw [received_snapshot]
      exact h.queue
  | incremental =>
    have hopen : 0 ≤ (s.consumer.socket .incremental).socketFd := h.deaf.incrementalSocket.1
    have hshort : (s.inboundData .incremental).length < Layout.mdpMarketUpdate.size := by
      rw [h.inbound]
      exact length_leftover_lt (by decide)
    have hroom : 65535 + Layout.mdpMarketUpdate.size ≤ McastBufferSize := by decide
    have htake : bytes.take (McastBufferSize - (s.inboundData .incremental).length) = bytes := by
      refine List.take_of_length_le (hsize.trans ?_)
      omega
    rw [if_pos hopen]
    dsimp only
    rw [htake]
    split_ifs with hempty
    · subst hempty
      refine ⟨s, rfl, h.deaf, ?_, ?_⟩
      · rw [received_incremental, List.append_nil]
        exact h.inbound
      · rw [received_incremental, List.append_nil]
        exact h.queue
    · exact h.recvCallback

/-- Whatever comes on the two sockets, and however it is cut into datagrams: the consumer goes on,
has queued the updates that came, and has passed none of them on. -/
theorem bytes_wait (hnew : new os snapshotGroup incrementalGroup = .ok s₀)
    (hsize : ∀ a ∈ arrivals, a.2.length ≤ 65535) :
    ∃ s, arrivals.foldlM (sendAndRecv os) s₀ = .ok s ∧ s.consumer.inRecovery = true ∧
      s.consumer.incomingMdUpdates = [] ∧
      s.consumer.incrementalQueuedMsgs =
        queuedAfter ∅ (Layout.mdpMarketUpdate.messages (received arrivals)) ∧
      s.inboundData .incremental = leftover Layout.mdpMarketUpdate.size (received arrivals) := by
  have hguard : Guarded (sendAndRecv os) (fun _ a ↦ a.2.length ≤ 65535) s₀ arrivals :=
    .of_mem fun a ha _ ↦ hsize a ha
  obtain ⟨s, hrun, hs⟩ := hguard.returns_history (I := fun arrivals s ↦ s.Waits incrementalGroup arrivals)
    (.of_new hnew) fun arrivals a s hs ha ↦ hs.sendAndRecv ha
  exact ⟨s, hrun, hs.deaf.inRecovery, hs.deaf.written, hs.queue, hs.inbound⟩

def torn : List (Channel × List UInt8) :=
  let bytes := Layout.mdpMarketUpdate.encode ⟨1, ⟨.ADD, 7, 0, .BUY, 100, 5, 1⟩⟩
  [(.incremental, bytes.take 10), (.incremental, bytes.drop 10)]

theorem bytes_wait_torn : ∃ s₀ s, new sameFd ⟨"233.252.14.1", 20000⟩ ⟨"233.252.14.3", 20001⟩ = .ok s₀ ∧
    torn.foldlM (sendAndRecv sameFd) s₀ = .ok s ∧ s.consumer.incomingMdUpdates = [] ∧
      s.consumer.incrementalQueuedMsgs = queuedAfter ∅ [⟨1, ⟨.ADD, 7, 0, .BUY, 100, 5, 1⟩⟩] := by
  have hnew : new sameFd ⟨"233.252.14.1", 20000⟩ ⟨"233.252.14.3", 20001⟩ = .ok ⟨started, fun _ ↦ []⟩ := rfl
  obtain ⟨s, hrun, -, hincoming, hqueue, -⟩ := bytes_wait hnew
    (show ∀ a ∈ torn, a.2.length ≤ 65535 by decide +kernel)
  have hmessages : Layout.mdpMarketUpdate.messages (received torn) =
      [⟨1, ⟨.ADD, 7, 0, .BUY, 100, 5, 1⟩⟩] := by decide +kernel
  exact ⟨_, s, hnew, hrun, hincoming, hmessages ▸ hqueue⟩

end ConsumerSockets

namespace MarketDataConsumer

variable {os : Os} {isSnapshot : Bool} {c c' : MarketDataConsumer} {m : MDPMarketUpdate}

theorem queueMessage_incoming (isSnapshot : Bool) (c : MarketDataConsumer) (m : MDPMarketUpdate) :
    c.incomingMdUpdates <+: (c.queueMessage isSnapshot m).incomingMdUpdates := by
  have hqueued := incomingMdUpdates_enqueue (c := c) isSnapshot m
  rw [queueMessage]
  rcases checkSnapshotSync_cases (c.enqueue isSnapshot m) with ⟨_, _, hcheck, -⟩ | ⟨_, _, _, _, -, -, -, hcheck⟩
  · rw [hcheck, ← hqueued]
  · rw [hcheck, ← hqueued]
    exact List.prefix_append _ _

theorem onRequest_incoming (h : onRequest os isSnapshot c m = .ok c') :
    c.incomingMdUpdates <+: c'.incomingMdUpdates := by
  rcases onRequest_cases h with ⟨c₁, rfl, -, hsame, -⟩ | ⟨-, -, rfl⟩ | ⟨-, -, -, rfl⟩
  · rw [← hsame]
    exact c₁.queueMessage_incoming isSnapshot m
  · exact List.prefix_rfl
  · exact List.prefix_append _ _

end MarketDataConsumer

namespace ConsumerSockets

open MarketDataConsumer

variable {os : Os} {s s' : ConsumerSockets} {a : Channel × List UInt8} {incrementalGroup : Group}

theorem sendAndRecv_cases (h : s.sendAndRecv os a = .ok s') : s'.consumer = s.consumer ∨
    0 ≤ (s.consumer.socket a.1).socketFd ∧ ∃ ms : List MDPMarketUpdate,
      ms.foldlM (onRequest os (decide
        ((s.consumer.socket a.1).socketFd = s.consumer.snapshotMcastSocket.socketFd))) s.consumer =
          .ok s'.consumer := by
  unfold ConsumerSockets.sendAndRecv ConsumerSockets.recvCallback at h
  dsimp only at h
  split_ifs at h with hopen
  · exact .inl (Except.ok.inj h ▸ rfl)
  · exact .inl (Except.ok.inj h ▸ rfl)
  · obtain ⟨consumer, hrun, h⟩ := bind_eq_ok h
    obtain rfl := Except.ok.inj h
    exact .inr ⟨hopen, _, hrun⟩
  · exact .inl (Except.ok.inj h ▸ rfl)
  · exact .inl (Except.ok.inj h ▸ rfl)

theorem sendAndRecv_incoming (h : s.sendAndRecv os a = .ok s') :
    s.consumer.incomingMdUpdates <+: s'.consumer.incomingMdUpdates := by
  rcases sendAndRecv_cases h with hsame | ⟨-, ms, hrun⟩
  · rw [hsame]
  · exact run_invariant (I := fun c ↦ s.consumer.incomingMdUpdates <+: c.incomingMdUpdates)
      (fun _ _ _ hc hstep ↦ hc.trans (onRequest_incoming hstep)) List.prefix_rfl hrun

theorem sendAndRecv_deaf (hdeaf : s.consumer.Deaf incrementalGroup) (h : s.sendAndRecv os a = .ok s') :
    s'.consumer.Deaf incrementalGroup := by
  rcases sendAndRecv_cases h with hsame | ⟨hopen, ms, hrun⟩
  · rw [hsame]
    exact hdeaf
  · have hclosed : s.consumer.snapshotMcastSocket.socketFd = -1 := by
      rw [hdeaf.snapshotSocket]
      rfl
    rw [decide_eq_false (fun heq ↦ by rw [heq, hclosed] at hopen; cases hopen)] at hrun
    exact run_invariant (fun _ _ _ hc hstep ↦ Deaf.onRequest hc hstep) hdeaf hrun

end ConsumerSockets

end LowLatency.Trading
