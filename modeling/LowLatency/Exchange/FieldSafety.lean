import LowLatency.Exchange.MatchingEngine
import LowLatency.Exchange.Provenance
import LowLatency.Exchange.Sequencing

namespace LowLatency.Exchange

open Common Book Function

def MEClientRequest.Indexable (r : MEClientRequest) : Prop :=
  r.clientId < ME_MAX_NUM_CLIENTS ∧ r.tickerId < ME_MAX_TICKERS ∧ r.orderId < ME_MAX_ORDER_IDS

instance : DecidablePred MEClientRequest.Indexable := fun _ ↦ inferInstanceAs (Decidable (_ ∧ _))

namespace OrderEntry

/-- The request is not passed on, and the loop goes on. -/
def TurnsAway (p : Ptr) (rxTime : Nanos) (v : OrderEntry) (m : OMClientRequest) : Prop :=
  ∃ v', onRequest p rxTime v m = .ok v' ∧ v'.forwarded = v.forwarded

/-- Every request that is read meets `ok` when the loop of `recvCallback` comes to it. -/
def EachRead (v : OrderEntry) (ok : Ptr → Nanos → OrderEntry → OMClientRequest → Prop) : Event → Prop
  | .sendAndRecv p chunk rxTime _ => chunk ≠ [] →
    Guarded (onRequest p rxTime) (ok p rxTime) (v.setSocket p ((v.sockets p).receive chunk))
      (Layout.omClientRequest.messages ((v.sockets p).recvBuffer ++ chunk))
  | .publish | .response _ => True

instance EachRead.decidable {ok : Ptr → Nanos → OrderEntry → OMClientRequest → Prop}
    [∀ p rxTime v m, Decidable (ok p rxTime v m)] (v : OrderEntry) : ∀ e, Decidable (v.EachRead ok e)
  | .sendAndRecv _ _ _ _ => inferInstanceAs (Decidable (_ → Guarded _ _ _ _))
  | .publish | .response _ => inferInstanceAs (Decidable True)

def OfClient (_ : Ptr) (_ : Nanos) (_ : OrderEntry) (m : OMClientRequest) : Prop :=
  m.meClientRequest.clientId < ME_MAX_NUM_CLIENTS

instance (p : Ptr) (rxTime : Nanos) (v : OrderEntry) : DecidablePred (OfClient p rxTime v) :=
  fun _ ↦ inferInstanceAs (Decidable (_ < _))

variable {v v' : OrderEntry} {p : Ptr} {rxTime : Nanos} {m : OMClientRequest} {ms : List OMClientRequest}
  {sort : List RecvTimeClientRequest → List RecvTimeClientRequest} {e : Event} {f : Fault}

theorem ends_onRequest (hid : OfClient p rxTime v m) :
    Ends (onRequest p rxTime v m) (fun _ ↦ True) fun f ↦ ¬ f.Indexes := by
  have hid : m.meClientRequest.clientId < ME_MAX_NUM_CLIENTS := hid
  simp only [onRequest, if_pos hid]
  split_ifs
  · trivial
  · trivial
  · refine Ends.bind (P := fun _ ↦ True) ?_ fun _ _ ↦ trivial
    unfold FIFOSequencer.addClientRequest
    split_ifs
    · simp [Ends, Fault.Indexes]
    · trivial

theorem ends_loop (hg : Guarded (onRequest p rxTime) (OfClient p rxTime) v ms) :
    Ends (ms.foldlM (onRequest p rxTime) v) (fun _ ↦ True) fun f ↦ ¬ f.Indexes := by
  induction ms generalizing v with
  | nil => trivial
  | cons m ms ih =>
    rw [List.foldlM_cons]
    cases hm : onRequest p rxTime v m with
    | ok v' => exact ih ((Guarded.cons_ok hm).mp hg).2
    | error f => exact (ends_onRequest hg.1).of_error hm

theorem loop_outOfBounds (hg : ¬ Guarded (onRequest p rxTime) (OfClient p rxTime) v ms) :
    ms.foldlM (onRequest p rxTime) v = .error .outOfBounds := by
  induction ms generalizing v with
  | nil => exact absurd trivial hg
  | cons m ms ih =>
    rw [List.foldlM_cons]
    by_cases hid : OfClient p rxTime v m
    · cases hm : onRequest p rxTime v m with
      | ok v' => exact ih fun hg' ↦ hg ((Guarded.cons_ok hm).mpr ⟨hid, hg'⟩)
      | error f => exact absurd ⟨hid, by rw [hm]; trivial⟩ hg
    · have hm : onRequest p rxTime v m = .error .outOfBounds := if_neg hid
      rw [hm]
      rfl

theorem ends_flush (s : TCPSocket) (result : SendResult) :
    Ends (s.flush result) (fun _ ↦ True) fun f ↦ ¬ f.Indexes := by
  unfold TCPSocket.flush
  split_ifs
  · trivial
  · cases result with
    | sent n =>
      dsimp only
      split_ifs
      · trivial
      · simp [Ends, Fault.Indexes]
    | wouldBlock | failed => trivial

/-- What is received leads to no index beyond a table if and only if each client has an entry. -/
theorem ends_sendAndRecv_iff (v : OrderEntry)
    (sort : List RecvTimeClientRequest → List RecvTimeClientRequest) (p : Ptr) (chunk : List UInt8)
    (rxTime : Nanos) (result : SendResult) :
    Ends (v.step sort (.sendAndRecv p chunk rxTime result)) (fun _ ↦ True) (fun f ↦ ¬ f.Indexes) ↔
      v.EachRead OfClient (.sendAndRecv p chunk rxTime result) := by
  constructor
  · intro h hchunk
    by_contra hg
    have hreceive : v.receive p chunk rxTime = .error .outOfBounds := by
      rw [receive_bind hchunk, loop_outOfBounds hg]
      rfl
    simp only [step, sendAndRecv, hreceive] at h
    exact h (.inr rfl)
  · intro hg
    have hreceive : Ends (v.receive p chunk rxTime) (fun _ ↦ True) fun f ↦ ¬ f.Indexes := by
      by_cases hchunk : chunk = []
      · rw [receive, if_pos hchunk]
        trivial
      · rw [receive_bind hchunk]
        exact (ends_loop (hg hchunk)).bind fun _ _ ↦ trivial
    refine Ends.bind (P := fun _ ↦ True) (hreceive.bind fun v₁ _ ↦ ?_) fun _ _ ↦ trivial
    exact (ends_flush (v₁.sockets p) result).bind fun _ _ ↦ trivial

def Forwards (v : OrderEntry) : Prop :=
  (∀ r ∈ v.fifoSequencer.pendingClientRequests, r.request.clientId < ME_MAX_NUM_CLIENTS) ∧
  ∀ r ∈ v.fifoSequencer.incomingRequests, r.clientId < ME_MAX_NUM_CLIENTS

theorem ofClient_of_ok (hrun : OrderEntry.onRequest p rxTime v m = .ok v') : OfClient p rxTime v m := by
  by_contra hid
  rw [show OrderEntry.onRequest p rxTime v m = .error .outOfBounds from if_neg hid] at hrun
  cases hrun

theorem Forwards.onRequest (h : v.Forwards) (hrun : OrderEntry.onRequest p rxTime v m = .ok v') :
    v'.Forwards := by
  obtain ⟨-, -, -, hfifo, -⟩ := bind_frame v m.meClientRequest.clientId p
  have hbind : (v.bind m.meClientRequest.clientId p).Forwards := by
    rw [Forwards, hfifo]
    exact h
  rcases onRequest_cases hrun with rfl | ⟨-, -, rfl⟩
  · exact hbind
  · refine ⟨fun r hr ↦ ?_, hbind.2⟩
    rcases List.mem_append.mp hr with hr | hr
    · exact hbind.1 r hr
    · rw [List.mem_singleton.mp hr]
      exact ofClient_of_ok hrun

theorem Forwards.step (hsort : FIFOSequencer.Sorts sort) (h : v.Forwards) (hrun : v.step sort e = .ok v') :
    v'.Forwards := by
  cases e with
  | sendAndRecv p chunk rxTime result =>
    exact invariant_sendAndRecv (fun _ _ _ h ↦ h.onRequest) (fun _ _ h ↦ h) h hrun
  | publish =>
    rw [← Except.ok.inj hrun, Forwards, recvFinishedCallback, FIFOSequencer.sequenceAndPublish]
    split_ifs
    · exact h
    · refine ⟨List.forall_mem_nil _, fun r hr ↦ ?_⟩
      rcases List.mem_append.mp hr with hr | hr
      · exact h.2 r hr
      · obtain ⟨q, hq, rfl⟩ := List.mem_map.mp hr
        exact h.1 q ((hsort _).perm.subset hq)
  | response r =>
    obtain ⟨server, -, hsend⟩ := bind_eq_ok hrun
    obtain ⟨_, -, hsend⟩ := bind_eq_ok hsend
    obtain ⟨_, -, hsend⟩ := bind_eq_ok hsend
    obtain ⟨_, -, hsend⟩ := bind_eq_ok hsend
    rw [← Except.ok.inj hsend]
    exact h

end OrderEntry

/-- The order server and the matching engine, with the queue of requests that the one writes and the other
reads. -/
structure Pipeline where
  server : OrderEntry
  engine : MatchingEngine
  taken : ℕ

namespace Pipeline

def start : Pipeline := ⟨.new, .new, 0⟩

/-- A step of the server's thread, or the engine's with the next request. -/
inductive Event
  | server (e : OrderEntry.Event)
  | engine

def nextRequest (x : Pipeline) : Option MEClientRequest :=
  x.server.fifoSequencer.incomingRequests[x.taken]?

def step (sort : List RecvTimeClientRequest → List RecvTimeClientRequest) (x : Pipeline) :
    Event → Except Fault Pipeline
  | .server e => do
    let server ← x.server.step sort e
    return { x with server := server }
  | .engine =>
    match x.nextRequest with
    | none => .ok x
    | some r =>
      match x.engine.processClientRequest r with
      | .ok engine => .ok { x with engine := engine, taken := x.taken + 1 }
      | .error h => .error h.fault

/-- The engine takes the next request without accepting it, and goes on. -/
def Rejects (sort : List RecvTimeClientRequest → List RecvTimeClientRequest) (x : Pipeline) : Prop :=
  ∃ x', x.step sort .engine = .ok x' ∧
    ∀ r ∈ responses (x'.engine.outgoing.drop x.engine.outgoing.length), r.type ≠ .ACCEPTED

/-- No field of a request is used as an index beyond a table, and a request with a field that would be is
turned away. Responses are sent without reading a request. -/
def IndexSafe (sort : List RecvTimeClientRequest → List RecvTimeClientRequest) (x : Pipeline) :
    Event → Prop
  | .server (.sendAndRecv p chunk rxTime result) =>
    let e := OrderEntry.Event.sendAndRecv p chunk rxTime result
    Ends (x.step sort (.server e)) (fun _ ↦ True) (fun f ↦ ¬ f.Indexes) ∧
    x.server.EachRead (fun p rxTime v m ↦
      ¬ m.meClientRequest.clientId < ME_MAX_NUM_CLIENTS → OrderEntry.TurnsAway p rxTime v m) e
  | .server .publish | .server (.response _) => True
  | .engine => Ends (x.step sort .engine) (fun _ ↦ True) (fun f ↦ ¬ f.Indexes) ∧
    ∀ r, x.nextRequest = some r → ¬ r.Indexable → x.Rejects sort

/-- The requests that are read have a client id within the tables, and the one that the engine takes has
a ticker id and an order id within them. -/
def InRange (x : Pipeline) : Event → Prop
  | .server e => x.server.EachRead OrderEntry.OfClient e
  | .engine => ∀ r ∈ x.nextRequest, r.tickerId < ME_MAX_TICKERS ∧ r.orderId < ME_MAX_ORDER_IDS

variable {sort : List RecvTimeClientRequest → List RecvTimeClientRequest} {x x' : Pipeline} {e : Event}
  {es : List Event} {r : MEClientRequest}

instance (x : Pipeline) (e : Event) : Decidable (x.InRange e) :=
  match e with
  | .server e => inferInstanceAs (Decidable (x.server.EachRead OrderEntry.OfClient e))
  | .engine => inferInstanceAs (Decidable (∀ r ∈ x.nextRequest, _))

def HasEntry (key : MEOrderKey) (_ : Price) : Prop := (TableKey.entry key).isSome

theorem covers_hasEntry : MEOrderBook.Covers HasEntry fun f ↦ ¬ f.Indexes where
  other := fun _ h ↦ h
  noEntry := fun key _ hG hnone ↦ by
    rw [HasEntry, hnone] at hG
    cases hG

def Keyed (e : MatchingEngine) : Prop :=
  ∀ t, ∃ P Q, Moved HasEntry P Q (e.tickerOrderBook t).book (e.tickerOrderBook t).book

theorem ends_processClientRequest {e : MatchingEngine} (h : Keyed e) (ht : r.tickerId < ME_MAX_TICKERS)
    (ho : r.orderId < ME_MAX_ORDER_IDS) :
    Ends (e.processClientRequest r) Keyed fun h ↦ ¬ h.fault.Indexes := by
  obtain ⟨P, Q, hb⟩ := h r.tickerId
  have hcall : ∀ c, Ends ((e.tickerOrderBook r.tickerId).step c)
      (fun s ↦ ∃ P Q, Moved HasEntry P Q s.book s.book) (fun h ↦ ¬ h.fault.Indexes) →
      Ends (e.call r.tickerId c) Keyed fun h ↦ ¬ h.fault.Indexes := by
    intro c hc
    unfold MatchingEngine.call
    dsimp only
    cases hs : (e.tickerOrderBook r.tickerId).step c with
    | error h =>
      have hfault : ¬ h.fault.Indexes := hc.of_error hs
      exact hfault
    | ok s =>
      intro t
      dsimp only
      rw [update_apply]
      split_ifs
      · exact hc.of_ok hs
      · exact h t
  unfold MatchingEngine.processClientRequest
  dsimp only
  rw [if_pos ht]
  cases r.type with
  | INVALID => simp [Ends, Fault.Indexes]
  | NEW =>
    have hG : HasEntry ((e.tickerOrderBook r.tickerId).newKey r.newOrder) r.newOrder.price := by
      have hlt : r.tickerId < ME_MAX_NUM_CLIENTS := ht.trans (by decide)
      exact Option.isSome_iff_exists.mpr ⟨_, if_pos ⟨hlt, ho⟩⟩
    refine hcall _ ((MEOrderBook.ends_add hb covers_hasEntry hG).imp fun s hs ↦ ?_)
    obtain ⟨P', Q', hb', -⟩ := hs.moved
    exact ⟨P', Q', hb'⟩
  | CANCEL =>
    refine (hcall _ ((MEOrderBook.ends_cancel hb covers_hasEntry _ _ _ fun _ hno ↦ absurd ho hno).imp
      fun s hs ↦ ⟨P, Q, hs.moved⟩)).bind fun e' _ ↦ ?_
    simp [Ends, Fault.Indexes]

theorem keyed_new : Keyed .new := fun t ↦ ⟨_, _, MEOrderBook.moved_new t⟩

/-- The engine accepts every NEW that it comes to the end of, and it comes to the end of nothing else. -/
theorem not_rejects (h : x.nextRequest = some r) : ¬ x.Rejects sort := by
  rintro ⟨x', hrun, hnone⟩
  simp only [step, h] at hrun
  cases hproc : x.engine.processClientRequest r with
  | error h =>
    rw [hproc] at hrun
    cases hrun
  | ok e =>
    rw [hproc] at hrun
    obtain rfl := Except.ok.inj hrun
    obtain ⟨rest, hout, -⟩ :=
      MEOrderBook.exists_outputsOf_add (x.engine.tickerOrderBook r.tickerId) r.newOrder
    refine hnone ((x.engine.tickerOrderBook r.tickerId).acceptance r.newOrder) (mem_responses.mpr ?_) rfl
    rw [MatchingEngine.outgoing_of_ok hproc, List.drop_left, hout]
    exact List.mem_cons_self

structure Sound (x : Pipeline) : Prop where
  keyed : Keyed x.engine
  forwards : x.server.Forwards

theorem Sound.step (hsort : FIFOSequencer.Sorts sort) (h : x.Sound) (hok : x.InRange e)
    (hrun : x.step sort e = .ok x') : x'.Sound := by
  cases e with
  | server e =>
    obtain ⟨v, hv, hx'⟩ := bind_eq_ok hrun
    rw [← Except.ok.inj hx']
    exact ⟨h.keyed, h.forwards.step hsort hv⟩
  | engine =>
    simp only [Pipeline.step] at hrun
    cases hn : x.nextRequest with
    | none =>
      rw [hn] at hrun
      exact Except.ok.inj hrun ▸ h
    | some r =>
      obtain ⟨ht, ho⟩ := hok r hn
      have hends := ends_processClientRequest h.keyed ht ho
      rw [hn] at hrun
      dsimp only at hrun
      cases hproc : x.engine.processClientRequest r with
      | error h =>
        rw [hproc] at hrun
        cases hrun
      | ok e =>
        rw [hproc] at hrun
        rw [← Except.ok.inj hrun]
        exact ⟨hends.of_ok hproc, h.forwards⟩

theorem Sound.indexSafe_iff (h : x.Sound) : x.IndexSafe sort e ↔ x.InRange e := by
  cases e with
  | server e =>
    cases e with
    | publish | response r => exact Iff.rfl
    | sendAndRecv p chunk rxTime result =>
      have hiff := OrderEntry.ends_sendAndRecv_iff x.server sort p chunk rxTime result
      have hsame : Ends (x.step sort (.server (.sendAndRecv p chunk rxTime result))) (fun _ ↦ True)
          (fun f ↦ ¬ f.Indexes) ↔ Ends (x.server.step sort (.sendAndRecv p chunk rxTime result))
            (fun _ ↦ True) fun f ↦ ¬ f.Indexes := by
        simp only [Pipeline.step]
        cases x.server.step sort (.sendAndRecv p chunk rxTime result) <;> exact Iff.rfl
      exact ⟨fun hsafe ↦ hiff.mp (hsame.mp hsafe.1), fun hok ↦ ⟨hsame.mpr (hiff.mpr hok),
        fun hchunk ↦ (hok hchunk).imp fun _ _ hin hno ↦ absurd hin hno⟩⟩
  | engine =>
    constructor
    · rintro ⟨-, hrejects⟩ r hr
      by_contra hno
      exact not_rejects hr (hrejects r hr fun hin ↦ hno hin.2)
    · intro hok
      refine ⟨?_, fun r hr hno ↦ absurd ⟨?_, hok r hr⟩ hno⟩
      · simp only [Pipeline.step]
        cases hn : x.nextRequest with
        | none => trivial
        | some r =>
          obtain ⟨ht, ho⟩ := hok r hn
          have hends := ends_processClientRequest h.keyed ht ho
          dsimp only
          cases hproc : x.engine.processClientRequest r with
          | ok e => trivial
          | error halt => exact hends.of_error hproc
      · exact h.forwards.2 r (List.mem_of_getElem? hr)

/-- Up to the first request with a field beyond a table no index is beyond one, and that request is where
it goes wrong: in every run that has met none, the next step is safe if and only if it meets none. -/
theorem index_safe_iff (hsort : FIFOSequencer.Sorts sort) (hg : Guarded (step sort) InRange start es)
    (hrun : es.foldlM (step sort) start = .ok x) (e : Event) : x.IndexSafe sort e ↔ x.InRange e := by
  have hstart : start.Sound := ⟨keyed_new, List.forall_mem_nil _, List.forall_mem_nil _⟩
  exact (hg.invariant (fun _ _ _ h hok hstep ↦ h.step hsort hok hstep) hstart hrun).indexSafe_iff

def request (r : MEClientRequest) : List UInt8 := Layout.omClientRequest.encode ⟨1, r⟩

def arrival (r : MEClientRequest) : List Event :=
  [.server (.sendAndRecv 1 (request r) 5 (.sent 0)), .server .publish]

def twoClients : List Event :=
  arrival ⟨.NEW, 3, 7, 1, .SELL, 100, 10⟩ ++
    [.engine,
     .server (.sendAndRecv 2 ((request ⟨.NEW, 255, 7, 1067007, .BUY, 100, 14⟩).take 20) 6 (.sent 0)),
     .server (.sendAndRecv 2 ((request ⟨.NEW, 255, 7, 1067007, .BUY, 100, 14⟩).drop 20) 7 (.sent 0)),
     .server .publish]

def sortRequests (l : List RecvTimeClientRequest) : List RecvTimeClientRequest :=
  l.insertionSort fun x y ↦ x.recvTime ≤ y.recvTime

theorem twoClients_inRange : Guarded (step sortRequests) InRange start twoClients := by decide +kernel

theorem twoClients_returns : Yields (twoClients.foldlM (step sortRequests) start)
    fun x ↦ x.nextRequest.isSome ∧ x.InRange .engine := by decide +kernel

theorem index_safe_two_clients : ∃ x, twoClients.foldlM (step sortRequests) start = .ok x ∧
    x.nextRequest.isSome ∧ x.IndexSafe sortRequests .engine := by
  obtain ⟨x, hx, hsome, hok⟩ := twoClients_returns.exists_ok
  have hsort : FIFOSequencer.Sorts sortRequests := fun batch ↦ sortedBy_insertionSort (.refl batch)
  exact ⟨x, hx, hsome, (index_safe_iff hsort twoClients_inRange hx .engine).mpr hok⟩

/-- The client id 256 on the way in, the ticker id 8 and the order id 1067008 in the engine. -/
theorem indices_beyond_tables :
    ¬ start.IndexSafe sortRequests
      (.server (.sendAndRecv 1 (request ⟨.NEW, 256, 0, 1, .BUY, 100, 10⟩) 5 (.sent 0))) ∧
    (∃ x, (arrival ⟨.NEW, 3, 8, 1, .BUY, 100, 10⟩).foldlM (step sortRequests) start = .ok x ∧
      ¬ x.IndexSafe sortRequests .engine) ∧
    ∃ x, (arrival ⟨.NEW, 3, 0, 1067008, .BUY, 100, 10⟩).foldlM (step sortRequests) start = .ok x ∧
      ¬ x.IndexSafe sortRequests .engine := by
  have hengine : ∀ r, Yields ((arrival r).foldlM (step sortRequests) start) (fun x ↦
      ¬ Ends (x.step sortRequests .engine) (fun _ ↦ True) fun f ↦ ¬ f.Indexes) →
      ∃ x, (arrival r).foldlM (step sortRequests) start = .ok x ∧
        ¬ x.IndexSafe sortRequests .engine := by
    intro r h
    obtain ⟨x, hx, hno⟩ := h.exists_ok
    exact ⟨x, hx, fun hsafe ↦ hno hsafe.1⟩
  refine ⟨fun hsafe ↦ ?_, hengine _ (by decide +kernel), hengine _ (by decide +kernel)⟩
  exact (show ¬ Ends (start.step sortRequests (.server (.sendAndRecv 1
    (request ⟨.NEW, 256, 0, 1, .BUY, 100, 10⟩) 5 (.sent 0)))) (fun _ ↦ True) (fun f ↦ ¬ f.Indexes) by
      decide +kernel) hsafe.1

end Pipeline

end LowLatency.Exchange
