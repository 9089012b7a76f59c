import LowLatency.Exchange.OrderEntry
import LowLatency.GuardedRun
import LowLatency.StableSort

namespace LowLatency.Exchange

open Common Function

namespace OrderEntry

/-- What the loop of `run` does: it serves a socket, publishes what has been received, or sends a
response. -/
inductive Event
  | sendAndRecv (p : Ptr) (chunk : List UInt8) (rxTime : Nanos) (result : SendResult)
  | publish
  | response (r : MEClientResponse)

def step (sort : List RecvTimeClientRequest → List RecvTimeClientRequest) (v : OrderEntry) :
    Event → Except Fault OrderEntry
  | .sendAndRecv p chunk rxTime result => do
    let (v, _) ← v.sendAndRecv p chunk rxTime result
    return v
  | .publish => return v.recvFinishedCallback sort
  | .response r => v.sendResponse r

def forwardedOf (v : OrderEntry) (c : ClientId) : List (Ptr × OMClientRequest) :=
  v.forwarded.filter (·.2.meClientRequest.clientId = c)

/-- The requests of the client are numbered from one on, and have come from its socket. -/
structure InSequence (c : ClientId) (v : OrderEntry) : Prop where
  exp : v.cidNextExpSeqNum c = ((v.forwardedOf c).length + 1) % 2 ^ 64
  numbers : (v.forwardedOf c).map (·.2.seqNum) =
    (List.range' 1 (v.forwardedOf c).length).map (· % 2 ^ 64)
  socket : ∀ f ∈ v.forwardedOf c, v.cidTcpSocket c = some f.1

variable {v v' : OrderEntry} {c : ClientId} {p : Ptr} {rxTime : Nanos}
  {sort : List RecvTimeClientRequest → List RecvTimeClientRequest}

theorem forwardedOf_forward {m : OMClientRequest} : (v.forward p rxTime m).forwardedOf c =
    v.forwardedOf c ++ if m.meClientRequest.clientId = c then [(p, m)] else [] := by
  simp [forwardedOf, forward, List.filter_cons]

theorem sendResponse_frame {r : MEClientResponse} (h : v.sendResponse r = .ok v') :
    v'.cidNextExpSeqNum = v.cidNextExpSeqNum ∧ v'.forwarded = v.forwarded ∧
      v'.fifoSequencer = v.fifoSequencer ∧ v'.cidTcpSocket = v.cidTcpSocket := by
  obtain ⟨server, hserver, h⟩ := bind_eq_ok h
  obtain ⟨_, -, h⟩ := bind_eq_ok h
  obtain ⟨_, -, h⟩ := bind_eq_ok h
  obtain ⟨_, -, h⟩ := bind_eq_ok h
  rw [← Except.ok.inj h]
  exact ⟨rfl, rfl, rfl, OrderServer.processResponse_cidTcpSocket hserver⟩

/-- What every request of a socket keeps, wherever the buffers stand, is kept by serving the socket. -/
theorem invariant_sendAndRecv {I : OrderEntry → Prop} {chunk : List UInt8} {result : SendResult}
    (hrequest : ∀ v m v', I v → onRequest p rxTime v m = .ok v' → I v')
    (hsocket : ∀ v s, I v → I (v.setSocket p s)) (h : I v)
    (hrun : v.step sort (.sendAndRecv p chunk rxTime result) = .ok v') : I v' := by
  obtain ⟨_, hsend, hv'⟩ := bind_eq_ok hrun
  obtain ⟨v₁, hreceive, hsend⟩ := bind_eq_ok hsend
  obtain ⟨_, -, hsend⟩ := bind_eq_ok hsend
  rw [← Except.ok.inj hv', ← Except.ok.inj hsend]
  apply hsocket
  by_cases hchunk : chunk = []
  · rw [receive, if_pos hchunk] at hreceive
    exact Except.ok.inj hreceive ▸ h
  · rw [receive_bind hchunk] at hreceive
    obtain ⟨v₂, hloop, hv₁⟩ := bind_eq_ok hreceive
    rw [← Except.ok.inj hv₁]
    exact hsocket _ _ (run_invariant hrequest (hsocket _ _ h) hloop)

namespace InSequence

theorem new (c : ClientId) : OrderEntry.new.InSequence c :=
  ⟨rfl, rfl, fun f hf ↦ by cases hf⟩

theorem congr (h : v.InSequence c) (hexp : v'.cidNextExpSeqNum = v.cidNextExpSeqNum)
    (hforwarded : v'.forwarded = v.forwarded)
    (hsocket : ∀ q, v.cidTcpSocket c = some q → v'.cidTcpSocket c = some q) : v'.InSequence c := by
  have hsame : v'.forwardedOf c = v.forwardedOf c := by
    rw [forwardedOf, hforwarded, forwardedOf]
  constructor
  · rw [hexp, hsame]
    exact h.exp
  · rw [hsame]
    exact h.numbers
  · rw [hsame]
    exact fun f hf ↦ hsocket _ (h.socket f hf)

theorem bind (h : v.InSequence c) (c' : ClientId) (p : Ptr) : (v.bind c' p).InSequence c := by
  obtain ⟨hexp, -, -, -, hforwarded⟩ := bind_frame v c' p
  exact h.congr hexp hforwarded fun _ ↦ bind_of_eq_some

theorem forward (h : v.InSequence c) {m : OMClientRequest}
    (hsocket : v.cidTcpSocket m.meClientRequest.clientId = some p)
    (hseq : m.seqNum = v.cidNextExpSeqNum m.meClientRequest.clientId) :
    (v.forward p rxTime m).InSequence c := by
  by_cases hc : m.meClientRequest.clientId = c
  · subst hc
    have hof : (v.forward p rxTime m).forwardedOf m.meClientRequest.clientId =
        v.forwardedOf m.meClientRequest.clientId ++ [(p, m)] := by
      rw [forwardedOf_forward, if_pos rfl]
    constructor
    · rw [forward_exp, update_self, hof, List.length_append, h.exp, Nat.mod_add_mod]
      rfl
    · rw [hof, List.map_append, h.numbers, List.length_append, List.length_singleton,
        List.range'_1_concat, List.map_append, List.map_singleton, List.map_singleton, hseq, h.exp,
        Nat.add_comm 1]
    · intro f hf
      rw [hof, List.mem_append, List.mem_singleton] at hf
      rcases hf with hf | rfl
      · exact h.socket f hf
      · exact hsocket
  · have hof : (v.forward p rxTime m).forwardedOf c = v.forwardedOf c := by
      rw [forwardedOf_forward, if_neg hc, List.append_nil]
    constructor
    · rw [forward_exp, update_of_ne (Ne.symm hc), hof]
      exact h.exp
    · rw [hof]
      exact h.numbers
    · rw [hof]
      exact h.socket

theorem onRequest (h : v.InSequence c) {m : OMClientRequest}
    (hrun : OrderEntry.onRequest p rxTime v m = .ok v') : v'.InSequence c := by
  obtain ⟨hexp, -⟩ := bind_frame v m.meClientRequest.clientId p
  rcases onRequest_cases hrun with rfl | ⟨hsocket, hseq, rfl⟩
  · exact h.bind _ p
  · apply (h.bind _ p).forward hsocket
    rw [hexp]
    exact hseq

theorem foldlM (h : v.InSequence c) {ms : List OMClientRequest}
    (hrun : ms.foldlM (OrderEntry.onRequest p rxTime) v = .ok v') : v'.InSequence c :=
  run_invariant (fun _ _ _ h hrun ↦ h.onRequest hrun) h hrun

theorem setSocket (h : v.InSequence c) (s : TCPSocket) : (v.setSocket p s).InSequence c :=
  h.congr rfl rfl fun _ ↦ id

theorem step (h : v.InSequence c) {e : Event} (hrun : v.step sort e = .ok v') : v'.InSequence c := by
  cases e with
  | sendAndRecv p chunk rxTime result =>
    exact invariant_sendAndRecv (fun _ _ _ h ↦ h.onRequest) (fun _ s h ↦ h.setSocket s) h hrun
  | publish =>
    rw [← Except.ok.inj hrun]
    exact h.congr rfl rfl fun _ ↦ id
  | response r =>
    obtain ⟨hexp, hforwarded, -, hsocket⟩ := sendResponse_frame hrun
    exact h.congr hexp hforwarded fun q hq ↦ (congrFun hsocket c).trans hq

end InSequence

/-- At every point of every run, also inside the loop over what a socket has just received, the
requests of a client that have been forwarded are numbered 1, 2, 3, ... by a counter of 64 bits, and
have all been received on the same socket. -/
theorem forwarded_in_sequence {es : List Event} (hrun : es.foldlM (step sort) new = .ok v)
    {chunk : List UInt8} {k : ℕ}
    (hloop : ((Layout.omClientRequest.messages ((v.sockets p).recvBuffer ++ chunk)).take k).foldlM
      (onRequest p rxTime) (v.setSocket p ((v.sockets p).receive chunk)) = .ok v')
    (c : ClientId) :
    (v'.forwardedOf c).map (·.2.seqNum) =
        (List.range' 1 (v'.forwardedOf c).length).map (· % 2 ^ 64) ∧
      ∃ q, ∀ f ∈ v'.forwardedOf c, f.1 = q := by
  have hv : v.InSequence c := run_invariant (fun _ _ _ h hstep ↦ h.step hstep) (.new c) hrun
  have hv' := (hv.setSocket _).foldlM hloop
  refine ⟨hv'.numbers, (v'.cidTcpSocket c).getD 0, fun f hf ↦ ?_⟩
  rw [hv'.socket f hf, Option.getD_some]

def order (seqNum : ℕ) : List UInt8 :=
  Layout.omClientRequest.encode ⟨seqNum, ⟨.NEW, 3, 0, seqNum, .BUY, 100, 10⟩⟩

theorem forwarded_in_sequence_of_rivals : ∃ v v',
    [Event.sendAndRecv 1 (order 1) 5 (.sent 0), .sendAndRecv 2 (order 2) 6 (.sent 0),
      .publish].foldlM (step id) new = .ok v ∧
    ((Layout.omClientRequest.messages ((v.sockets 1).recvBuffer ++ (order 2 ++ order 2 ++
      order 3))).take 3).foldlM (onRequest 1 7) (v.setSocket 1 ((v.sockets 1).receive
        (order 2 ++ order 2 ++ order 3))) = .ok v' ∧
    (v'.forwardedOf 3).map (·.2.seqNum) = [1, 2, 3] ∧ ∃ q, ∀ f ∈ v'.forwardedOf 3, f.1 = q := by
  obtain ⟨v, hrun, hyields⟩ := Yields.exists_ok (show Yields ([Event.sendAndRecv 1 (order 1) 5
      (.sent 0), .sendAndRecv 2 (order 2) 6 (.sent 0), .publish].foldlM (step id) new) fun v ↦
    Yields (((Layout.omClientRequest.messages ((v.sockets 1).recvBuffer ++ (order 2 ++ order 2 ++
      order 3))).take 3).foldlM (onRequest 1 7) (v.setSocket 1 ((v.sockets 1).receive
        (order 2 ++ order 2 ++ order 3)))) fun v' ↦ (v'.forwardedOf 3).length = 3 by decide +kernel)
  obtain ⟨v', hloop, hlen⟩ := hyields.exists_ok
  obtain ⟨hnumbers, hsocket⟩ := forwarded_in_sequence hrun hloop 3
  rw [hlen] at hnumbers
  exact ⟨v, v', hrun, hloop, hnumbers, hsocket⟩

end OrderEntry

namespace FIFOSequencer

open RecvTimeClientRequest

/-- What `std::sort` promises of the order of the requests. -/
def Sorts (sort : List RecvTimeClientRequest → List RecvTimeClientRequest) : Prop :=
  ∀ batch, SortedBy recvTime batch (sort batch)

def sortInto (batch out l : List RecvTimeClientRequest) : List RecvTimeClientRequest :=
  if l = batch then out else l.insertionSort fun x y ↦ x.recvTime ≤ y.recvTime

def addClientRequests (f : FIFOSequencer) (batch : List RecvTimeClientRequest) :
    Except Fault FIFOSequencer :=
  batch.foldlM (fun f r ↦ f.addClientRequest r.recvTime r.request) f

variable {f f' : FIFOSequencer} {batch out out' : List RecvTimeClientRequest}

theorem sorts_sortInto (h : SortedBy recvTime batch out) : Sorts (sortInto batch out) := by
  intro l
  unfold sortInto
  split_ifs with hl
  · exact hl ▸ h
  · exact sortedBy_insertionSort (.refl l)

theorem eq_of_addClientRequests (h : f.addClientRequests batch = .ok f') :
    f' = { f with pendingClientRequests := f.pendingClientRequests ++ batch } := by
  induction batch generalizing f with
  | nil => rw [← Except.ok.inj h, List.append_nil]
  | cons r batch ih =>
    rw [addClientRequests, List.foldlM_cons] at h
    obtain ⟨f₁, hadd, h⟩ := bind_eq_ok h
    rw [ih h, eq_of_addClientRequest hadd, List.append_assoc]
    rfl

theorem incomingRequests_publish {sort : List RecvTimeClientRequest → List RecvTimeClientRequest}
    (hempty : f.pendingClientRequests = []) (hsort : Sorts sort)
    (hadd : f.addClientRequests batch = .ok f') :
    (f'.sequenceAndPublish sort).incomingRequests =
      f.incomingRequests ++ (sort batch).map request := by
  rw [eq_of_addClientRequests hadd, hempty, List.nil_append, sequenceAndPublish]
  split_ifs with hnil
  · obtain rfl : batch = [] := hnil
    rw [(hsort []).perm.eq_nil, List.map_nil, List.append_nil]
  · rfl

theorem eq_of_maps_eq (htime : out.map recvTime = out'.map recvTime)
    (hrequest : out.map request = out'.map request) : out = out' := by
  induction out generalizing out' with
  | nil => exact (List.map_eq_nil_iff.mp htime.symm).symm
  | cons r out ih =>
    cases out' with
    | nil => cases htime
    | cons r' out' =>
      obtain ⟨ht, htime⟩ := List.cons.inj htime
      obtain ⟨hr, hrequest⟩ := List.cons.inj hrequest
      rw [ih htime hrequest]
      congr 1
      cases r
      cases r'
      exact congr (congrArg _ ht) hr

/-- Whatever the sort does with ties, the requests are published in the order of their arrival: that
holds exactly of the batches in which no two different requests have the same receive time. -/
theorem publish_in_order_iff (hempty : f.pendingClientRequests = [])
    (hadd : f.addClientRequests batch = .ok f') :
    (∀ sort, Sorts sort → ∃ out, (f'.sequenceAndPublish sort).incomingRequests =
        f.incomingRequests ++ out.map request ∧
      SortedBy recvTime batch out ∧ KeepsTies recvTime batch out) ↔
    ∀ x ∈ batch, ∀ y ∈ batch, x.recvTime = y.recvTime → x = y := by
  rw [← forall_keepsTies_iff]
  constructor
  · intro h out hout
    obtain ⟨out', hrun, hsorted, hties⟩ := h _ (sorts_sortInto hout)
    rw [incomingRequests_publish hempty (sorts_sortInto hout) hadd, sortInto, if_pos rfl] at hrun
    have hsame := eq_of_maps_eq (hout.keys_eq hsorted) (List.append_cancel_left hrun)
    exact hsame ▸ hties
  · intro h sort hsort
    exact ⟨sort batch, incomingRequests_publish hempty hsort hadd, hsort batch, h _ (hsort batch)⟩

def twoReads : List RecvTimeClientRequest :=
  [⟨9, ⟨.NEW, 3, 0, 1, .BUY, 100, 10⟩⟩, ⟨5, ⟨.NEW, 4, 0, 1, .BUY, 101, 10⟩⟩]

theorem publish_in_order_two : ∃ out,
    ((⟨twoReads, []⟩ : FIFOSequencer).sequenceAndPublish
      (sortInto twoReads twoReads.reverse)).incomingRequests = [] ++ out.map request ∧
    SortedBy recvTime twoReads out ∧ KeepsTies recvTime twoReads out :=
  (publish_in_order_iff (f := ⟨[], []⟩) rfl rfl).mpr (by decide) _
    (sorts_sortInto ⟨List.reverse_perm _, by decide⟩)

def newAndCancel : List RecvTimeClientRequest :=
  [⟨5, ⟨.NEW, 3, 0, 1, .BUY, 100, 10⟩⟩, ⟨5, ⟨.CANCEL, 3, 0, 1, .BUY, 100, 10⟩⟩]

/-- A new order and its cancellation reach the sequencer in one segment, and may leave it the other way
round. -/
theorem cancel_before_new : ∃ v, OrderEntry.new.receive 1 (Layout.omClientRequest.stream
      (numberFrom OMClientRequest.mk 1 (newAndCancel.map request))) 5 = .ok v ∧
    v.fifoSequencer.pendingClientRequests = newAndCancel ∧
    ∃ sort, Sorts sort ∧ (v.recvFinishedCallback sort).fifoSequencer.incomingRequests =
        newAndCancel.reverse.map request ∧
      ¬ ∃ out, (v.recvFinishedCallback sort).fifoSequencer.incomingRequests = out.map request ∧
        SortedBy recvTime newAndCancel out ∧ KeepsTies recvTime newAndCancel out := by
  obtain ⟨v, hrun, hbatch, hsort⟩ := Yields.exists_ok (show Yields (OrderEntry.new.receive 1
      (Layout.omClientRequest.stream
        (numberFrom OMClientRequest.mk 1 (newAndCancel.map request))) 5) fun v ↦
    v.fifoSequencer.pendingClientRequests = newAndCancel ∧
      (v.recvFinishedCallback (sortInto newAndCancel
        newAndCancel.reverse)).fifoSequencer.incomingRequests = newAndCancel.reverse.map request by
    decide +kernel)
  refine ⟨v, hrun, hbatch, _, sorts_sortInto ⟨List.reverse_perm _, by decide⟩, hsort, ?_⟩
  intro ⟨out, hout, hsorted, hties⟩
  have hfive : ∀ r ∈ newAndCancel, decide (r.recvTime = 5) = true := by decide
  have hkept := hties 5
  rw [List.filter_eq_self.mpr fun r hr ↦ hfive r (hsorted.perm.subset hr),
    List.filter_eq_self.mpr hfive] at hkept
  rw [hsort, hkept] at hout
  revert hout
  decide

end FIFOSequencer

namespace OrderEntry

open FIFOSequencer

variable {v v' : OrderEntry} {p : Ptr} {rxTime : Nanos} {e : Event} {es : List Event}
  {sort : List RecvTimeClientRequest → List RecvTimeClientRequest}

/-- What the sequencer has published is what was forwarded first, and what has been forwarded since is
pending, in the order in which it was forwarded. -/
def InSequencer (v : OrderEntry) : Prop :=
  ∃ first, v.fifoSequencer.incomingRequests.Perm first ∧
    first ++ v.fifoSequencer.pendingClientRequests.map RecvTimeClientRequest.request =
      v.forwarded.map (·.2.meClientRequest)

namespace InSequencer

theorem congr (h : v.InSequencer) (hfifo : v'.fifoSequencer = v.fifoSequencer)
    (hforwarded : v'.forwarded = v.forwarded) : v'.InSequencer := by
  rw [InSequencer, hfifo, hforwarded]
  exact h

theorem onRequest (h : v.InSequencer) {m : OMClientRequest}
    (hrun : OrderEntry.onRequest p rxTime v m = .ok v') : v'.InSequencer := by
  obtain ⟨-, -, -, hfifo, hforwarded⟩ := bind_frame v m.meClientRequest.clientId p
  obtain ⟨first, hfirst, hrest⟩ := h.congr hfifo hforwarded
  rcases onRequest_cases hrun with rfl | ⟨-, -, rfl⟩
  · exact ⟨first, hfirst, hrest⟩
  · refine ⟨first, hfirst, ?_⟩
    simp only [OrderEntry.forward, List.map_append, ← List.append_assoc, hrest]
    rfl

theorem publish (h : v.InSequencer) (hsort : Sorts sort) : (v.recvFinishedCallback sort).InSequencer := by
  obtain ⟨first, hfirst, hrest⟩ := h
  rw [recvFinishedCallback, sequenceAndPublish]
  split_ifs with hnone
  · exact ⟨first, hfirst, hrest⟩
  · have hbatch := (hsort v.fifoSequencer.pendingClientRequests).perm.map RecvTimeClientRequest.request
    exact ⟨_, hfirst.append hbatch, (List.append_nil _).trans hrest⟩

theorem step (h : v.InSequencer) (hsort : Sorts sort) (hrun : v.step sort e = .ok v') : v'.InSequencer := by
  cases e with
  | sendAndRecv p chunk rxTime result =>
    exact invariant_sendAndRecv (fun _ _ _ h ↦ h.onRequest) (fun _ _ h ↦ h) h hrun
  | publish =>
    rw [← Except.ok.inj hrun]
    exact h.publish hsort
  | response r =>
    obtain ⟨-, hforwarded, hfifo, -⟩ := sendResponse_frame hrun
    exact h.congr hfifo hforwarded

end InSequencer

theorem inSequencer_of_run (hsort : Sorts sort) (hrun : es.foldlM (step sort) new = .ok v) : v.InSequencer :=
  run_invariant (fun _ _ _ h hstep ↦ h.step hsort hstep) ⟨[], .refl _, rfl⟩ hrun

/-- Every request that has been forwarded is published or pending, and nothing else is. -/
theorem perm_forwarded (hsort : Sorts sort) (hrun : es.foldlM (step sort) new = .ok v) :
    (v.fifoSequencer.incomingRequests ++
      v.fifoSequencer.pendingClientRequests.map RecvTimeClientRequest.request).Perm
        (v.forwarded.map (·.2.meClientRequest)) := by
  obtain ⟨first, hfirst, hrest⟩ := inSequencer_of_run hsort hrun
  rw [← hrest]
  exact hfirst.append_right _

end OrderEntry

end LowLatency.Exchange
