import LowLatency.Common.Types
import LowLatency.GuardedRun

namespace LowLatency.Common

structure EpollEvent where
  socket : Ptr
  epollin : Bool
  epollout : Bool
  epollerr : Bool
  epollhup : Bool
  deriving DecidableEq, Repr

def listenerSocket : Ptr := 0

namespace EpollEvent

/-- The event is a connection to accept; whatever else it reports is not looked at. -/
def Connects (e : EpollEvent) : Prop := e.epollin ∧ e.socket = listenerSocket

instance : DecidablePred Connects := fun _ ↦ inferInstanceAs (Decidable (_ ∧ _))

def Disconnects (e : EpollEvent) : Prop := ¬ e.Connects ∧ (e.epollerr ∨ e.epollhup)

instance : DecidablePred Disconnects := fun _ ↦ inferInstanceAs (Decidable (_ ∧ _))

end EpollEvent

/-- What the kernel answers to one call of `poll`: the events, and how many connections there are for
`accept`. -/
structure Polled where
  events : List EpollEvent
  accepted : ℕ
  deriving DecidableEq, Repr

/-- The vectors of sockets, those that epoll watches, and the address of the next socket; a socket is
never deleted, and no address is used again. -/
structure TCPServer where
  sockets : List Ptr
  receiveSockets : List Ptr
  sendSockets : List Ptr
  disconnectedSockets : List Ptr
  watched : List Ptr
  nextSocket : Ptr
  deriving DecidableEq, Repr

namespace TCPServer

def maxEvents : ℕ := 1024

/-- `push_back`, unless `find` has found it. -/
def pushNew (socket : Ptr) (sockets : List Ptr) : List Ptr :=
  if socket ∈ sockets then sockets else sockets ++ [socket]

def new : TCPServer where
  sockets := []
  receiveSockets := []
  sendSockets := []
  disconnectedSockets := []
  watched := [listenerSocket]
  nextSocket := listenerSocket + 1

/-- The socket stays in `m_disconnected_sockets`. -/
def del (v : TCPServer) (socket : Ptr) : TCPServer :=
  { v with
    watched := v.watched.filter (· ≠ socket)
    sockets := v.sockets.filter (· ≠ socket)
    receiveSockets := v.receiveSockets.filter (· ≠ socket)
    sendSockets := v.sendSockets.filter (· ≠ socket) }

/-- The body of the loop of `poll` over the events. -/
def onEvent (v : TCPServer) (e : EpollEvent) : TCPServer :=
  if e.Connects then v
  else { v with
    receiveSockets := if e.epollin then pushNew e.socket v.receiveSockets else v.receiveSockets
    sendSockets := if e.epollout then pushNew e.socket v.sendSockets else v.sendSockets
    disconnectedSockets :=
      if e.epollerr ∨ e.epollhup then pushNew e.socket v.disconnectedSockets
      else v.disconnectedSockets }

/-- The body of the loop of `poll` over the new connections. -/
def accept (v : TCPServer) : TCPServer :=
  { v with
    nextSocket := v.nextSocket + 1
    watched := v.watched ++ [v.nextSocket]
    sockets := pushNew v.nextSocket v.sockets
    receiveSockets := pushNew v.nextSocket v.receiveSockets }

def acceptAll : ℕ → TCPServer → TCPServer
  | 0, v => v
  | n + 1, v => acceptAll n v.accept

def delDisconnected (v : TCPServer) : TCPServer := v.disconnectedSockets.foldl del v

/-- The array has room for so many events, and `epoll_wait` is told of the number of sockets. -/
def poll (v : TCPServer) (x : Polled) : Except Fault TCPServer :=
  let v := v.delDisconnected
  if x.events.length ≤ maxEvents then
    let v := x.events.foldl onEvent v
    .ok (if ∃ e ∈ x.events, e.Connects then acceptAll x.accepted v else v)
  else .error .outOfBounds

/-- What the kernel reports: at most as many events as it was asked for, each of another socket that is
watched, and nothing of sending, which is not asked for. -/
def Reports (v : TCPServer) (x : Polled) : Prop :=
  x.events.length ≤ 1 + v.sockets.length ∧ (x.events.map (·.socket)).Nodup ∧
    ∀ e ∈ x.events, e.socket ∈ v.delDisconnected.watched ∧ e.epollout = false

instance (v : TCPServer) : DecidablePred v.Reports := fun _ ↦ inferInstanceAs (Decidable (_ ∧ _ ∧ _))

def reported (xs : List Polled) : List Ptr :=
  xs.flatMap fun x ↦ (x.events.filter (·.Disconnects)).map (·.socket)

def accepted (xs : List Polled) : ℕ :=
  (xs.map fun x ↦ if ∃ e ∈ x.events, e.Connects then x.accepted else 0).sum

variable {v v' : TCPServer} {x : Polled} {xs : List Polled} {e : EpollEvent}

theorem pushNew_of_mem {socket : Ptr} {sockets : List Ptr} (h : socket ∈ sockets) :
    pushNew socket sockets = sockets := if_pos h

theorem pushNew_of_notMem {socket : Ptr} {sockets : List Ptr} (h : socket ∉ sockets) :
    pushNew socket sockets = sockets ++ [socket] := if_neg h

theorem mem_pushNew {socket p : Ptr} {sockets : List Ptr} :
    p ∈ pushNew socket sockets ↔ p ∈ sockets ∨ p = socket := by
  unfold pushNew
  split_ifs with h
  · exact ⟨.inl, fun hp ↦ hp.elim id fun hp ↦ hp ▸ h⟩
  · simp

theorem delDisconnected_eq (v : TCPServer) : v.delDisconnected = { v with
    watched := v.watched.filter (· ∉ v.disconnectedSockets)
    sockets := v.sockets.filter (· ∉ v.disconnectedSockets)
    receiveSockets := v.receiveSockets.filter (· ∉ v.disconnectedSockets)
    sendSockets := v.sendSockets.filter (· ∉ v.disconnectedSockets) } := by
  have hdel : ∀ (ps : List Ptr) (v : TCPServer), ps.foldl del v = { v with
      watched := v.watched.filter (· ∉ ps)
      sockets := v.sockets.filter (· ∉ ps)
      receiveSockets := v.receiveSockets.filter (· ∉ ps)
      sendSockets := v.sendSockets.filter (· ∉ ps) } := by
    intro ps
    induction ps with
    | nil => simp
    | cons p ps ih =>
      intro v
      rw [List.foldl_cons, ih]
      simp [del, List.filter_filter, Bool.and_comm]
  exact hdel _ v

theorem foldl_onEvent (v : TCPServer) (es : List EpollEvent)
    (h : ∀ e ∈ es, e.epollout = false ∧ (¬ e.Connects → e.epollin → e.socket ∈ v.receiveSockets)) :
    ∃ disconnected, es.foldl onEvent v = { v with disconnectedSockets := disconnected } ∧
      ∀ p, p ∈ disconnected ↔
        p ∈ v.disconnectedSockets ∨ p ∈ (es.filter (·.Disconnects)).map (·.socket) := by
  induction es generalizing v with
  | nil => exact ⟨v.disconnectedSockets, rfl, by simp⟩
  | cons e es ih =>
    obtain ⟨hout, hknown⟩ := h e List.mem_cons_self
    let disconnected := if e.Disconnects then pushNew e.socket v.disconnectedSockets
      else v.disconnectedSockets
    have hstep : v.onEvent e = { v with disconnectedSockets := disconnected } := by
      by_cases hconnects : e.Connects
      · simp [onEvent, disconnected, EpollEvent.Disconnects, hconnects]
      · have hreceive : (if e.epollin then pushNew e.socket v.receiveSockets else v.receiveSockets) =
            v.receiveSockets := by
          split_ifs with hin
          · exact pushNew_of_mem (hknown hconnects hin)
          · rfl
        simp [onEvent, disconnected, EpollEvent.Disconnects, hconnects, hout, hreceive]
    rw [List.foldl_cons, hstep]
    obtain ⟨disconnected', hrun, hmem⟩ := ih (v := { v with disconnectedSockets := disconnected })
      fun e' he' ↦ h e' (List.mem_cons_of_mem e he')
    refine ⟨disconnected', hrun, fun p ↦ (hmem p).trans ?_⟩
    by_cases hdisconnects : e.Disconnects
    · simp [disconnected, hdisconnects, mem_pushNew, or_assoc]
    · simp [disconnected, hdisconnects]

theorem acceptAll_eq {n : ℕ} (hsockets : ∀ p ∈ v.sockets, p < v.nextSocket)
    (hreceive : v.receiveSockets = v.sockets) : acceptAll n v = { v with
      nextSocket := v.nextSocket + n
      watched := v.watched ++ List.range' v.nextSocket n
      sockets := v.sockets ++ List.range' v.nextSocket n
      receiveSockets := v.receiveSockets ++ List.range' v.nextSocket n } := by
  induction n generalizing v with
  | zero => simp [acceptAll]
  | succ n ih =>
    have hnew : v.nextSocket ∉ v.sockets := fun h ↦ (hsockets _ h).false
    have haccept : v.accept = { v with
        nextSocket := v.nextSocket + 1
        watched := v.watched ++ [v.nextSocket]
        sockets := v.sockets ++ [v.nextSocket]
        receiveSockets := v.sockets ++ [v.nextSocket] } := by
      rw [accept, hreceive, pushNew_of_notMem hnew]
    rw [acceptAll, haccept, ih ?_ rfl]
    · simp [hreceive, List.range'_succ, Nat.add_comm 1 n, Nat.add_assoc]
    · intro p hp
      rcases List.mem_append.mp hp with hp | hp
      · exact (hsockets p hp).trans (Nat.lt_succ_self _)
      · rw [List.mem_singleton.mp hp]
        exact Nat.lt_succ_self _

theorem acceptAll_disconnectedSockets (n : ℕ) (v : TCPServer) :
    (acceptAll n v).disconnectedSockets = v.disconnectedSockets := by
  induction n generalizing v with
  | zero => rfl
  | succ n ih => exact ih v.accept

structure Stands (gone : List Ptr) (n : ℕ) (v : TCPServer) : Prop where
  next : v.nextSocket = 1 + n
  sockets : v.sockets = (List.range' 1 n).filter (· ∉ gone)
  receive : v.receiveSockets = v.sockets
  send : v.sendSockets = []
  watched : v.watched = (List.range (1 + n)).filter (· ∉ gone)

namespace Stands

variable {gone gone' : List Ptr} {n : ℕ}

theorem mem_sockets_iff (h : Stands gone n v) {p : Ptr} :
    p ∈ v.sockets ↔ p ∈ v.watched ∧ p ≠ listenerSocket := by
  rw [h.sockets, h.watched]
  have hpos : 1 ≤ p ↔ p ≠ listenerSocket := Nat.one_le_iff_ne_zero
  simp only [List.mem_filter, List.mem_range'_1, List.mem_range, hpos]
  tauto

theorem lt_of_mem_watched (h : Stands gone n v) {p : Ptr} (hp : p ∈ v.watched) : p < 1 + n := by
  rw [h.watched] at hp
  exact List.mem_range.mp (List.mem_of_mem_filter hp)

theorem delDisconnected (h : Stands gone n v)
    (hgone' : ∀ p, p ∈ gone' ↔ p ∈ v.disconnectedSockets) (hle : ∀ p ∈ gone, p ∈ gone') :
    Stands gone' n v.delDisconnected := by
  have hfilter : ∀ ps : List Ptr, (ps.filter (· ∉ gone)).filter (· ∉ v.disconnectedSockets) =
      ps.filter (· ∉ gone') := by
    intro ps
    rw [List.filter_filter]
    refine List.filter_congr fun p _ ↦ ?_
    have hiff : (p ∉ v.disconnectedSockets ∧ p ∉ gone) ↔ p ∉ gone' := by
      rw [← hgone']
      exact ⟨And.left, fun hp ↦ ⟨hp, fun hg ↦ hp (hle p hg)⟩⟩
    rw [← Bool.decide_and]
    exact decide_eq_decide.mpr hiff
  rw [delDisconnected_eq]
  exact ⟨h.next, by rw [← hfilter, ← h.sockets], by rw [h.receive], by rw [h.send, List.filter_nil],
    by rw [← hfilter, ← h.watched]⟩

theorem acceptAll (h : Stands gone n v) (hknown : ∀ p ∈ gone, p < 1 + n) (k : ℕ) :
    Stands gone (n + k) (acceptAll k v) := by
  have hbelow : ∀ p ∈ v.sockets, p < v.nextSocket := by
    intro p hp
    rw [h.next]
    exact h.lt_of_mem_watched (h.mem_sockets_iff.mp hp).1
  have hnew : (List.range' (1 + n) k).filter (· ∉ gone) = List.range' (1 + n) k := by
    refine List.filter_eq_self.mpr fun p hp ↦ ?_
    exact decide_eq_true fun hg ↦ absurd (hknown p hg) (List.mem_range'_1.mp hp).1.not_gt
  have hsockets : (List.range' 1 (n + k)).filter (· ∉ gone) =
      (List.range' 1 n).filter (· ∉ gone) ++ List.range' (1 + n) k := by
    rw [← List.range'_append_1, List.filter_append, hnew]
  have hwatched : (List.range (1 + (n + k))).filter (· ∉ gone) =
      (List.range (1 + n)).filter (· ∉ gone) ++ List.range' (1 + n) k := by
    have hsplit := List.range'_append_1 (s := 0) (m := 1 + n) (n := k)
    rw [Nat.zero_add] at hsplit
    rw [← Nat.add_assoc, List.range_eq_range', List.range_eq_range', ← hsplit, List.filter_append, hnew]
  rw [acceptAll_eq hbelow h.receive]
  constructor
  · rw [h.next, Nat.add_assoc]
  · rw [hsockets, h.sockets, h.next]
  · rw [h.receive]
  · exact h.send
  · rw [hwatched, h.watched, h.next]

end Stands

/-- Where a server stands after some calls of `poll`: what was reported in the last one is still
there. -/
structure After (xs : List Polled) (v : TCPServer) : Prop where
  stands : Stands (reported xs.dropLast) (accepted xs) v
  disconnected : ∀ p, p ∈ v.disconnectedSockets ↔ p ∈ reported xs
  known : ∀ p ∈ reported xs, p < 1 + accepted xs

theorem after_new : After [] new :=
  ⟨⟨rfl, rfl, rfl, rfl, rfl⟩, fun _ ↦ .rfl, nofun⟩

theorem reported_dropLast (xs : List Polled) : ∀ p ∈ reported xs.dropLast, p ∈ reported xs := by
  intro p hp
  obtain ⟨x, hx, hp⟩ := List.mem_flatMap.mp hp
  exact List.mem_flatMap.mpr ⟨x, List.dropLast_subset xs hx, hp⟩

theorem After.poll (h : After xs v) (hx : v.Reports x) (hrun : v.poll x = .ok v') :
    After (xs ++ [x]) v' := by
  obtain ⟨-, -, hwatched⟩ := hx
  have h₁ := h.stands.delDisconnected (fun p ↦ (h.disconnected p).symm) (reported_dropLast xs)
  obtain ⟨disconnected, hevents, hmem⟩ := foldl_onEvent v.delDisconnected x.events
    fun e he ↦ ⟨(hwatched e he).2, fun hno hin ↦ by
      rw [h₁.receive]
      exact h₁.mem_sockets_iff.mpr ⟨(hwatched e he).1, fun hlistener ↦ hno ⟨hin, hlistener⟩⟩⟩
  have h₂ : Stands (reported xs) (accepted xs)
      { v.delDisconnected with disconnectedSockets := disconnected } :=
    ⟨h₁.next, h₁.sockets, h₁.receive, h₁.send, h₁.watched⟩
  set k := if ∃ e ∈ x.events, e.Connects then x.accepted else 0 with hk
  have hreported : reported (xs ++ [x]) =
      reported xs ++ (x.events.filter (·.Disconnects)).map (·.socket) := by
    simp [reported]
  have haccepted : accepted (xs ++ [x]) = accepted xs + k := by simp [accepted, hk]
  have hv' : v' = acceptAll k { v.delDisconnected with disconnectedSockets := disconnected } := by
    unfold TCPServer.poll at hrun
    dsimp only at hrun
    rw [hevents] at hrun
    split_ifs at hrun with _ hconnects
    · rw [hk, if_pos hconnects]
      exact (Except.ok.inj hrun).symm
    · rw [hk, if_neg hconnects]
      exact (Except.ok.inj hrun).symm
  have h₃ := h₂.acceptAll h.known k
  rw [← hv', ← haccepted] at h₃
  have hdisconnected : v'.disconnectedSockets = disconnected := by
    rw [hv', acceptAll_disconnectedSockets]
  refine ⟨by rw [List.dropLast_concat]; exact h₃, fun p ↦ ?_, fun p hp ↦ ?_⟩
  · rw [hdisconnected, hmem, hreported, List.mem_append, delDisconnected_eq, h.disconnected]
  · rw [haccepted, ← Nat.add_assoc]
    rw [hreported, List.mem_append] at hp
    rcases hp with hp | hp
    · exact (h.known p hp).trans_le (Nat.le_add_right _ k)
    · obtain ⟨e, he, rfl⟩ := List.mem_map.mp hp
      have hlt := h₁.lt_of_mem_watched (hwatched e (List.mem_of_mem_filter he)).1
      exact hlt.trans_le (Nat.le_add_right _ k)

/-- Over any run of `poll` the server serves the sockets it has accepted, in that order, but for those
of which an error was reported before the last call; it never sends on a socket of its own accord. -/
theorem sockets_of_polls (hreports : Guarded poll Reports new xs) (hrun : xs.foldlM poll new = .ok v) :
    v.sockets = (List.range' 1 (accepted xs)).filter (· ∉ reported xs.dropLast) ∧
      v.receiveSockets = v.sockets ∧ v.sendSockets = [] ∧
      ∀ p, p ∈ v.disconnectedSockets ↔ p ∈ reported xs := by
  have h := hreports.history after_new (fun _ _ _ _ hv hx hs ↦ After.poll hv hx hs) hrun
  exact ⟨h.stands.sockets, h.stands.receive, h.stands.send, h.disconnected⟩

def hungUp : List Polled :=
  [⟨[⟨listenerSocket, true, false, false, false⟩], 2⟩,
    ⟨[⟨2, true, false, false, false⟩, ⟨1, true, false, false, true⟩], 0⟩,
    ⟨[⟨listenerSocket, true, false, false, false⟩], 1⟩]

theorem sockets_of_polls_hung_up : ∃ v, hungUp.foldlM poll new = .ok v ∧ v.sockets = [2, 3] := by
  obtain ⟨v, hrun, -⟩ : ∃ v, hungUp.foldlM poll new = .ok v ∧ True := Yields.exists_ok (by decide)
  exact ⟨v, hrun, (sockets_of_polls (by decide) hrun).1.trans (by decide)⟩

/-- `epoll_wait` stays within the array, whatever there is to report, as long as no more sockets are
watched than the array has elements. -/
theorem poll_in_bounds_iff (hreports : Guarded poll Reports new xs) (hrun : xs.foldlM poll new = .ok v) :
    (∀ x, v.Reports x → ∃ v', v.poll x = .ok v') ↔ v.delDisconnected.watched.length ≤ maxEvents := by
  have h := hreports.history after_new (fun _ _ _ _ hv hx hs ↦ After.poll hv hx hs) hrun
  have h₁ := h.stands.delDisconnected (fun p ↦ (h.disconnected p).symm) (reported_dropLast xs)
  have hnodup : v.delDisconnected.watched.Nodup := by
    rw [h₁.watched]
    exact List.nodup_range.filter _
  have hasked : v.delDisconnected.watched.length ≤ 1 + v.sockets.length := by
    have hsub : v.delDisconnected.watched ⊆ listenerSocket :: v.sockets := by
      intro p hp
      by_cases hlistener : p = listenerSocket
      · exact List.mem_cons.mpr (.inl hlistener)
      · have hmem := h₁.mem_sockets_iff.mpr ⟨hp, hlistener⟩
        rw [delDisconnected_eq] at hmem
        exact List.mem_cons_of_mem _ (List.mem_of_mem_filter hmem)
    rw [Nat.add_comm]
    exact (hnodup.subperm hsub).length_le
  constructor
  · intro hall
    let x : Polled := ⟨v.delDisconnected.watched.map (⟨·, true, false, false, false⟩), 0⟩
    have hsockets : x.events.map (·.socket) = v.delDisconnected.watched := by
      rw [List.map_map]
      exact List.map_id _
    obtain ⟨v', hpoll⟩ := hall x ⟨by simpa [x] using hasked, by rw [hsockets]; exact hnodup, fun e he ↦ by
      obtain ⟨p, hp, rfl⟩ := List.mem_map.mp he
      exact ⟨hp, rfl⟩⟩
    by_contra hmany
    have hlength : x.events.length = v.delDisconnected.watched.length := List.length_map _
    rw [poll, if_neg (hlength ▸ hmany)] at hpoll
    cases hpoll
  · intro hroom x hx
    have hlength : x.events.length ≤ v.delDisconnected.watched.length := by
      have hsub : x.events.map (·.socket) ⊆ v.delDisconnected.watched := by
        intro p hp
        obtain ⟨e, he, rfl⟩ := List.mem_map.mp hp
        exact (hx.2.2 e he).1
      simpa using (hx.2.1.subperm hsub).length_le
    exact ⟨_, if_pos (hlength.trans hroom)⟩

theorem poll_in_bounds_hung_up : ∃ v, hungUp.foldlM poll new = .ok v ∧
    ∀ x, v.Reports x → ∃ v', v.poll x = .ok v' := by
  obtain ⟨v, hrun, hwatched⟩ : ∃ v, hungUp.foldlM poll new = .ok v ∧
      v.delDisconnected.watched.length ≤ maxEvents := Yields.exists_ok (by decide)
  exact ⟨v, hrun, (poll_in_bounds_iff (by decide) hrun).mpr hwatched⟩

end TCPServer

end LowLatency.Common
