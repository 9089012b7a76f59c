import LowLatency.Exchange.Arrivals

namespace LowLatency.Exchange

open Common Book MEOrderBook

namespace MEOrderBook

variable {s s' : MEOrderBook} {c : Call} {cs : List Call} {tickerId : TickerId}

/-- The order table points at the resting orders, and at each under its own ids. -/
def TableExact (s : MEOrderBook) : Prop :=
  ∀ k p, s.book.orderTable k = some p ↔
    ∃ e ∈ s.ladder.entries, e.ptr = p ∧ (e.key.clientId, e.key.clientOrderId) = k

/-- An order that comes to rest finds no other order resting under the ids it is stored under. -/
def Unclaimed (s : MEOrderBook) : Call → Prop
  | .add o => s.ladder.Rests o.side o.price o.qty →
      ∀ e ∈ (s.ladder.swept o.side o.price).entries,
        ¬ (e.key.clientId = o.tickerId ∧ e.key.clientOrderId = o.clientOrderId)
  | .cancel _ _ _ => True

instance : DecidableRel Unclaimed
  | _, .add _ => inferInstanceAs (Decidable (_ → _))
  | _, .cancel _ _ _ => inferInstanceAs (Decidable True)

theorem entry_eq_some {key : MEOrderKey} {k : ClientId × OrderId} (h : TableKey.entry key = some k) :
    (key.clientId, key.clientOrderId) = k := by
  simp only [TableKey.entry] at h
  split_ifs at h
  exact Option.some.inj h

theorem Sound.tableExact (hs : s.Sound) (hc : Complete s.book s.ladder) : s.TableExact := by
  intro k p
  constructor
  · intro hk
    obtain ⟨e, he, hp, hek⟩ := hs.represents.table k p hk
    exact ⟨e, he, hp, entry_eq_some hek⟩
  · rintro ⟨e, he, rfl, rfl⟩
    obtain ⟨k, hk⟩ := Option.isSome_iff_exists.mp (hs.represents.in_range e he)
    rw [entry_eq_some hk]
    exact hc e he k hk

theorem complete_step (hs : s.Sound) (hadm : s.Admitted c) (hfree : s.Unclaimed c)
    (hrun : s.step c = .ok s') (hc : Complete s.book s.ladder) : Complete s'.book s'.ladder := by
  cases hs.outcome hadm hrun with
  | traded _ _ _ _ hcomp => exact hcomp hc
  | rested _ hr _ _ _ hcomp => exact hcomp hc (hfree hr)
  | canceled _ _ _ _ hcomp => exact hcomp hc
  | rejected hs' => exact hs' ▸ hc

theorem complete_new (tickerId : TickerId) :
    Complete (new tickerId).book (new tickerId).ladder := fun e he ↦ by
  have hnil : (new tickerId).ladder.entries = [] := rfl
  simp [hnil] at he

theorem orderTable_exact
    (hg : Guarded MEOrderBook.step (fun s c ↦ s.Admitted c ∧ s.Unclaimed c) (new tickerId) cs)
    (hrun : (new tickerId).run cs = .ok s) : s.TableExact := by
  obtain ⟨hs, hc⟩ : s.Sound ∧ Complete s.book s.ladder :=
    hg.invariant (I := fun s ↦ s.Sound ∧ Complete s.book s.ladder)
      (fun s c s' ⟨hs, hc⟩ ⟨hadm, hfree⟩ h ↦ ⟨hs.step hadm h, complete_step hs hadm hfree h hc⟩)
      ⟨sound_new tickerId, complete_new tickerId⟩ hrun
  exact hs.tableExact hc

def reusedId : List Call :=
  [.add ⟨0, 1, 0, .BUY, 100, 10⟩, .add ⟨3, 2, 0, .BUY, 100, 5⟩, .add ⟨4, 3, 0, .SELL, 100, 12⟩,
    .add ⟨4, 1, 0, .BUY, 99, 6⟩]

theorem orderTable_exact_reused : ∃ s, (new 0).run reusedId = .ok s ∧
    s.ladder.entries.map (fun e ↦ (e.key.clientOrderId, e.qty)) = [(2, 3), (1, 6)] ∧ s.TableExact := by
  obtain ⟨s, hs, hresting⟩ : ∃ s, (new 0).run reusedId = .ok s ∧
      s.ladder.entries.map (fun e ↦ (e.key.clientOrderId, e.qty)) = [(2, 3), (1, 6)] :=
    Yields.exists_ok (by decide +kernel)
  exact ⟨s, hs, hresting, orderTable_exact (by decide +kernel) hs⟩

def sharedId : List Call := [.add ⟨7, 1, 0, .BUY, 101, 10⟩, .add ⟨8, 1, 0, .BUY, 100, 5⟩]

theorem orderTable_overwritten : ∃ s, (new 0).run sharedId = .ok s ∧ ¬ s.TableExact := by
  obtain ⟨s, hs, e, he, hk⟩ := Yields.exists_ok (show Yields ((new 0).run sharedId) fun s ↦
      ∃ e ∈ s.ladder.entries, s.book.orderTable (e.key.clientId, e.key.clientOrderId) ≠ some e.ptr
    by decide +kernel)
  exact ⟨s, hs, fun h ↦ hk ((h _ _).mpr ⟨e, he, rfl, rfl⟩)⟩

/-- An order that comes to rest is from the client whose id is the ticker's, the only client that
the swapped arguments of `allocate` do not misname. -/
def OwnTicker (s : MEOrderBook) : Call → Prop
  | .add o => s.ladder.Rests o.side o.price o.qty → o.clientId = o.tickerId
  | .cancel _ _ _ => True

instance : DecidableRel OwnTicker
  | _, .add _ => inferInstanceAs (Decidable (_ → _))
  | _, .cancel _ _ _ => inferInstanceAs (Decidable True)

theorem own_step (hs : s.Sound) (hadm : s.Admitted c) (hown : s.OwnTicker c) (hrun : s.step c = .ok s')
    (h : ∀ e ∈ s.ladder.entries, e.key.clientId = e.key.tickerId) :
    ∀ e ∈ s'.ladder.entries, e.key.clientId = e.key.tickerId := by
  refine ladder_step (P := fun a ↦ ∀ e ∈ a.entries, e.key.clientId = e.key.tickerId) hs hadm hrun h
    (fun a ha e' he' ↦ ?_) ?_
  · obtain ⟨e, he, hf⟩ := ha.exists_entry he'
    rw [(Entry.fixed_eq hf).2.1]
    exact h e he
  · rintro o lp rfl hr hswept e he
    rw [mem_entries_rested hs hadm.1] at he
    rcases he with he | rfl
    · exact hswept e he
    · exact (hown hr).symm

end MEOrderBook

/-- A `cancel` of ids in range removes the order that the client itself added under that id and that
still rests, and otherwise does nothing but send a rejection. -/
def Session.CancelsOwn (x : Session) : Prop :=
  ∀ clientId < ME_MAX_NUM_CLIENTS, ∀ orderId < ME_MAX_ORDER_IDS, ∀ tickerId,
    (∀ p o, (p, o) ∈ x.arrivals → o.clientId = clientId → o.clientOrderId = orderId →
      ∃ e ∈ x.book.ladder.entries, e.ptr = p ∧
      ∃ s', x.book.step (.cancel clientId orderId tickerId) = .ok s' ∧
        s'.sent = x.book.sent ++ canceledOutputs clientId orderId tickerId e ∧
        s'.ladder = x.book.ladder.remove p ∧ ∀ side, queue (s'.ladder.on side) =
          (queue (x.book.ladder.on side)).filter (·.ptr ≠ p)) ∧
    ((∀ p o, (p, o) ∈ x.arrivals → ¬ (o.clientId = clientId ∧ o.clientOrderId = orderId)) →
      x.book.step (.cancel clientId orderId tickerId) =
        .ok (x.book.sendClientResponse (rejection clientId orderId tickerId)))

namespace Session

variable {x x' : Session} {c : Call} {cs : List Call} {tickerId : TickerId}

structure Owned (x : Session) : Prop where
  sound : x.book.Sound
  logged : Logged x.arrivals x.book.ladder
  complete : Complete x.book.book x.book.ladder
  own : ∀ e ∈ x.book.ladder.entries, e.key.clientId = e.key.tickerId

theorem Owned.exists_arrival (h : x.Owned) {e : Entry MEOrderKey} (he : e ∈ x.book.ladder.entries) :
    ∃ o, (e.ptr, o) ∈ x.arrivals ∧ o.clientId = e.key.clientId ∧
      o.clientOrderId = e.key.clientOrderId := by
  obtain ⟨⟨p, o⟩, ho, rfl⟩ := List.mem_map.mp ((h.logged.mem_iff e.ptr).mpr ⟨e, he, rfl⟩)
  obtain ⟨-, hk, hk', -, -⟩ := h.logged.made e he o ho
  exact ⟨o, ho, hk ▸ (h.own e he).symm, hk'.symm⟩

theorem Owned.cancelsOwn (h : x.Owned) : x.CancelsOwn := by
  intro clientId hc orderId ho tickerId
  constructor
  · rintro p o hpo rfl rfl
    obtain ⟨e, he, rfl⟩ := (h.logged.mem_iff p).mp (List.mem_map_of_mem hpo)
    obtain ⟨-, hk, hk', -, -⟩ := h.logged.made e he o hpo
    have hstored : x.book.book.orderTable (o.clientId, o.clientOrderId) = some e.ptr :=
      (h.sound.tableExact h.complete _ _).mpr ⟨e, he, rfl, by rw [h.own e he, hk, hk']⟩
    rcases cancel_spec h.sound.represents o.clientId o.clientOrderId tickerId with
        ⟨e', he', -, -, ht, s', hrun, hcalled, -⟩ | ⟨hnone | hnone, -⟩ | ⟨hnone, -⟩
    · obtain rfl := h.sound.represents.linked.entry_inj he' he
        (Option.some.inj (ht.symm.trans hstored))
      refine ⟨e', he', rfl, s', hrun, hcalled.sent, hcalled.ladder, fun side ↦ ?_⟩
      rw [hcalled.ladder, Ladder.on_remove, queue_removeFrom]
    · rw [hstored] at hnone
      cases hnone
    · exact absurd hc hnone
    · exact absurd ho hnone
  · intro hnot
    rcases cancel_spec h.sound.represents clientId orderId tickerId with
        ⟨e, he, rfl, rfl, -⟩ | ⟨-, hrun⟩ | ⟨hnone, -⟩
    · obtain ⟨o, ho, hk, hk'⟩ := h.exists_arrival he
      exact absurd ⟨hk, hk'⟩ (hnot _ _ ho)
    · exact hrun
    · exact absurd ho hnone

theorem Owned.step (h : x.Owned) (hmem : ∀ q ∈ x.arrivals, q.2 ∈ adds cs)
    (hd : ((adds (cs ++ [c])).map fun o ↦ (o.clientId, o.clientOrderId)).Nodup)
    (hadm : x.book.Admitted c) (hown : x.book.OwnTicker c) (hrun : x.step c = .ok x') : x'.Owned := by
  have hbook := (step_ok.mp hrun).1
  have hfree : x.book.Unclaimed c := by
    cases c with
    | cancel clientId orderId tickerId => trivial
    | add o =>
      rintro hr e' he' ⟨hk, hk'⟩
      obtain ⟨e, he, hf⟩ := (Ladder.shrinks_swept _ _ _).exists_entry he'
      obtain ⟨o', ho', hc, hc'⟩ := h.exists_arrival he
      rw [adds_append, List.map_append] at hd
      refine (List.nodup_append.mp hd).2.2 _ (List.mem_map_of_mem (hmem _ ho')) _
        (List.mem_map_of_mem (List.mem_singleton_self o)) ?_
      rw [hc, hc', hown hr, ← hk, ← hk', (Entry.fixed_eq hf).2.1]
  exact ⟨h.sound.step hadm hbook, h.logged.step h.sound hadm hrun,
    complete_step h.sound hadm hfree hbook h.complete, own_step h.sound hadm hown hbook h.own⟩

theorem owned_of_run
    (hg : Guarded Session.step (fun x c ↦ x.book.Admitted c ∧ x.book.OwnTicker c) (start tickerId) cs)
    (hrun : (start tickerId).run cs = .ok x)
    (hd : ((adds cs).map fun o ↦ (o.clientId, o.clientOrderId)).Nodup) : x.Owned := by
  have hinv := hg.history (I := fun cs x ↦ (∀ q ∈ x.arrivals, q.2 ∈ adds cs) ∧
    (((adds cs).map fun o ↦ (o.clientId, o.clientOrderId)).Nodup → x.Owned)) ?_ ?_ hrun
  · exact hinv.2 hd
  · exact ⟨by simp [start], fun _ ↦
      ⟨sound_new tickerId, logged_start tickerId, complete_new tickerId, fun e he ↦ by
        have hnil : (start tickerId).book.ladder.entries = [] := rfl
        simp [hnil] at he⟩⟩
  · rintro cs c x₁ x₂ ⟨hmem, howned⟩ ⟨hadm, hown⟩ hstep
    refine ⟨fun q hq ↦ ?_, fun hd ↦ ?_⟩
    · rw [(step_ok.mp hstep).2] at hq
      rw [adds_append, List.mem_append]
      exact (mem_arrive hq).imp (hmem q) fun h ↦ by subst h; simp [adds]
    · have hd' : ((adds cs).map fun o ↦ (o.clientId, o.clientOrderId)).Nodup := by
        rw [adds_append, List.map_append] at hd
        exact (List.nodup_append.mp hd).1
      exact (howned hd').step hmem hd hadm hown hstep

theorem cancel_authority
    (hg : Guarded Session.step (fun x c ↦ x.book.Admitted c ∧ x.book.OwnTicker c) (start tickerId) cs)
    (hrun : (start tickerId).run cs = .ok x)
    (hd : ((adds cs).map fun o ↦ (o.clientId, o.clientOrderId)).Nodup) : x.CancelsOwn :=
  (owned_of_run hg hrun hd).cancelsOwn

def restedByTwo : List Call := [.add ⟨2, 1, 2, .SELL, 100, 10⟩, .add ⟨2, 2, 2, .SELL, 101, 5⟩]

def restedAndCanceled : List Call := restedByTwo ++ [.add ⟨5, 1, 2, .BUY, 100, 4⟩, .cancel 2 2 2]

theorem cancel_authority_two_clients : ∃ x, (start 2).run restedAndCanceled = .ok x ∧
    x.CancelsOwn := by
  obtain ⟨x, hx⟩ : ∃ x, (start 2).run restedAndCanceled = .ok x := exists_ok (by decide +kernel)
  exact ⟨x, hx, cancel_authority (by decide +kernel) hx (by decide)⟩

/-- Client 7 cannot cancel the order it has just added to the book of ticker 0. -/
theorem cancel_rejects_owner :
    ∃ x, (start 0).run [.add ⟨7, 1, 0, .BUY, 100, 10⟩] = .ok x ∧ ¬ x.CancelsOwn := by
  obtain ⟨x, hx, harr, hcancel⟩ := Yields.exists_ok (show Yields ((start 0).run
    [.add ⟨7, 1, 0, .BUY, 100, 10⟩]) fun x ↦ x.arrivals = [(0, ⟨7, 1, 0, .BUY, 100, 10⟩)] ∧
      Yields (x.book.step (.cancel 7 1 0)) fun s' ↦ s'.ladder = x.book.ladder by decide +kernel)
  refine ⟨x, hx, fun h ↦ ?_⟩
  obtain ⟨s', hrun, hsame⟩ := hcancel.exists_ok
  obtain ⟨e, he, hp, s₁, hrun₁, -, hlad, -⟩ :=
    (h 7 (by decide) 1 (by decide) 0).1 0 _ (harr ▸ List.mem_singleton_self _) rfl rfl
  obtain rfl := Except.ok.inj (hrun.symm.trans hrun₁)
  rw [hsame] at hlad
  rw [hlad] at he
  exact (Ladder.mem_entries_remove.mp he).2 hp

end Session

end LowLatency.Exchange
