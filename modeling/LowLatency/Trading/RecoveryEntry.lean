import LowLatency.Exchange.SnapshotSynthesizer
import LowLatency.Trading.ArrivalOrder

namespace LowLatency.Trading.MarketDataConsumer

open Common Exchange OrderedMap

variable {os : Os} {c c' c₀ : MarketDataConsumer} {isSnapshot : Bool} {m : MDPMarketUpdate}
  {a : Bool × MDPMarketUpdate} {ms : List (Bool × MDPMarketUpdate)}
  {arrivals : List (Bool × List MDPMarketUpdate)}

section Entry

/-- A recovery is begun by an unexpected incremental message only, and a snapshot message outside of a
recovery is ignored. -/
structure Lawful (os : Os) (isSnapshot : Bool) (c : MarketDataConsumer) (m : MDPMarketUpdate) : Prop where
  begins : ∀ c', onRequest os isSnapshot c m = .ok c' → c.inRecovery = false → c'.inRecovery = true →
    isSnapshot = false ∧ m.seqNum ≠ c.nextExpIncSeqNum
  ignores : isSnapshot = true → c.inRecovery = false → ∃ c', onRequest os isSnapshot c m = .ok c' ∧
    c'.inRecovery = false ∧ c'.snapshotQueuedMsgs = c.snapshotQueuedMsgs ∧
      c'.incrementalQueuedMsgs = c.incrementalQueuedMsgs

/-- A snapshot message outside of a recovery has, by chance, the number of the next update. -/
def Chanced (isSnapshot : Bool) (c : MarketDataConsumer) (m : MDPMarketUpdate) : Prop :=
  isSnapshot = true → c.inRecovery = false → m.seqNum = c.nextExpIncSeqNum

instance (isSnapshot : Bool) (c : MarketDataConsumer) (m : MDPMarketUpdate) :
    Decidable (Chanced isSnapshot c m) := inferInstanceAs (Decidable (_ → _ → _))

theorem not_complete_singleton {u : MEMarketUpdate} {last : ℕ} : ¬ Complete [u] last := by
  rintro ⟨⟨v, hv, hstart⟩, w, hw, hend, -⟩
  have hv' : some u = some v := hv
  have hw' : some u = some w := hw
  rw [← Option.some.inj hw', Option.some.inj hv', hstart] at hend
  cases hend

theorem queueMessage_of_empty (h : c.snapshotQueuedMsgs = ∅) :
    (c.queueMessage isSnapshot m).inRecovery = c.inRecovery := by
  cases isSnapshot with
  | false =>
    rw [queueMessage_incremental (.inl (by rw [h]; rfl))]
    rfl
  | true =>
    have hnone : ¬ c.Completes m := by
      rintro ⟨us, last, hq, hus⟩
      have hnil : c.snapshotQueuedMsgs.toList = numbered 0 [] := by rw [h]; rfl
      rw [enqueue_again hnil (.inl rfl)] at hq
      have hone : us = [m.meMarketUpdate] := by
        have hmap := congrArg (List.map Prod.snd) hq
        rw [numbered, List.map_map] at hmap
        exact (List.zipIdx_map_fst 0 us).symm.trans hmap.symm
      exact not_complete_singleton (hone ▸ hus)
    obtain ⟨queued, -, hrun⟩ := queueMessage_incomplete hnone
    rw [hrun c rfl]

/-- An unexpected message outside of a recovery begins one, from whatever socket it is. -/
theorem onRequest_unexpected (hrec : c.inRecovery = false) (hseq : m.seqNum ≠ c.nextExpIncSeqNum)
    (hrun : onRequest os isSnapshot c m = .ok c') : c'.inRecovery = true := by
  unfold onRequest at hrun
  rw [if_neg (by simp [hrec]), if_pos hseq] at hrun
  obtain ⟨c₁, hsync, hc⟩ := bind_eq_ok hrun
  obtain ⟨socket, -, hc₁⟩ := bind_eq_ok hsync
  obtain rfl := Except.ok.inj hc₁
  rw [← Except.ok.inj hc]
  exact queueMessage_of_empty rfl

theorem lawful_iff : Lawful os isSnapshot c m ↔ Chanced isSnapshot c m := by
  constructor
  · intro h hsnap hrec
    obtain ⟨c', hrun, hrec', -⟩ := h.ignores hsnap hrec
    by_contra hseq
    rw [onRequest_unexpected hrec hseq hrun] at hrec'
    cases hrec'
  · intro h
    have ignored : isSnapshot = true → c.inRecovery = false → onRequest os isSnapshot c m = .ok c := by
      intro hsnap hrec
      unfold onRequest
      rw [if_neg (by simp [hrec]), if_neg (not_not.mpr (h hsnap hrec)), if_pos hsnap]
      rfl
    refine ⟨fun c' hrun hrec hrec' ↦ ?_, fun hsnap hrec ↦ ⟨c, ignored hsnap hrec, hrec, rfl, rfl⟩⟩
    cases isSnapshot with
    | true =>
      obtain rfl := Except.ok.inj ((ignored rfl hrec).symm.trans hrun)
      cases hrec.symm.trans hrec'
    | false =>
      refine ⟨rfl, fun hseq ↦ ?_⟩
      unfold onRequest at hrun
      rw [if_neg (by simp [hrec]), if_neg (not_not.mpr hseq), if_neg (by simp)] at hrun
      rw [← Except.ok.inj hrun] at hrec'
      cases hrec.symm.trans hrec'

/-- A run begins no recovery without a gap and ignores the snapshot messages outside of a recovery if
and only if those that it comes to have the number of the next update. -/
theorem recovers_lawfully_iff : Guarded (onReceived os) (Handled os (Lawful os)) c arrivals ↔
    Guarded (onReceived os) (Handled os Chanced) c arrivals := by
  have hsame : Lawful os = Chanced := by
    funext isSnapshot c m
    exact propext lawful_iff
  rw [hsame]

/-- A buffer with the last message of one snapshot, which ends the recovery, and the first message of
the next one, which begins another. -/
theorem snapshot_begins_recovery :
    let first : MDPMarketUpdate := ⟨0, ⟨.SNAPSHOT_START, 4, 0, .INVALID, 0, 0, 0⟩⟩
    let last : MDPMarketUpdate := ⟨1, ⟨.SNAPSHOT_END, 4, 0, .INVALID, 0, 0, 0⟩⟩
    ∃ c c', [first, last].foldlM (onRequest sameFd true) started = .ok c ∧ c.inRecovery = false ∧
      onRequest sameFd true c first = .ok c' ∧ c'.inRecovery = true ∧
      c'.snapshotQueuedMsgs.toList ≠ c.snapshotQueuedMsgs.toList ∧
      ¬ Lawful sameFd true c first ∧
      started.onReceived sameFd (true, [first, last, first]) = .ok c' := by
  intro first last
  obtain ⟨c, hrun, hrec, hnext, hyields⟩ := Yields.exists_ok
    (show Yields ([first, last].foldlM (onRequest sameFd true) started) fun c ↦
      c.inRecovery = false ∧ c.nextExpIncSeqNum = 5 ∧ Yields (onRequest sameFd true c first) fun c' ↦
        c'.inRecovery = true ∧ c'.snapshotQueuedMsgs.toList ≠ c.snapshotQueuedMsgs.toList by
      decide +kernel)
  obtain ⟨c', hrun', hrec', hqueue⟩ := hyields.exists_ok
  refine ⟨c, c', hrun, hrec, hrun', hrec', hqueue, fun hlawful ↦ ?_, ?_⟩
  · have hseq := lawful_iff.mp hlawful rfl hrec
    rw [hnext] at hseq
    cases hseq
  · refine Eq.trans (if_neg fun hdrop ↦ hdrop.2 rfl) ?_
    exact (foldlM_concat (onRequest sameFd true) started [first, last] first hrun).trans hrun'

end Entry

section Numbers

variable {n next : ℕ} {queued : List (ℕ × MEMarketUpdate)}

def Covers (queued : List (ℕ × MEMarketUpdate)) (n : ℕ) : Prop :=
  ∃ u, (n, u) ∈ queued ∧ isMark u = false

def HasGap (queued : List (ℕ × MEMarketUpdate)) (last : ℕ) : Prop :=
  ∃ n, last < n ∧ ¬ Covers queued n ∧ ∃ e ∈ queued, n < e.1

structure Ascends (queued : List (ℕ × MEMarketUpdate)) : Prop where
  sorted : queued.Pairwise fun e e' ↦ e.1 < e'.1
  bounded : ∀ e ∈ queued, e.1 + 1 < 2 ^ 64

theorem Ascends.tail {e : ℕ × MEMarketUpdate} (h : Ascends (e :: queued)) : Ascends queued :=
  ⟨(List.pairwise_cons.mp h.sorted).2, fun e' he' ↦ h.bounded e' (List.mem_cons_of_mem e he')⟩

theorem covers_cons {k : ℕ} {e : ℕ × MEMarketUpdate} :
    Covers (e :: queued) k ↔ e.1 = k ∧ isMark e.2 = false ∨ Covers queued k := by
  constructor
  · rintro ⟨u, hu, hmark⟩
    rcases List.mem_cons.mp hu with rfl | hu
    · exact .inl ⟨rfl, hmark⟩
    · exact .inr ⟨u, hu, hmark⟩
  · rintro (⟨rfl, hmark⟩ | ⟨u, hu, hmark⟩)
    · exact ⟨e.2, List.mem_cons_self, hmark⟩
    · exact ⟨u, List.mem_cons_of_mem e hu, hmark⟩

theorem incrementalEvents_some {events : List MEMarketUpdate} (h : Ascends queued)
    (hrun : incrementalEvents n queued = (next, some events)) :
    n ≤ next ∧ (∀ k, n ≤ k → k < next → Covers queued k) ∧ (∀ k, Covers queued k → k < next) ∧
      ∀ e ∈ queued, e.1 ≤ next := by
  induction queued generalizing n events with
  | nil =>
    obtain ⟨rfl, -⟩ := Prod.mk.inj hrun
    refine ⟨le_rfl, fun k hle hlt ↦ absurd hlt (Nat.not_lt.mpr hle), ?_, ?_⟩
    · rintro k ⟨u, hu, -⟩
      cases hu
    · intro e he
      cases he
  | cons e queued ih =>
    obtain ⟨seq, u⟩ := e
    rw [incrementalEvents] at hrun
    simp only [covers_cons, List.forall_mem_cons]
    split_ifs at hrun with hlt hne hmark
    · obtain ⟨hle, hcovers, hlast, hall⟩ := ih h.tail hrun
      refine ⟨hle, fun k hk hk' ↦ .inr (hcovers k hk hk'), fun k hk ↦ ?_, by omega, hall⟩
      rcases hk with ⟨rfl, -⟩ | hk
      · omega
      · exact hlast k hk
    · cases (Prod.mk.inj hrun).2
    · obtain ⟨hle, hcovers, hlast, hall⟩ := ih h.tail hrun
      refine ⟨hle, fun k hk hk' ↦ .inr (hcovers k hk hk'), fun k hk ↦ ?_, by omega, hall⟩
      rcases hk with ⟨-, hfalse⟩ | hk
      · rw [hmark] at hfalse
        cases hfalse
      · exact hlast k hk
    · have hbound : seq + 1 < 2 ^ 64 := h.bounded _ List.mem_cons_self
      obtain rfl := not_not.mp hne
      obtain ⟨hnext, hsome⟩ := Prod.mk.inj hrun
      obtain ⟨events', htail, -⟩ := Option.map_eq_some_iff.mp hsome
      rw [Nat.mod_eq_of_lt hbound] at hnext htail
      obtain ⟨hle, hcovers, hlast, hall⟩ := ih h.tail (Prod.ext hnext htail)
      refine ⟨by omega, fun k hk hk' ↦ ?_, fun k hk ↦ ?_, by omega, hall⟩
      · rcases hk.eq_or_lt with heq | hlt
        · exact .inl ⟨heq, by simpa using hmark⟩
        · exact .inr (hcovers k hlt hk')
      · rcases hk with ⟨rfl, -⟩ | hk
        · omega
        · exact hlast k hk

theorem incrementalEvents_none (h : Ascends queued) (hrun : incrementalEvents n queued = (next, none)) :
    ∃ k, n ≤ k ∧ ¬ Covers queued k ∧ ∃ e ∈ queued, k < e.1 := by
  induction queued generalizing n with
  | nil => cases (Prod.mk.inj hrun).2
  | cons e queued ih =>
    obtain ⟨seq, u⟩ := e
    have hbehind := (List.pairwise_cons.mp h.sorted).1
    have behind : ∀ {n'}, n ≤ n' → (∀ k, n' ≤ k → ¬ (seq = k ∧ isMark u = false)) →
        (∃ k, n' ≤ k ∧ ¬ Covers queued k ∧ ∃ e ∈ queued, k < e.1) →
        ∃ k, n ≤ k ∧ ¬ Covers ((seq, u) :: queued) k ∧ ∃ e ∈ (seq, u) :: queued, k < e.1 := by
      rintro n' hle hhead ⟨k, hk, hnot, e, he, hlt⟩
      refine ⟨k, hle.trans hk, ?_, e, List.mem_cons_of_mem _ he, hlt⟩
      rw [covers_cons]
      exact not_or.mpr ⟨hhead k hk, hnot⟩
    rw [incrementalEvents] at hrun
    split_ifs at hrun with hlt hne hmark
    · exact behind le_rfl (fun k hk heq ↦ by omega) (ih h.tail hrun)
    · refine ⟨n, le_rfl, ?_, _, List.mem_cons_self, by simp only; omega⟩
      rw [covers_cons]
      rintro (⟨rfl, -⟩ | ⟨v, hv, -⟩)
      · exact hne rfl
      · have := hbehind _ hv
        simp only at this
        omega
    · exact behind le_rfl (fun k hk heq ↦ by simp [hmark] at heq) (ih h.tail hrun)
    · have hbound : seq + 1 < 2 ^ 64 := h.bounded _ List.mem_cons_self
      obtain rfl := not_not.mp hne
      obtain ⟨hnext, hnone⟩ := Prod.mk.inj hrun
      have htail := Option.map_eq_none_iff.mp hnone
      rw [Nat.mod_eq_of_lt hbound] at hnext htail
      exact behind (Nat.le_succ seq) (fun k hk heq ↦ by omega) (ih h.tail (Prod.ext hnext htail))

end Numbers

section Rewinding

/-- No number in the message is the largest one that there is. The end of a snapshot has that of the
last update in it for an order id. -/
def Within (m : MDPMarketUpdate) : Prop :=
  m.seqNum + 1 < 2 ^ 64 ∧ (m.meMarketUpdate.type = .SNAPSHOT_END → m.meMarketUpdate.orderId + 1 < 2 ^ 64)

instance : DecidablePred Within := fun _ ↦ inferInstanceAs (Decidable (_ ∧ _))

/-- If the message completes a snapshot, the updates between the last one in it and the one with the
number `reached` are queued, or the recovery goes on because of a gap. -/
def Bridges (reached : ℕ) (c : MarketDataConsumer) (a : Bool × MDPMarketUpdate) : Prop :=
  c.inRecovery = true → ∀ us last, (c.enqueue a.1 a.2).snapshotQueuedMsgs.toList = numbered 0 us →
    Complete us last →
      (∀ n, last < n → n < reached → Covers (c.enqueue a.1 a.2).incrementalQueuedMsgs.toList n) ∨
        HasGap (c.enqueue a.1 a.2).incrementalQueuedMsgs.toList last

/-- What is expected outside of the recoveries of a run does not decrease. -/
def NeverRewinds (os : Os) (c₀ : MarketDataConsumer) (ms : List (Bool × MDPMarketUpdate)) : Prop :=
  ∀ ms₁ ms₂ ms₃ c₁ c₂, ms = ms₁ ++ ms₂ ++ ms₃ → ms₁.foldlM (handle os) c₀ = .ok c₁ →
    ms₂.foldlM (handle os) c₁ = .ok c₂ → c₁.inRecovery = false → c₂.inRecovery = false →
    c₁.nextExpIncSeqNum ≤ c₂.nextExpIncSeqNum

/-- Behind every state outside of a recovery the snapshots lead back to what was expected in it. -/
def Bridged (os : Os) (c₀ : MarketDataConsumer) (ms : List (Bool × MDPMarketUpdate)) : Prop :=
  ∀ ms₁ ms₂ c₁, ms = ms₁ ++ ms₂ → ms₁.foldlM (handle os) c₀ = .ok c₁ → c₁.inRecovery = false →
    Guarded (handle os) (Bridges c₁.nextExpIncSeqNum) c₁ ms₂

structure Small (c : MarketDataConsumer) : Prop where
  incrementals : ∀ e ∈ c.incrementalQueuedMsgs.toList, e.1 + 1 < 2 ^ 64
  snapshots : ∀ e ∈ c.snapshotQueuedMsgs.toList, e.2.type = .SNAPSHOT_END → e.2.orderId + 1 < 2 ^ 64

variable {us : List MEMarketUpdate} {last : ℕ} {snapshotGroup incrementalGroup : Group}

theorem Small.ascends (h : Small c) : Ascends c.incrementalQueuedMsgs.toList :=
  ⟨Std.TreeMap.ordered_keys_toList.imp Nat.compare_eq_lt.mp, h.incrementals⟩

theorem Small.behind (h : Small c) (hq : c.snapshotQueuedMsgs.toList = numbered 0 us)
    (hus : Complete us last) : (last + 1) % 2 ^ 64 = last + 1 := by
  obtain ⟨-, u, hu, hend, rfl⟩ := hus
  obtain ⟨i, hi⟩ := List.getElem?_of_mem (List.mem_of_getLast? hu)
  have hmem : (i, u) ∈ c.snapshotQueuedMsgs.toList := by
    rw [hq]
    exact mem_numbered.mpr ⟨i, (Nat.zero_add i).symm, hi⟩
  exact Nat.mod_eq_of_lt (h.snapshots _ hmem hend)

theorem Small.of_empty (hs : c.snapshotQueuedMsgs = ∅) (hi : c.incrementalQueuedMsgs = ∅) : Small c := by
  constructor
  · rw [hi]
    exact fun e he ↦ (by cases he)
  · rw [hs]
    exact fun e he ↦ (by cases he)

theorem Small.enqueue (h : Small c) (hm : Within m) : Small (c.enqueue isSnapshot m) := by
  cases isSnapshot with
  | false =>
    refine ⟨fun e he ↦ ?_, h.snapshots⟩
    rcases mem_insert he with rfl | he
    · exact hm.1
    · exact h.incrementals e he
  | true =>
    refine ⟨h.incrementals, fun e he ↦ ?_⟩
    rcases mem_insert he with rfl | he
    · exact hm.2
    · split_ifs at he
      · cases he
      · exact h.snapshots e he

theorem Small.checkSnapshotSync (h : Small c) : Small c.checkSnapshotSync := by
  rcases checkSnapshotSync_cases c with ⟨next, queued, heq, rfl | rfl⟩ | ⟨_, _, next, events, -, -, -, heq⟩
  · rw [heq]
    exact ⟨h.incrementals, h.snapshots⟩
  · rw [heq]
    exact ⟨h.incrementals, fun e he ↦ by cases he⟩
  · rw [heq]
    exact .of_empty rfl rfl

theorem Small.handle (h : Small c) (ha : Within a.2) (hrun : handle os c a = .ok c') : Small c' := by
  rcases onRequest_cases hrun with ⟨c₁, rfl, -, -, ⟨-, rfl⟩ | ⟨-, hs, hi⟩⟩ | ⟨-, -, rfl⟩ | ⟨-, -, -, rfl⟩
  · exact (h.enqueue ha).checkSnapshotSync
  · exact ((Small.of_empty hs hi).enqueue ha).checkSnapshotSync
  · exact h
  · exact ⟨h.incrementals, h.snapshots⟩

theorem queueMessage_ends (hrec : c.inRecovery = true)
    (hend : (c.queueMessage isSnapshot m).inRecovery = false) :
    ∃ us last events, (c.enqueue isSnapshot m).snapshotQueuedMsgs.toList = numbered 0 us ∧
      Complete us last ∧
      incrementalEvents ((last + 1) % 2 ^ 64) (c.enqueue isSnapshot m).incrementalQueuedMsgs.toList =
        ((c.queueMessage isSnapshot m).nextExpIncSeqNum, some events) := by
  rw [queueMessage] at hend ⊢
  rcases checkSnapshotSync_cases (c.enqueue isSnapshot m) with ⟨_, _, heq, -⟩ |
    ⟨us, last, next, events, hq, hus, hinc, heq⟩
  · rw [heq] at hend
    cases hrec.symm.trans ((inRecovery_enqueue isSnapshot m).symm.trans hend)
  · exact ⟨us, last, events, hq, hus, by rw [heq]; exact hinc⟩

theorem Bridges.handle {reached : ℕ} (hbridge : Bridges reached c a) (h : Small c) (ha : Within a.2)
    (hinv : c.inRecovery = false → reached ≤ c.nextExpIncSeqNum) (hrun : handle os c a = .ok c')
    (hrec' : c'.inRecovery = false) : reached ≤ c'.nextExpIncSeqNum := by
  rcases onRequest_cases hrun with ⟨c₁, rfl, hrec₁, -, ⟨hrec, rfl⟩ | ⟨-, hs, -⟩⟩ | ⟨hrec, -, rfl⟩ |
    ⟨hrec, -, hseq, rfl⟩
  · obtain ⟨us, last, events, hq, hus, hinc⟩ := queueMessage_ends hrec hrec'
    have hsmall : Small (c₁.enqueue a.1 a.2) := h.enqueue ha
    rw [hsmall.behind hq hus] at hinc
    obtain ⟨hle, hcovers, hbelow, hall⟩ := incrementalEvents_some hsmall.ascends hinc
    rcases hbridge hrec us last hq hus with hbridge | ⟨n, hn, hnot, e, he, hlt⟩
    · by_contra hback
      exact lt_irrefl _ (hbelow _ (hbridge _ hle (not_le.mp hback)))
    · exact absurd (hcovers n hn (hlt.trans_le (hall e he))) hnot
  · rw [queueMessage_of_empty hs, hrec₁] at hrec'
    cases hrec'
  · exact hinv hrec
  · have hnext : (c.nextExpIncSeqNum + 1) % 2 ^ 64 = c.nextExpIncSeqNum + 1 :=
      Nat.mod_eq_of_lt (hseq ▸ ha.1)
    exact (hinv hrec).trans (hnext.symm ▸ Nat.le_succ _)

theorem small_of_run (hnew : new os snapshotGroup incrementalGroup = .ok c₀) (hms : ∀ a ∈ ms, Within a.2)
    (hrun : ms.foldlM (handle os) c₀ = .ok c) : Small c := by
  obtain ⟨-, -, hs, hi⟩ := new_ok hnew
  have hguard : Guarded (handle os) (fun _ a ↦ Within a.2) c₀ ms := .of_mem fun a ha _ ↦ hms a ha
  exact hguard.invariant (fun _ _ _ h ha hrun ↦ h.handle ha hrun) (.of_empty hs hi) hrun

theorem Bridged.neverRewinds (hnew : new os snapshotGroup incrementalGroup = .ok c₀)
    (hms : ∀ a ∈ ms, Within a.2) (h : Bridged os c₀ ms) : NeverRewinds os c₀ ms := by
  rintro ms₁ ms₂ ms₃ c₁ c₂ rfl hrun₁ hrun₂ hrec₁ hrec₂
  have hwithin : ∀ a ∈ ms₁ ++ ms₂, Within a.2 := fun a ha ↦ hms a (List.mem_append_left ms₃ ha)
  have hsmall : Small c₁ := small_of_run hnew (fun a ha ↦ hwithin a (List.mem_append_left ms₂ ha)) hrun₁
  have hguard := ((h ms₁ (ms₂ ++ ms₃) c₁ (List.append_assoc ..) hrun₁ hrec₁).append.1).and_mem
    (fun a ha ↦ hwithin a (List.mem_append_right ms₁ ha))
  obtain ⟨-, hinv⟩ := hguard.invariant
    (I := fun c ↦ Small c ∧ (c.inRecovery = false → c₁.nextExpIncSeqNum ≤ c.nextExpIncSeqNum))
    (fun c a c' ⟨hc, hinv⟩ ⟨hbridge, ha⟩ hrun ↦
      ⟨hc.handle ha hrun, hbridge.handle hc ha hinv hrun⟩) ⟨hsmall, fun _ ↦ le_rfl⟩ hrun₂
  exact hinv hrec₂

theorem NeverRewinds.bridged (hnew : new os snapshotGroup incrementalGroup = .ok c₀)
    (hms : ∀ a ∈ ms, Within a.2) (h : NeverRewinds os c₀ ms) : Bridged os c₀ ms := by
  rintro ms₁ ms₂ c₁ rfl hrun₁ hrec₁
  refine .of_prefixes fun cs₁ a cs₂ c hcs hrun hrec us last hq hus ↦ ?_
  subst hcs
  have hrun' : (ms₁ ++ cs₁).foldlM (handle os) c₀ = .ok c := by
    rw [List.foldlM_append, hrun₁]
    exact hrun
  have hc : Small c := small_of_run hnew (fun b hb ↦ hms b (by
    rw [← List.append_assoc]
    exact List.mem_append_left _ hb)) hrun'
  have hsmall : Small (c.enqueue a.1 a.2) := hc.enqueue (hms a (by simp))
  have hcheck := checkSnapshotSync_of_complete hq hus
  rw [hsmall.behind hq hus] at hcheck
  split at hcheck
  · rename_i next hinc
    exact .inr (incrementalEvents_none hsmall.ascends hinc)
  · rename_i next events hinc
    obtain ⟨-, hcovers, -, -⟩ := incrementalEvents_some hsmall.ascends hinc
    refine .inl fun n hn hreached ↦ hcovers n hn (hreached.trans_le ?_)
    have hstep : (cs₁ ++ [a]).foldlM (handle os) c₁ = .ok (c.queueMessage a.1 a.2) :=
      (foldlM_concat (handle os) c₁ cs₁ a hrun).trans (handle_inRecovery hrec)
    have hle := h ms₁ (cs₁ ++ [a]) cs₂ c₁ _ (by simp) hrun₁ hstep hrec₁ (by rw [queueMessage, hcheck])
    rwa [queueMessage, hcheck] at hle

end Rewinding

section Buffers

variable {snapshotGroup incrementalGroup : Group}

/-- The messages that the loops of the callbacks come to: a whole buffer is discarded if it holds
snapshot messages and the consumer is not in recovery. -/
def looped (os : Os) : MarketDataConsumer → List (Bool × List MDPMarketUpdate) →
    List (Bool × MDPMarketUpdate)
  | _, [] => []
  | c, received :: arrivals =>
    (if received.1 ∧ ¬ c.inRecovery then [] else received.2.map (received.1, ·)) ++
      match c.onReceived os received with
      | .ok c' => looped os c' arrivals
      | .error _ => []

theorem foldlM_looped : (looped os c arrivals).foldlM (handle os) c = arrivals.foldlM (onReceived os) c := by
  induction arrivals generalizing c with
  | nil => rfl
  | cons received arrivals ih =>
    have hstep : (if received.1 ∧ ¬ c.inRecovery then [] else
        received.2.map (received.1, ·)).foldlM (handle os) c = c.onReceived os received := by
      rw [onReceived]
      split_ifs
      · rfl
      · exact List.foldlM_map
    rw [looped, List.foldlM_append, hstep, List.foldlM_cons]
    cases hrun : c.onReceived os received with
    | error e => rfl
    | ok c' => exact ih

theorem looped_append {rest : List (Bool × List MDPMarketUpdate)}
    (hrun : arrivals.foldlM (onReceived os) c = .ok c') :
    looped os c (arrivals ++ rest) = looped os c arrivals ++ looped os c' rest := by
  induction arrivals generalizing c with
  | nil => rw [Except.ok.inj hrun, List.nil_append, looped, List.nil_append]
  | cons received arrivals ih =>
    rw [List.foldlM_cons] at hrun
    obtain ⟨c₁, hstep, hrun⟩ := bind_eq_ok hrun
    rw [List.cons_append, looped, looped, hstep, List.append_assoc]
    exact congrArg _ (ih hrun)

theorem mem_looped (ha : a ∈ looped os c arrivals) : a ∈ flat arrivals := by
  induction arrivals generalizing c with
  | nil => cases ha
  | cons received arrivals ih =>
    rw [looped] at ha
    rcases List.mem_append.mp ha with ha | ha
    · split_ifs at ha
      · cases ha
      · exact List.mem_append_left _ ha
    · split at ha
      · exact List.mem_append_right _ (ih ha)
      · cases ha

/-- As long as no number is the largest one, what a consumer expects outside of its recoveries never
decreases if and only if no snapshot leads behind it: the updates between the last one in a snapshot and
the next one expected before are queued when it is complete, or a gap keeps the consumer in recovery. -/
theorem never_rewinds_iff (hnew : new os snapshotGroup incrementalGroup = .ok c₀)
    (hwithin : ∀ a ∈ flat arrivals, Within a.2) :
    NeverRewinds os c₀ (looped os c₀ arrivals) ↔ Bridged os c₀ (looped os c₀ arrivals) := by
  have hms : ∀ a ∈ looped os c₀ arrivals, Within a.2 := fun a ha ↦ hwithin a (mem_looped ha)
  exact ⟨fun h ↦ h.bridged hnew hms, fun h ↦ h.neverRewinds hnew hms⟩

open SnapshotSynthesizer in
def quiet (lastIncSeqNum : ℕ) : List MDPMarketUpdate :=
  messages (mark .SNAPSHOT_START lastIncSeqNum :: (List.range ME_MAX_TICKERS).map clear ++
    [mark .SNAPSHOT_END lastIncSeqNum])

instance (queued : List (ℕ × MEMarketUpdate)) : DecidablePred (Covers queued) := fun n ↦
  decidable_of_iff (∃ e ∈ queued, e.1 = n ∧ isMark e.2 = false)
    ⟨fun ⟨e, he, hn, hmark⟩ ↦ ⟨e.2, hn ▸ he, hmark⟩, fun ⟨u, hu, hmark⟩ ↦ ⟨(n, u), hu, rfl, hmark⟩⟩

instance (queued : List (ℕ × MEMarketUpdate)) : DecidablePred (HasGap queued) := fun last ↦
  decidable_of_iff (∃ e ∈ queued, ∃ n < e.1, last < n ∧ ¬ Covers queued n)
    ⟨fun ⟨e, he, n, hlt, hn, hnot⟩ ↦ ⟨n, hn, hnot, e, he, hlt⟩,
      fun ⟨n, hn, hnot, e, he, hlt⟩ ↦ ⟨e, he, n, hlt, hn, hnot⟩⟩

instance (us : List MEMarketUpdate) (last : ℕ) : Decidable (Complete us last) :=
  inferInstanceAs (Decidable ((∃ u ∈ us.head?, u.type = .SNAPSHOT_START) ∧
    ∃ u ∈ us.getLast?, u.type = .SNAPSHOT_END ∧ u.orderId = last))

theorem bridges_iff {reached : ℕ} {a : Bool × MDPMarketUpdate} : Bridges reached c a ↔
    (c.inRecovery = true → ∀ u ∈ ((c.enqueue a.1 a.2).snapshotQueuedMsgs.toList.map Prod.snd).getLast?,
      (c.enqueue a.1 a.2).snapshotQueuedMsgs.toList =
        numbered 0 ((c.enqueue a.1 a.2).snapshotQueuedMsgs.toList.map Prod.snd) →
      Complete ((c.enqueue a.1 a.2).snapshotQueuedMsgs.toList.map Prod.snd) u.orderId →
        (∀ n < reached, u.orderId < n → Covers (c.enqueue a.1 a.2).incrementalQueuedMsgs.toList n) ∨
          HasGap (c.enqueue a.1 a.2).incrementalQueuedMsgs.toList u.orderId) := by
  refine forall_congr' fun _ ↦ ⟨fun h u _ hq hus ↦ ?_, fun h us last hq hus ↦ ?_⟩
  · exact (h _ _ hq hus).imp_left fun hcovers n hn hlast ↦ hcovers n hlast hn
  · have hmap : (c.enqueue a.1 a.2).snapshotQueuedMsgs.toList.map Prod.snd = us := by
      rw [hq, numbered, List.map_map]
      exact List.zipIdx_map_fst 0 us
    rw [hmap] at h
    obtain ⟨u, hu, -, rfl⟩ := hus.2
    exact (h u hu hq hus).imp_left fun hcovers n hlast hn ↦ hcovers n hn hlast

instance {reached : ℕ} {a : Bool × MDPMarketUpdate} : Decidable (Bridges reached c a) :=
  decidable_of_iff _ bridges_iff.symm

theorem bridged_of_take (h : ∀ i ≤ ms.length, Ends ((ms.take i).foldlM (handle os) c₀) (fun c₁ ↦
      c₁.inRecovery = false → Guarded (handle os) (Bridges c₁.nextExpIncSeqNum) c₁ (ms.drop i))
    fun _ ↦ True) : Bridged os c₀ ms := by
  rintro ms₁ ms₂ c₁ rfl hrun
  have hends := h ms₁.length (by simp)
  rw [List.take_left, List.drop_left] at hends
  exact hends.of_ok hrun

def bridgedArrivals : List (Bool × List MDPMarketUpdate) :=
  [(true, quiet 9), (false, [⟨8, ⟨.ADD, 7, 0, .BUY, 100, 5, 1⟩⟩, ⟨9, ⟨.CANCEL, 7, 0, .BUY, 100, 5, 1⟩⟩]),
    (true, quiet 7)]

theorem never_rewinds_iff_bridged : ∃ c, bridgedArrivals.foldlM (onReceived sameFd) started = .ok c ∧
    c.inRecovery = false ∧ c.nextExpIncSeqNum = 10 ∧
      NeverRewinds sameFd started (looped sameFd started bridgedArrivals) := by
  obtain ⟨c, hrun, hrec, hnext⟩ := Yields.exists_ok
    (show Yields (bridgedArrivals.foldlM (onReceived sameFd) started) fun c ↦
      c.inRecovery = false ∧ c.nextExpIncSeqNum = 10 by decide +kernel)
  have hnew : new sameFd ⟨"233.252.14.1", 20000⟩ ⟨"233.252.14.3", 20001⟩ = .ok started := rfl
  have hbridged : Bridged sameFd started (looped sameFd started bridgedArrivals) :=
    bridged_of_take (by decide +kernel)
  exact ⟨c, hrun, hrec, hnext, (never_rewinds_iff hnew (by decide +kernel)).mpr hbridged⟩

def late : MDPMarketUpdate := ⟨3, ⟨.ADD, 7, 0, .BUY, 100, 5, 1⟩⟩

/-- An update that is in the snapshot arrives behind it, and then an older snapshot does. -/
theorem late_update_rewinds :
    let arrivals := [(true, quiet 9), (false, [late]), (true, quiet 5)]
    ∃ c₁ c₂, (arrivals.take 1).foldlM (onReceived sameFd) started = .ok c₁ ∧ c₁.inRecovery = false ∧
      c₁.nextExpIncSeqNum = 10 ∧ (arrivals.drop 1).foldlM (onReceived sameFd) c₁ = .ok c₂ ∧
      c₂.inRecovery = false ∧ c₂.nextExpIncSeqNum = 6 ∧
      ¬ NeverRewinds sameFd started (looped sameFd started arrivals) := by
  intro arrivals
  obtain ⟨c₁, hrun₁, hrec₁, hnext₁, hyields⟩ := Yields.exists_ok
    (show Yields ((arrivals.take 1).foldlM (onReceived sameFd) started) fun c₁ ↦
      c₁.inRecovery = false ∧ c₁.nextExpIncSeqNum = 10 ∧
        Yields ((arrivals.drop 1).foldlM (onReceived sameFd) c₁) fun c₂ ↦
          c₂.inRecovery = false ∧ c₂.nextExpIncSeqNum = 6 by decide +kernel)
  obtain ⟨c₂, hrun₂, hrec₂, hnext₂⟩ := hyields.exists_ok
  refine ⟨c₁, c₂, hrun₁, hrec₁, hnext₁, hrun₂, hrec₂, hnext₂, fun h ↦ ?_⟩
  have hle := h (looped sameFd started (arrivals.take 1)) (looped sameFd c₁ (arrivals.drop 1)) [] c₁ c₂
    ((looped_append hrun₁).trans (List.append_nil _).symm) (foldlM_looped.trans hrun₁)
    (foldlM_looped.trans hrun₂) hrec₁ hrec₂
  rw [hnext₁, hnext₂] at hle
  exact absurd hle (by decide)

end Buffers

end LowLatency.Trading.MarketDataConsumer
