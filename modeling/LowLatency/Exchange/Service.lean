import LowLatency.Exchange.MatchingEngine

namespace LowLatency.Exchange

open Common Book Function MEOrderBook MatchingEngine

instance (s : MEOrderBook) (a : Ladder MEOrderKey) (o : NewOrder) : Decidable (s.NoRoom a o) :=
  inferInstanceAs (Decidable (_ ∨ _ ∧ _ ∨ ¬ _))

/-- The ids of the request are in range, and it is a NEW or a CANCEL for one of the two sides. -/
def MEClientRequest.InRange (r : MEClientRequest) : Prop :=
  (r.type = .NEW ∨ r.type = .CANCEL) ∧ r.tickerId < ME_MAX_TICKERS ∧ r.clientId < ME_MAX_NUM_CLIENTS ∧
    r.orderId < ME_MAX_ORDER_IDS ∧ r.side ≠ .INVALID

instance : DecidablePred MEClientRequest.InRange := fun _ ↦ inferInstanceAs (Decidable (_ ∧ _))

namespace MatchingEngine

variable {e e' : MatchingEngine} {r : MEClientRequest} {rs : List MEClientRequest}

/-- The request is processed. A NEW is first of all accepted, a CANCEL carried out or rejected
once. -/
def Serves (e : MatchingEngine) (r : MEClientRequest) : Prop :=
  ∃ e' outs, e.processClientRequest r = .ok e' ∧ e'.outgoing = e.outgoing ++ outs ∧
    (r.type = .NEW → ∃ acc, (responses outs).head? = some acc ∧ acc.type = .ACCEPTED ∧
      acc.clientId = r.clientId ∧ acc.clientOrderId = r.orderId) ∧
    (r.type = .CANCEL → ∃ res, (responses outs).filter (fun res ↦
      res.type = .CANCELED ∨ res.type = .CANCEL_REJECTED) = [res] ∧ res.clientId = r.clientId)

def ServesAll (rs : List MEClientRequest) : Prop :=
  (∃ e, new.run rs = .ok e) ∧
  ∀ rs₁ r rs₂, rs = rs₁ ++ r :: rs₂ → ∃ e, new.run rs₁ = .ok e ∧ e.Serves r

/-- The request is in range, and if it is a NEW whose order comes to rest, the book admits the order
and has room for it. -/
def HasRoom (e : MatchingEngine) (r : MEClientRequest) : Prop :=
  let s := e.tickerOrderBook r.tickerId
  r.InRange ∧ (r.type = .NEW → s.Admitted (.add r.newOrder) ∧
    (s.ladder.Rests r.side r.price r.qty → ¬ s.NoRoom s.ladder r.newOrder))

instance : DecidableRel HasRoom := fun _ _ ↦ inferInstanceAs (Decidable (_ ∧ (_ → _ ∧ _)))

theorem serves_new (hs : ∀ t, (e.tickerOrderBook t).Sound) (h : e.HasRoom r) (hnew : r.type = .NEW) :
    ∃ e', e.processClientRequest r = .ok e' ∧ (∀ t, (e'.tickerOrderBook t).Sound) ∧ e.Serves r := by
  obtain ⟨⟨-, ht, -⟩, hroom⟩ := h
  obtain ⟨hadm, hroom⟩ := hroom hnew
  have hproc : e.processClientRequest r = e.call r.tickerId (.add r.newOrder) := by
    simp only [processClientRequest, if_pos ht, hnew]
  cases hstep : (e.tickerOrderBook r.tickerId).step (.add r.newOrder) with
  | error halt =>
    obtain ⟨hr, -, hno, -⟩ := add_error (hs _) hadm hstep
    exact absurd hno (hroom hr)
  | ok s =>
    have hcall : e.call r.tickerId (.add r.newOrder) = .ok ⟨update e.tickerOrderBook r.tickerId s,
        e.outgoing ++ (e.tickerOrderBook r.tickerId).outputsOf (.add r.newOrder)⟩ := by
      simp only [call, hstep]
    refine ⟨_, hproc.trans hcall, fun t ↦ ?_, _, _, hproc.trans hcall, rfl, fun _ ↦ ?_, ?_⟩
    · change (update e.tickerOrderBook r.tickerId s t).Sound
      rw [update_apply]
      split_ifs
      · exact (hs _).step hadm hstep
      · exact hs t
    · rcases outputsOf_add (hs _) hadm with hout | hout <;> rw [hout] <;> exact ⟨_, rfl, rfl, rfl, rfl⟩
    · intro hc
      cases hnew.symm.trans hc

theorem new_of_ne_cancel (h : e.HasRoom r ∧ r.type ≠ .CANCEL) : r.type = .NEW :=
  h.1.1.1.resolve_right h.2

theorem serves_all (hg : Guarded processClientRequest HasRoom new rs) :
    ServesAll rs ↔ ∀ r ∈ rs, r.type ≠ .CANCEL := by
  constructor
  · rintro ⟨-, hall⟩ r hr hc
    obtain ⟨rs₁, rs₂, hrs⟩ := List.append_of_mem hr
    obtain ⟨e, -, e', outs, hrun, -⟩ := hall rs₁ r rs₂ hrs
    exact cancel_exits hc hrun
  · intro hc
    have hg' := hg.and_mem hc
    have hstep : ∀ (e : MatchingEngine) (r : MEClientRequest), (∀ t, (e.tickerOrderBook t).Sound) →
        e.HasRoom r ∧ r.type ≠ .CANCEL →
        ∃ e', e.processClientRequest r = .ok e' ∧ ∀ t, (e'.tickerOrderBook t).Sound :=
      fun e r hs h ↦ by
        obtain ⟨e', hrun, hs', -⟩ := serves_new hs h.1 (new_of_ne_cancel h)
        exact ⟨e', hrun, hs'⟩
    refine ⟨?_, fun rs₁ r rs₂ hrs ↦ ?_⟩
    · obtain ⟨e, hrun, -⟩ := hg'.returns hstep sound_new
      exact ⟨e, hrun⟩
    · subst hrs
      obtain ⟨h₁, h₂⟩ := hg'.append
      obtain ⟨e, hrun, hs⟩ := h₁.returns hstep sound_new
      have h := (h₂ e hrun).head
      obtain ⟨-, -, -, hserves⟩ := serves_new hs h.1 (new_of_ne_cancel h)
      exact ⟨e, hrun, hserves⟩

theorem serves_all_new : ServesAll [⟨.NEW, 1, 0, 1, .SELL, 100, 10⟩, ⟨.NEW, 2, 3, 1, .BUY, 7, 5⟩,
    ⟨.NEW, 2, 0, 2, .BUY, 100, 4⟩] :=
  (serves_all (by decide +kernel)).mpr (by decide)

/-- A NEW is served, and the CANCEL of its order ends the process. -/
theorem cancel_not_served : ∃ e, new.run [⟨.NEW, 0, 0, 1, .BUY, 100, 10⟩] = .ok e ∧
    ¬ e.Serves ⟨.CANCEL, 0, 0, 1, .BUY, 100, 10⟩ := by
  obtain ⟨e, he⟩ : ∃ e, new.run [⟨.NEW, 0, 0, 1, .BUY, 100, 10⟩] = .ok e := exists_ok (by decide +kernel)
  exact ⟨e, he, fun ⟨_, _, hrun, _⟩ ↦ cancel_exits rfl hrun⟩

end MatchingEngine

end LowLatency.Exchange
