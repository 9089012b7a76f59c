import LowLatency.Trading.OrderSession

namespace LowLatency.Trading

open Common Exchange OrderManager

/-- A slot of the order manager and all that is on its way or open for its ticker and side. Refused
cancels name no side, and nothing comes of them. -/
@[ext] structure Lane where
  order : OMOrder
  news : List MEClientRequest
  cancels : List MEClientRequest
  opens : List OpenOrder
  resps : List MEClientResponse

section Follows

/-- The responses `resps` tell of order `id`, of which the order manager knows that `qty` is left, what
has become of it at the exchange. Whether it can have been canceled is told by `canceled`. -/
inductive Follows (canceled : Bool) (id : OrderId) :
    Qty → List MEClientResponse → List OpenOrder → Prop
  | resting (o : OpenOrder) (ho : o.orderId = id) : Follows canceled id o.leavesQty [] [o]
  | empty : Follows canceled id 0 [] []
  | fill {qty : Qty} {r : MEClientResponse} {resps : List MEClientResponse} {opens : List OpenOrder}
      (ht : r.type = .FILLED) (hid : r.clientOrderId = id) (hqty : r.execQty + r.leavesQty = qty)
      (h0 : r.leavesQty ≠ 0) (h : Follows canceled id r.leavesQty resps opens) :
      Follows canceled id qty (r :: resps) opens
  | filled {qty : Qty} {r : MEClientResponse} (ht : r.type = .FILLED) (hid : r.clientOrderId = id)
      (hqty : r.execQty = qty) (h0 : r.leavesQty = 0) : Follows canceled id qty [r] []
  | canceled {qty : Qty} {r : MEClientResponse} (hc : canceled = true) (ht : r.type = .CANCELED)
      (hid : r.clientOrderId = id) : Follows canceled id qty [r] []

variable {canceled : Bool} {id : OrderId} {qty : Qty} {r : MEClientResponse}
  {resps : List MEClientResponse} {opens : List OpenOrder} {o : OpenOrder}

namespace Follows

theorem opens_id (h : Follows canceled id qty resps opens) : ∀ o ∈ opens, o.orderId = id := by
  induction h with
  | resting o ho => simpa using ho
  | fill _ _ _ _ _ ih => exact ih
  | empty | filled | canceled => simp

theorem resps_id (h : Follows canceled id qty resps opens) : ∀ r ∈ resps, r.clientOrderId = id := by
  induction h with
  | resting | empty => simp
  | fill _ hid _ _ _ ih => exact List.forall_mem_cons.mpr ⟨hid, ih⟩
  | filled _ hid => simpa using hid
  | canceled _ _ hid => simpa using hid

theorem length_opens (h : Follows canceled id qty resps opens) : opens.length ≤ 1 := by
  induction h with
  | fill _ _ _ _ _ ih => exact ih
  | resting | empty | filled | canceled => simp

theorem eq_singleton (h : Follows canceled id qty resps opens) (ho : o ∈ opens) : opens = [o] := by
  obtain ⟨o', rfl⟩ := List.length_eq_one_iff.mp
    (h.length_opens.antisymm (List.length_pos_of_mem ho))
  rw [List.mem_singleton.mp ho]

theorem cancel (h : Follows canceled id qty resps opens) : Follows true id qty resps opens := by
  induction h with
  | resting o ho => exact .resting o ho
  | empty => exact .empty
  | fill ht hid hqty h0 _ ih => exact .fill ht hid hqty h0 ih
  | filled ht hid hqty h0 => exact .filled ht hid hqty h0
  | canceled _ ht hid => exact .canceled rfl ht hid

theorem exec (h : Follows canceled id qty resps [o]) (ht : r.type = .FILLED)
    (hid : r.clientOrderId = o.orderId) (hqty : r.execQty + r.leavesQty = o.leavesQty) :
    Follows canceled id qty (resps ++ [r])
      (if r.leavesQty = 0 then [] else [{ o with leavesQty := r.leavesQty }]) := by
  generalize hopens : [o] = opens at h
  induction h with
  | resting o' ho =>
    cases hopens
    by_cases h0 : r.leavesQty = 0
    · rw [if_pos h0]
      exact .filled ht (hid.trans ho) (by rwa [h0, add_zero] at hqty) h0
    · rw [if_neg h0]
      exact .fill ht (hid.trans ho) hqty h0 (.resting { o with leavesQty := r.leavesQty } ho)
  | fill ht' hid' hqty' h0' _ ih => exact .fill ht' hid' hqty' h0' (ih hopens)
  | empty | filled | canceled => cases hopens

theorem close (h : Follows true id qty resps [o]) (ht : r.type = .CANCELED)
    (hid : r.clientOrderId = o.orderId) : Follows true id qty (resps ++ [r]) [] := by
  generalize hopens : [o] = opens at h
  induction h with
  | resting o' ho =>
    cases hopens
    exact .canceled rfl ht (hid.trans ho)
  | fill ht' hid' hqty' h0' _ ih => exact .fill ht' hid' hqty' h0' (ih hopens)
  | empty | filled | canceled => cases hopens

theorem deliver (h : Follows canceled id qty (r :: resps) opens) :
    (r.type = .FILLED ∧ r.leavesQty ≠ 0 ∧ r.execQty + r.leavesQty = qty ∧
      Follows canceled id r.leavesQty resps opens) ∨
    ((r.type = .FILLED ∧ r.leavesQty = 0 ∧ r.execQty = qty ∨ r.type = .CANCELED) ∧
      resps = [] ∧ opens = []) := by
  cases h with
  | fill ht _ hqty h0 h => exact .inl ⟨ht, h0, hqty, h⟩
  | filled ht _ hqty h0 => exact .inr ⟨.inl ⟨ht, h0, hqty⟩, rfl, rfl⟩
  | canceled _ ht => exact .inr ⟨.inr ht, rfl, rfl⟩

end Follows

end Follows

def execSum (resps : List MEClientResponse) : Qty :=
  ((resps.filter (·.type = .FILLED)).map (·.execQty)).sum

def leavesSum (opens : List OpenOrder) : Qty := (opens.map (·.leavesQty)).sum

theorem Follows.sum_le {canceled : Bool} {id : OrderId} {qty : Qty} {resps : List MEClientResponse}
    {opens : List OpenOrder} (h : Follows canceled id qty resps opens) :
    execSum resps + leavesSum opens ≤ qty := by
  induction h with
  | resting => simp [execSum, leavesSum]
  | empty => simp [execSum, leavesSum]
  | fill ht _ hqty _ _ ih =>
    simp only [execSum, List.filter_cons, ht, decide_true, if_true, List.map_cons,
      List.sum_cons] at ih ⊢
    rw [← hqty, add_assoc]
    exact Nat.add_le_add_left ih _
  | filled ht _ hqty => simp [execSum, leavesSum, ht, hqty]
  | canceled _ ht => simp [execSum, leavesSum, ht]

namespace Lane

/-- How far the order of the slot has come. -/
inductive Phase (l : Lane) : Prop
  | idle (hstate : l.order.orderState = .INVALID ∨ l.order.orderState = .DEAD) (hnews : l.news = [])
      (hopens : l.opens = []) (hresps : l.resps = [])
  | sent {r : MEClientRequest} (hstate : l.order.orderState = .PENDING_NEW) (hnews : l.news = [r])
      (hid : r.orderId = l.order.orderId) (hqty : r.qty = l.order.qty) (hopens : l.opens = [])
      (hresps : l.resps = [])
  | accepted {r : MEClientResponse} {resps : List MEClientResponse}
      (hstate : l.order.orderState = .PENDING_NEW) (hnews : l.news = []) (hresps : l.resps = r :: resps)
      (ht : r.type = .ACCEPTED) (hid : r.clientOrderId = l.order.orderId)
      (h : Follows false l.order.orderId l.order.qty resps l.opens)
  | live (hstate : l.order.orderState = .LIVE) (hnews : l.news = [])
      (h : Follows false l.order.orderId l.order.qty l.resps l.opens)
  | canceling (hstate : l.order.orderState = .PENDING_CANCEL) (hnews : l.news = [])
      (h : Follows true l.order.orderId l.order.qty l.resps l.opens)

structure Sound (tickerId : TickerId) (side : Side) (l : Lane) : Prop where
  named : l.order.orderState ≠ .INVALID → l.order.tickerId = tickerId ∧ l.order.side = side
  phase : l.Phase
  cancels : ∀ r ∈ l.cancels, r.orderId = l.order.orderId →
    l.order.orderState = .PENDING_CANCEL ∨ l.order.orderState = .DEAD

/-- What can happen to a lane. New orders take fresh ids. In a strict session no order is sent without
a quantity, and a cancel is refused only if the order is not open. -/
inductive Step (strict : Prop) (fresh : OrderId → Prop) (tickerId : TickerId) (side : Side) :
    Lane → Lane → Prop
  | submit {l : Lane} {order : OMOrder} {r : MEClientRequest}
      (hidle : l.order.orderState = .INVALID ∨ l.order.orderState = .DEAD)
      (hstate : order.orderState = .PENDING_NEW) (hkey : order.tickerId = tickerId ∧ order.side = side)
      (hid : r.orderId = order.orderId) (hqty : r.qty = order.qty) (hfresh : fresh order.orderId)
      (hcancels : ∀ c ∈ l.cancels, c.orderId ≠ order.orderId) (hstrict : strict → order.qty ≠ 0) :
      Step strict fresh tickerId side l { l with order := order, news := l.news ++ [r] }
  | cancel {l : Lane} {r : MEClientRequest} (hlive : l.order.orderState = .LIVE)
      (hid : r.orderId = l.order.orderId) :
      Step strict fresh tickerId side l
        { l with order := { l.order with orderState := .PENDING_CANCEL }, cancels := l.cancels ++ [r] }
  | accept {l : Lane} {r : MEClientRequest} {news : List MEClientRequest} {resp : MEClientResponse}
      {opened : List OpenOrder} (hnews : l.news = r :: news) (ht : resp.type = .ACCEPTED)
      (hid : resp.clientOrderId = r.orderId) (hopened : opened = [] ∧ r.qty = 0 ∨
        ∃ o : OpenOrder, opened = [o] ∧ o.orderId = r.orderId ∧ o.leavesQty = r.qty) :
      Step strict fresh tickerId side l
        { l with news := news, opens := l.opens ++ opened, resps := l.resps ++ [resp] }
  | refuse {l : Lane} {r : MEClientRequest} {cancels : List MEClientRequest}
      (hcancels : l.cancels = r :: cancels) (hstrict : strict → ∀ o ∈ l.opens, o.orderId ≠ r.orderId) :
      Step strict fresh tickerId side l { l with cancels := cancels }
  | close {l : Lane} {r : MEClientRequest} {cancels : List MEClientRequest} {o : OpenOrder}
      {resp : MEClientResponse} (hcancels : l.cancels = r :: cancels) (hopens : l.opens = [o])
      (ho : o.orderId = r.orderId) (ht : resp.type = .CANCELED) (hid : resp.clientOrderId = r.orderId) :
      Step strict fresh tickerId side l
        { l with cancels := cancels, opens := [], resps := l.resps ++ [resp] }
  | exec {l : Lane} {o : OpenOrder} (resp : MEClientResponse) (hopens : l.opens = [o])
      (ht : resp.type = .FILLED) (hid : resp.clientOrderId = o.orderId)
      (hqty : resp.execQty + resp.leavesQty = o.leavesQty) :
      Step strict fresh tickerId side l
        { l with
          opens := if resp.leavesQty = 0 then [] else [{ o with leavesQty := resp.leavesQty }]
          resps := l.resps ++ [resp] }
  | deliver {l : Lane} {r : MEClientResponse} {resps : List MEClientResponse}
      (hresps : l.resps = r :: resps) :
      Step strict fresh tickerId side l { l with order := applyResponse l.order r, resps := resps }

def Names (l : Lane) (id : OrderId) : Prop :=
  l.order.orderState ≠ .INVALID ∧ l.order.orderId = id ∨ ∃ r ∈ l.cancels, r.orderId = id

section Sound

variable {strict : Prop} {fresh : OrderId → Prop} {tickerId : TickerId} {side : Side} {l l' : Lane}
  {o : OpenOrder} {r : MEClientResponse}

namespace Phase

theorem of_idle (h : l.Phase) (hidle : l.order.orderState = .INVALID ∨ l.order.orderState = .DEAD) :
    l.news = [] ∧ l.opens = [] ∧ l.resps = [] := by
  cases h with
  | idle _ hnews hopens hresps => exact ⟨hnews, hopens, hresps⟩
  | sent hstate | accepted hstate | live hstate | canceling hstate => simp [hstate] at hidle

/-- An open order is the only one, is that of the slot, and is not given up there. -/
theorem of_open (h : l.Phase) (ho : o ∈ l.opens) : l.opens = [o] ∧ o.orderId = l.order.orderId ∧
    l.order.orderState ≠ .INVALID ∧ l.order.orderState ≠ .DEAD := by
  cases h with
  | idle _ _ hopens => simp [hopens] at ho
  | sent _ _ _ _ hopens => simp [hopens] at ho
  | accepted hstate _ _ _ _ h => exact ⟨h.eq_singleton ho, h.opens_id o ho, by simp [hstate]⟩
  | live hstate _ h => exact ⟨h.eq_singleton ho, h.opens_id o ho, by simp [hstate]⟩
  | canceling hstate _ h => exact ⟨h.eq_singleton ho, h.opens_id o ho, by simp [hstate]⟩

theorem of_resp (h : l.Phase) (hr : r ∈ l.resps) : r.clientOrderId = l.order.orderId := by
  cases h with
  | idle _ _ _ hresps => simp [hresps] at hr
  | sent _ _ _ _ _ hresps => simp [hresps] at hr
  | accepted _ _ hresps _ hid h =>
    rw [hresps] at hr
    rcases List.mem_cons.mp hr with rfl | hr
    · exact hid
    · exact h.resps_id r hr
  | live _ _ h => exact h.resps_id r hr
  | canceling _ _ h => exact h.resps_id r hr

theorem of_cancels (h : l.Phase) (cancels : List MEClientRequest) :
    Phase { l with cancels := cancels } := by
  cases h with
  | idle hstate hnews hopens hresps => exact .idle hstate hnews hopens hresps
  | sent hstate hnews hid hqty hopens hresps => exact .sent hstate hnews hid hqty hopens hresps
  | accepted hstate hnews hresps ht hid hf => exact .accepted hstate hnews hresps ht hid hf
  | live hstate hnews hf => exact .live hstate hnews hf
  | canceling hstate hnews hf => exact .canceling hstate hnews hf

end Phase

namespace Sound

theorem accept (h : l.Sound tickerId side) {r : MEClientRequest} {news : List MEClientRequest}
    {resp : MEClientResponse} {opened : List OpenOrder} (hnews : l.news = r :: news)
    (ht : resp.type = .ACCEPTED) (hid : resp.clientOrderId = r.orderId) (hopened : opened = [] ∧ r.qty = 0 ∨
      ∃ o : OpenOrder, opened = [o] ∧ o.orderId = r.orderId ∧ o.leavesQty = r.qty) :
    Sound tickerId side
      { l with news := news, opens := l.opens ++ opened, resps := l.resps ++ [resp] } := by
  refine ⟨h.named, ?_, h.cancels⟩
  cases h.phase with
  | sent hstate hnews' hid' hqty hopens hresps =>
    obtain ⟨rfl, rfl⟩ := List.cons.inj (hnews.symm.trans hnews')
    refine .accepted hstate rfl (by rw [hresps]; rfl) ht (hid.trans hid') ?_
    rw [hopens, List.nil_append, ← hqty]
    rcases hopened with ⟨rfl, h0⟩ | ⟨o, rfl, ho, hleaves⟩
    · rw [h0]
      exact .empty
    · rw [← hleaves]
      exact .resting o (ho.trans hid')
  | idle _ hnews' | accepted _ hnews' | live _ hnews' | canceling _ hnews' =>
    simp [hnews'] at hnews

theorem close (h : l.Sound tickerId side) {r : MEClientRequest} {cancels : List MEClientRequest}
    {resp : MEClientResponse} (hcancels : l.cancels = r :: cancels) (hopens : l.opens = [o])
    (ho : o.orderId = r.orderId) (ht : resp.type = .CANCELED) (hid : resp.clientOrderId = r.orderId) :
    Sound tickerId side { l with cancels := cancels, opens := [], resps := l.resps ++ [resp] } := by
  have hrest : ∀ c ∈ cancels, c ∈ l.cancels := fun c hc ↦ by simp [hcancels, hc]
  refine ⟨h.named, ?_, fun c hc ↦ h.cancels c (hrest c hc)⟩
  obtain ⟨-, hslot, -, hdead⟩ := h.phase.of_open (o := o) (by simp [hopens])
  -- the request for this cancel shows how far the order has come
  have hstate := (h.cancels r (by simp [hcancels]) (ho.symm.trans hslot)).resolve_right hdead
  cases h.phase with
  | canceling _ hnews h =>
    rw [hopens] at h
    exact .canceling hstate hnews (h.close ht (hid.trans ho.symm))
  | idle hstate' => simp [hstate] at hstate'
  | sent hstate' | accepted hstate' | live hstate' => simp [hstate] at hstate'

theorem exec (h : l.Sound tickerId side) {resp : MEClientResponse} (hopens : l.opens = [o])
    (ht : resp.type = .FILLED) (hid : resp.clientOrderId = o.orderId)
    (hqty : resp.execQty + resp.leavesQty = o.leavesQty) :
    Sound tickerId side
      { l with
        opens := if resp.leavesQty = 0 then [] else [{ o with leavesQty := resp.leavesQty }]
        resps := l.resps ++ [resp] } := by
  refine ⟨h.named, ?_, h.cancels⟩
  cases h.phase with
  | accepted hstate hnews hresps ht' hid' h =>
    rw [hopens] at h
    exact .accepted hstate hnews (by rw [hresps]; rfl) ht' hid' (h.exec ht hid hqty)
  | live hstate hnews h =>
    rw [hopens] at h
    exact .live hstate hnews (h.exec ht hid hqty)
  | canceling hstate hnews h =>
    rw [hopens] at h
    exact .canceling hstate hnews (h.exec ht hid hqty)
  | idle _ _ hopens' => simp [hopens'] at hopens
  | sent _ _ _ _ hopens' => simp [hopens'] at hopens

theorem dead (h : l.Sound tickerId side) (hnews : l.news = []) (hopens : l.opens = [])
    (hstate : l.order.orderState ≠ .INVALID)
    (hr : r.type = .FILLED ∧ r.leavesQty = 0 ∨ r.type = .CANCELED) :
    Sound tickerId side { l with order := applyResponse l.order r, resps := [] } := by
  obtain ⟨hticker, hside, -⟩ := applyResponse_frame l.order r
  have hdead : (applyResponse l.order r).orderState = .DEAD := by
    rcases hr with ⟨ht, h0⟩ | ht
    · rw [applyResponse_filled ht h0]
    · rw [applyResponse_canceled ht]
  refine ⟨fun _ ↦ ?_, .idle (.inr hdead) hnews hopens rfl, fun _ _ _ ↦ .inr hdead⟩
  rw [hticker, hside]
  exact h.named hstate

theorem deliver (h : l.Sound tickerId side) {resps : List MEClientResponse}
    (hresps : l.resps = r :: resps) :
    Sound tickerId side { l with order := applyResponse l.order r, resps := resps } := by
  have hclosed : ∀ {qty : Qty},
      (r.type = .FILLED ∧ r.leavesQty = 0 ∧ r.execQty = qty ∨ r.type = .CANCELED) →
      r.type = .FILLED ∧ r.leavesQty = 0 ∨ r.type = .CANCELED :=
    fun hr ↦ hr.imp_left fun hr ↦ ⟨hr.1, hr.2.1⟩
  cases h.phase with
  | accepted hstate hnews hresps' ht hid hf =>
    obtain ⟨rfl, rfl⟩ := List.cons.inj (hresps.symm.trans hresps')
    rw [applyResponse_accepted ht]
    refine ⟨fun _ ↦ h.named (by simp [hstate]), .live rfl hnews hf, fun c hc hid ↦ ?_⟩
    have := h.cancels c hc hid
    simp [hstate] at this
  | live hstate hnews hf =>
    rw [hresps] at hf
    rcases hf.deliver with ⟨ht, h0, -, hf⟩ | ⟨hr, rfl, hopens⟩
    · rw [applyResponse_fill ht h0]
      exact ⟨h.named, .live hstate hnews hf, h.cancels⟩
    · exact h.dead hnews hopens (by simp [hstate]) (hclosed hr)
  | canceling hstate hnews hf =>
    rw [hresps] at hf
    rcases hf.deliver with ⟨ht, h0, -, hf⟩ | ⟨hr, rfl, hopens⟩
    · rw [applyResponse_fill ht h0]
      exact ⟨h.named, .canceling hstate hnews hf, h.cancels⟩
    · exact h.dead hnews hopens (by simp [hstate]) (hclosed hr)
  | idle _ _ _ hresps' => simp [hresps'] at hresps
  | sent _ _ _ _ _ hresps' => simp [hresps'] at hresps

theorem step (h : l.Sound tickerId side) (hs : Step strict fresh tickerId side l l') :
    l'.Sound tickerId side := by
  cases hs with
  | submit hidle hstate hkey hid hqty _ hcancels =>
    obtain ⟨hnews, hopens, hresps⟩ := h.phase.of_idle hidle
    refine ⟨fun _ ↦ hkey, .sent hstate (by rw [hnews]; rfl) hid hqty hopens hresps, fun c hc hid ↦ ?_⟩
    exact absurd hid (hcancels c hc)
  | cancel hlive =>
    refine ⟨fun _ ↦ h.named (by simp [hlive]), ?_, fun _ _ _ ↦ .inl rfl⟩
    cases h.phase with
    | live _ hnews hf => exact .canceling rfl hnews hf.cancel
    | idle hstate => simp [hlive] at hstate
    | sent hstate | accepted hstate | canceling hstate => simp [hlive] at hstate
  | accept hnews ht hid hopened => exact h.accept hnews ht hid hopened
  | refuse hcancels =>
    exact ⟨h.named, h.phase.of_cancels _, fun c hc ↦ h.cancels c (by simp [hcancels, hc])⟩
  | close hcancels hopens ho ht hid => exact h.close hcancels hopens ho ht hid
  | exec _ hopens ht hid hqty => exact h.exec hopens ht hid hqty
  | deliver hresps => exact h.deliver hresps

end Sound

theorem Names.step {id : OrderId} (h : l.Sound tickerId side)
    (hs : Step strict fresh tickerId side l l') (hid : l'.Names id) : l.Names id ∨ fresh id := by
  cases hs with
  | submit _ _ _ _ _ hfresh =>
    rcases hid with ⟨-, rfl⟩ | hc
    · exact .inr hfresh
    · exact .inl (.inr hc)
  | cancel hlive hid' =>
    have hstate : l.order.orderState ≠ .INVALID := by simp [hlive]
    rcases hid with ⟨-, rfl⟩ | ⟨c, hc, rfl⟩
    · exact .inl (.inl ⟨hstate, rfl⟩)
    · rcases List.mem_append.mp hc with hc | hc
      · exact .inl (.inr ⟨c, hc, rfl⟩)
      · rw [List.mem_singleton.mp hc, hid']
        exact .inl (.inl ⟨hstate, rfl⟩)
  | accept => exact .inl hid
  | refuse hcancels =>
    exact .inl (hid.imp_right fun ⟨c, hc, hid⟩ ↦ ⟨c, by simp [hcancels, hc], hid⟩)
  | close hcancels =>
    exact .inl (hid.imp_right fun ⟨c, hc, hid⟩ ↦ ⟨c, by simp [hcancels, hc], hid⟩)
  | exec => exact .inl hid
  | @deliver r resps hresps =>
    rcases hid with ⟨-, hid⟩ | hc
    · refine .inl (.inl ⟨fun hstate ↦ ?_, (applyResponse_frame _ r).2.2.symm.trans hid⟩)
      simp [(h.phase.of_idle (.inl hstate)).2.2] at hresps
    · exact .inl (.inr hc)

end Sound

end Lane

end LowLatency.Trading
