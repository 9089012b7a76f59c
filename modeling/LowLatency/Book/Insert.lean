import LowLatency.Book.Represents

namespace LowLatency.Book

open Common Function LinkedRing LevelBook

variable {κ τ : Type} {b : LevelBook κ τ} {a : Ladder κ} {side : Side} {l : Level κ}
  {ls : List (Level κ)}

theorem findTarget_tail {price : Price} {stop c : Ptr} {cs : List Ptr} (fuel : ℕ)
    (h : (c :: cs ++ [stop]).IsChain (Neighbours b.nextEntry b.prevEntry))
    (hs : stop ∉ c :: cs) (hafter : ∀ q ∈ c :: cs, addAfter side price (b.levelPrice q))
    (hn : cs.length + 1 < fuel) :
    b.findTarget side price stop fuel c true = .ok (stop, true) := by
  induction cs generalizing c fuel with
  | nil =>
    obtain ⟨fuel, rfl⟩ : ∃ n, fuel = n + 2 := ⟨fuel - 2, by simp at hn; omega⟩
    have hc : c ≠ stop := fun e ↦ hs (e ▸ List.mem_cons_self)
    have hnext := (List.isChain_pair.mp h).1
    simp [findTarget, hc, hafter c List.mem_cons_self, hnext]
  | cons d cs ih =>
    cases fuel with
    | zero => simp at hn
    | succ fuel =>
      obtain ⟨hcd, h'⟩ := List.isChain_cons_cons.mp h
      have hc : c ≠ stop := fun e ↦ hs (e ▸ List.mem_cons_self)
      rw [findTarget, if_pos (by simp [hc]), if_pos (hafter c List.mem_cons_self), hcd.1, deref_some,
        ok_bind]
      exact ih fuel h' (fun hm ↦ hs (List.mem_cons_of_mem c hm))
        (fun q hq ↦ hafter q (List.mem_cons_of_mem c hq)) (by simpa using hn)

theorem searchTarget_tail {price : Price} {m : Level κ} (h : SideRep b side (m :: ls))
    (hafter : ∀ l ∈ m :: ls, addAfter side price l.price)
    (hlen : ls.length ≤ b.ordersAtPricePool.size) :
    b.searchTarget side price m.ptr = .ok (m.ptr, true) := by
  have hprice : ∀ q ∈ (m :: ls).map Level.ptr, addAfter side price (b.levelPrice q) := by
    intro q hq
    obtain ⟨l, hl, rfl⟩ := List.mem_map.mp hq
    rw [(h.level_rep l hl).price_eq]
    exact hafter l hl
  have hring := h.ring
  have hd := h.levels_nodup
  rw [List.map_cons] at hring hd hprice
  have hm := hprice m.ptr List.mem_cons_self
  cases ls with
  | nil =>
    have hnext : b.nextEntry m.ptr = some m.ptr := (isRing_singleton.mp hring).1
    rw [searchTarget, if_pos hm, hnext, deref_some, ok_bind, hm, findTarget]
    simp
  | cons l ls =>
    have hl := hprice l.ptr (by simp)
    rw [searchTarget, if_pos hm, hring.next_head, deref_some, ok_bind, hl]
    refine findTarget_tail _ (List.isChain_cons_cons.mp (isRing_cons.mp hring)).2
      (List.nodup_cons.mp hd).1 (fun q hq ↦ hprice q (List.mem_cons_of_mem _ hq)) ?_
    simp only [List.length_cons, List.length_map] at hlen ⊢
    omega

theorem linkAfter_eq (b : LevelBook κ τ) (l best target : Ptr) : b.linkAfter l best target =
    (if target = best then deref (b.prevEntry best) else .ok target) >>= fun t ↦
      deref ((b.setPrevEntry l (some t)).nextEntry t) >>= fun next ↦
        let b₁ := (b.setPrevEntry l (some t)).setPrevEntry next (some l)
        .ok ((b₁.setNextEntry l (b₁.nextEntry t)).setNextEntry t (some l)) := by
  unfold linkAfter
  split <;> rfl

theorem linkAfter_tail {m : Level κ} {n : Ptr} (h : SideRep b side (m :: ls))
    (hn : n ∉ (m :: ls).map Level.ptr) :
    ∃ b', b.linkAfter n m.ptr m.ptr = .ok b' ∧ LevelFrame b b' side ∧ b'.best = b.best ∧
      IsRing b'.nextEntry b'.prevEntry ((m :: ls).map Level.ptr ++ [n]) ∧
      ∀ q, q ∉ (m :: ls).map Level.ptr → q ≠ n →
        b'.nextEntry q = b.nextEntry q ∧ b'.prevEntry q = b.prevEntry q := by
  have hring := h.ring
  have hd := h.levels_nodup
  rw [List.map_cons] at hring hd hn ⊢
  obtain ⟨z, hz, hzm⟩ := hring.exists_prev (x := m.ptr) (by simp)
  let b' := (((b.setPrevEntry n (some z)).setPrevEntry m.ptr (some n)).setNextEntry n
    (some m.ptr)).setNextEntry z (some n)
  have hrun : b.linkAfter n m.ptr m.ptr = .ok b' := by simp [linkAfter, hzm.2, hzm.1, b']
  have hn' : b'.nextEntry = update (update b.nextEntry n (some m.ptr)) z (some n) := by simp [b']
  have hp' : b'.prevEntry = update (update b.prevEntry n (some z)) m.ptr (some n) := by simp [b']
  refine ⟨b', hrun, ?_, by simp [b'], ?_, ?_⟩
  · constructor <;> simp [b']
  · rw [hn', hp']
    exact hring.concat_update hd hzm hn hz
  · intro q hq hqn
    have hqz : q ≠ z := fun e ↦ hq (e ▸ hz)
    have hqm : q ≠ m.ptr := fun e ↦ hq (e ▸ List.mem_cons_self)
    simp [hn', hp', hqn, hqz, hqm]

theorem addOrdersAtPrice_links {n : Ptr} (hs : side ≠ .INVALID) (h : SideRep b side ls)
    (hside : b.levelSide n = side) (hn : n ∉ ls.map Level.ptr)
    (hafter : ∀ l ∈ ls, addAfter side (b.levelPrice n) l.price)
    (hlen : ls.length ≤ b.ordersAtPricePool.size) :
    ∃ b', b.addOrdersAtPrice n = .ok b' ∧
      LevelFrame (b.setPrice (b.levelPrice n) (some n)) b' side ∧
      b'.best side = (ls.map Level.ptr ++ [n]).head? ∧
      IsRing b'.nextEntry b'.prevEntry (ls.map Level.ptr ++ [n]) ∧
      ∀ q, q ∉ ls.map Level.ptr → q ≠ n →
        b'.nextEntry q = b.nextEntry q ∧ b'.prevEntry q = b.prevEntry q := by
  have h₁ : SideRep (b.setPrice (b.levelPrice n) (some n)) side ls :=
    (sameLists_setPrice b _ _).sideRep h
  have hbest := h₁.best_eq
  cases ls with
  | nil =>
    let b' := (((b.setPrice (b.levelPrice n) (some n)).setBest side (some n)).setNextEntry n
      (some n)).setPrevEntry n (some n)
    have hrun : b.addOrdersAtPrice n = .ok b' := by
      rw [addOrdersAtPrice, hside, hbest]
      rfl
    refine ⟨b', hrun, ?_, ?_, ?_, ?_⟩
    · constructor
      case best => intro side' hs' hne; simp [b', best_setBest _ _ hs hs', hne]
      all_goals simp [b']
    · simp [b', best_setBest _ _ hs hs]
    · simp [b', isRing_singleton, Neighbours]
    · intro q _ hq
      simp [b', hq]
  | cons m ls =>
    have hsearch := searchTarget_tail h₁ hafter (by
      simp only [List.length_cons, setPrice_frame] at hlen ⊢; omega)
    obtain ⟨b', hrun, hf, hbest', hring, hout⟩ := linkAfter_tail h₁ hn
    refine ⟨b', ?_, hf, ?_, hring, hout⟩
    · rw [addOrdersAtPrice, hside, hbest]
      simp only [List.head?_cons, Option.map_some, hsearch, ok_bind, if_true, hrun]
    · rw [hbest', hbest]
      rfl

theorem SideRep.concat (h : SideRep b side ls) {b' : LevelBook κ τ} (hl : LevelRep b' side l)
    (hls : ∀ m ∈ ls, LevelRep b' side m) (hn : l.ptr ∉ ls.map Level.ptr)
    (ho : ((queue ls ++ l.orders).map Entry.ptr).Nodup)
    (hbest : b'.best side = (ls.map Level.ptr ++ [l.ptr]).head?)
    (hring : IsRing b'.nextEntry b'.prevEntry (ls.map Level.ptr ++ [l.ptr])) :
    SideRep b' side (ls ++ [l]) := by
  refine ⟨?_, by simpa using hring, ?_, ?_, by simpa using ho⟩
  · rw [hbest, ← List.head?_map, List.map_append, List.map_singleton]
  · intro m hm
    rcases List.mem_append.mp hm with hm | hm
    · exact hls m hm
    · exact List.mem_singleton.mp hm ▸ hl
  · rw [List.map_append, List.map_singleton]
    exact List.nodup_append.mpr ⟨h.levels_nodup, List.nodup_singleton _, fun q hq q' hq' e ↦
      hn (List.mem_singleton.mp hq' ▸ e ▸ hq)⟩

theorem addOrdersAtPrice_spec (h : Linked b a) (hs : side ≠ .INVALID) {n : Ptr} {e : Entry κ}
    (hnew : LevelRep b side ⟨n, e.price, [e]⟩) (hn : ∀ l ∈ a.levels, l.ptr ≠ n)
    (he : ∀ e' ∈ a.entries, e'.ptr ≠ e.ptr)
    (hslot : ∀ l ∈ a.levels, priceToIndex l.price ≠ priceToIndex e.price)
    (hafter : ∀ l ∈ a.on side, addAfter side e.price l.price)
    (hlen : (a.on side).length ≤ b.ordersAtPricePool.size) :
    ∃ b', b.addOrdersAtPrice n = .ok b' ∧
      Linked b' (a.setOn side (a.on side ++ [⟨n, e.price, [e]⟩])) ∧ b'.entryAt = b.entryAt ∧
      b'.orderTable = b.orderTable ∧ b'.orderPool = b.orderPool ∧
      b'.ordersAtPricePool.size = b.ordersAtPricePool.size ∧
      b'.ordersAtPricePool.Live = b.ordersAtPricePool.Live ∧
      (b'.ordersAtPricePool.Ok ↔ b.ordersAtPricePool.Ok) := by
  have hside := h.side_rep side hs
  have hnl : n ∉ (a.on side).map Level.ptr := by
    intro hmem
    obtain ⟨l, hl, hp⟩ := List.mem_map.mp hmem
    exact hn l (Ladder.mem_levels.mpr ⟨side, hs, hl⟩) hp
  have hel : e.ptr ∉ (queue (a.on side)).map Entry.ptr := by
    intro hmem
    obtain ⟨e', he', hp⟩ := List.mem_map.mp hmem
    exact he e' (Ladder.mem_entries.mpr ⟨side, hs, he'⟩) hp
  have hprice : b.levelPrice n = e.price := hnew.price_eq
  obtain ⟨b', hrun, hf, hbest, hring, hout⟩ := addOrdersAtPrice_links hs hside hnew.side_eq hnl
    (by rwa [hprice]) hlen
  have hrep : ∀ {side' l}, LevelRep b side' l → LevelRep b' side' l := fun {side' l} hl ↦
    hf.levelRep (hl.congr rfl rfl rfl (fun _ _ ↦ rfl) (fun _ _ ↦ rfl) fun _ _ ↦ rfl)
  refine ⟨b', hrun, ⟨?_, ?_⟩, hf.entryAt, hf.orderTable, hf.orderPool, hf.size, hf.live, hf.ok⟩
  · intro side' hs'
    rw [Ladder.on_setOn hs hs']
    split_ifs with heq
    · subst heq
      refine hside.concat (hrep hnew) (fun m hm ↦ hrep (hside.level_rep m hm)) hnl ?_ hbest hring
      rw [List.map_append, List.map_singleton]
      exact List.nodup_append.mpr ⟨hside.orders_nodup, List.nodup_singleton _, fun q hq q' hq' c ↦
        hel (List.mem_singleton.mp hq' ▸ c ▸ hq)⟩
    · have hside' := h.side_rep side' hs'
      have hq : ∀ l ∈ a.on side', l.ptr ∉ (a.on side).map Level.ptr ∧ l.ptr ≠ n := fun l hl ↦
        ⟨h.notMem_other_side hs hs' heq hl, hn l (Ladder.mem_levels.mpr ⟨side', hs', hl⟩)⟩
      exact hside'.congr (hf.best side' hs' heq) (fun l hl ↦ (hout _ (hq l hl).1 (hq l hl).2).1)
        (fun l hl ↦ (hout _ (hq l hl).1 (hq l hl).2).2) fun l hl ↦ hrep (hside'.level_rep l hl)
  · intro i p
    simp only [hf.priceOrdersAtPrice, setPrice_frame, update_apply, hprice]
    have hmem : ∀ l, l ∈ (a.setOn side (a.on side ++ [⟨n, e.price, [e]⟩])).levels ↔
        l ∈ a.levels ∨ l = ⟨n, e.price, [e]⟩ := fun l ↦ Ladder.mem_levels_setOn hs
    simp only [hmem]
    split_ifs with hi
    · subst hi
      constructor
      · intro hp
        exact ⟨⟨n, e.price, [e]⟩, .inr rfl, Option.some.inj hp, rfl⟩
      · rintro ⟨l, hl | rfl, hp, hl'⟩
        · exact absurd hl' (hslot l hl)
        · exact congrArg some hp
    · rw [h.slot]
      constructor
      · rintro ⟨l, hl, hp⟩
        exact ⟨l, .inl hl, hp⟩
      · rintro ⟨l, hl | rfl, hp, hl'⟩
        · exact ⟨l, hl, hp, hl'⟩
        · exact absurd hl'.symm hi

/-- An order of this side and price can be added without tripping over the shared price index or
the insertion in front of a level: its slot is not held by the other side, and a new level goes
behind all others. -/
def Ladder.Admits (a : Ladder κ) (side : Side) (price : Price) : Prop :=
  (∀ l ∈ a.levels, priceToIndex l.price = priceToIndex price → l ∈ a.on side) ∧
  ((∃ l ∈ a.on side, priceToIndex l.price = priceToIndex price) ∨
    ∀ l ∈ a.on side, addAfter side price l.price)

instance [DecidableEq κ] (a : Ladder κ) (side : Side) (price : Price) :
    Decidable (a.Admits side price) := inferInstanceAs (Decidable (_ ∧ (_ ∨ _)))

theorem Linked.open_level (h : Linked b a) {e : Entry κ} {lp : Ptr} {pool : MemPool OrdersAtPrice}
    (hentry : b.entryAt e.ptr = e) (hfresh : ∀ e' ∈ a.entries, e'.ptr ≠ e.ptr)
    (hn : ∀ l ∈ a.levels, l.ptr ≠ lp) (hget : pool.get =
      update b.ordersAtPricePool.get lp ⟨e.side, e.price, some e.ptr, none, none⟩)
    {b' : LevelBook κ τ} (hb' : b' = { (b.setPrevOrder e.ptr (some e.ptr)).setNextOrder e.ptr
      (some e.ptr) with ordersAtPricePool := pool }) :
    Linked b' a ∧ b'.entryAt = b.entryAt ∧ LevelRep b' e.side ⟨lp, e.price, [e]⟩ := by
  subst hb'
  have hlevel : ∀ q, pool.get q = update b.level lp ⟨e.side, e.price, some e.ptr, none, none⟩ q :=
    congrFun hget
  have hnew : pool.get lp = ⟨e.side, e.price, some e.ptr, none, none⟩ := by
    rw [hlevel, update_self]
  have hentry' : ((b.setPrevOrder e.ptr (some e.ptr)).setNextOrder e.ptr (some e.ptr)).entryAt =
      b.entryAt := by simp
  have hnext : ((b.setPrevOrder e.ptr (some e.ptr)).setNextOrder e.ptr (some e.ptr)).nextOrder e.ptr =
      some e.ptr := by simp
  have hprev : ((b.setPrevOrder e.ptr (some e.ptr)).setNextOrder e.ptr (some e.ptr)).prevOrder e.ptr =
      some e.ptr := by simp
  refine ⟨h.congr rfl rfl (fun l hl ↦ ?_) (fun e' he' ↦ ?_), hentry', ?_⟩
  · exact (hlevel l.ptr).trans (update_of_ne (hn l hl) _ _)
  · simp [order, writeOrder, MemPool.get_modify, hfresh e' he']
  · refine ⟨congrArg _ hnew, congrArg _ hnew, congrArg _ hnew, by simp, ?_, ?_, by simp, by simp⟩
    · exact isRing_singleton.mpr ⟨hnext, hprev⟩
    · intro e' he'
      obtain rfl := List.mem_singleton.mp he'
      exact (congrFun hentry' _).trans hentry

theorem Linked.length_on_le (h : Linked b a) (hlt : ∀ l ∈ a.levels, l.ptr < b.ordersAtPricePool.size)
    (hs : side ≠ .INVALID) : (a.on side).length ≤ b.ordersAtPricePool.size := by
  refine (List.length_map Level.ptr).symm.trans_le
    (length_le_of_lt (h.side_rep side hs).levels_nodup fun q hq ↦ ?_)
  obtain ⟨l, hl, rfl⟩ := List.mem_map.mp hq
  exact hlt l (Ladder.mem_levels.mpr ⟨side, hs, hl⟩)

theorem linkOrder_of_free {e : Entry κ} (hentry : b.entryAt e.ptr = e)
    (hget : b.getOrdersAtPrice (b.order e.ptr).price = none) :
    b.linkOrder e.ptr = b.ordersAtPricePool.allocate ⟨e.side, e.price, some e.ptr, none, none⟩ >>=
      fun r ↦ addOrdersAtPrice { (b.setPrevOrder e.ptr (some e.ptr)).setNextOrder e.ptr (some e.ptr) with
        ordersAtPricePool := r.2 } r.1 := by
  let b₁ := (b.setPrevOrder e.ptr (some e.ptr)).setNextOrder e.ptr (some e.ptr)
  have he₁ : b₁.entryAt e.ptr = e := by simp [b₁, hentry]
  have hside₁ : (b₁.order e.ptr).side = e.side := congrArg Entry.side he₁
  have hprice₁ : (b₁.order e.ptr).price = e.price := congrArg Entry.price he₁
  rw [← hside₁, ← hprice₁, linkOrder, hget]
  rfl

theorem linkOrder_new (h : Linked b a) (hpool : b.ordersAtPricePool.Ok)
    (hlive : ∀ p, b.ordersAtPricePool.Live p ↔ ∃ l ∈ a.levels, l.ptr = p) {e : Entry κ}
    (hs : e.side ≠ .INVALID) (hentry : b.entryAt e.ptr = e)
    (hfresh : ∀ e' ∈ a.entries, e'.ptr ≠ e.ptr)
    (hslot : ∀ l ∈ a.levels, priceToIndex l.price ≠ priceToIndex e.price)
    (hafter : ∀ l ∈ a.on e.side, addAfter e.side e.price l.price) :
    (∃ b', b.linkOrder e.ptr = .ok b' ∧ Linked b' (a.setOn e.side (a.on e.side ++
        [⟨b.ordersAtPricePool.nextFreeIndex, e.price, [e]⟩])) ∧ b'.entryAt = b.entryAt ∧
      b'.orderTable = b.orderTable ∧ b.orderPool.SameBlocks b'.orderPool ∧
      b'.ordersAtPricePool.size = b.ordersAtPricePool.size ∧ b'.ordersAtPricePool.Ok ∧
      ∀ p, b'.ordersAtPricePool.Live p ↔
        p = b.ordersAtPricePool.nextFreeIndex ∨ b.ordersAtPricePool.Live p) ∨
    (b.linkOrder e.ptr = .error (.assertion "Memory Pool out of space.") ∧
      ∀ p < b.ordersAtPricePool.size, p ≠ b.ordersAtPricePool.nextFreeIndex →
        b.ordersAtPricePool.Live p) := by
  have hprice : (b.order e.ptr).price = e.price := congrArg Entry.price hentry
  have hget : b.getOrdersAtPrice (b.order e.ptr).price = none := by
    rw [hprice, Option.eq_none_iff_forall_ne_some]
    intro p hp
    obtain ⟨l, hl, -, hi⟩ := (h.slot _ _).mp hp
    exact hslot l hl hi
  have hrun := linkOrder_of_free hentry hget
  have hnl : ∀ l ∈ a.levels, l.ptr ≠ b.ordersAtPricePool.nextFreeIndex := fun l hl c ↦
    hpool.next_free (c ▸ (hlive _).mpr ⟨l, hl, rfl⟩)
  rcases MemPool.allocate_cases hpool ⟨e.side, e.price, some e.ptr, none, none⟩ with
      ⟨pool, halloc, hok, hsize, hpget, hplive⟩ | ⟨herr, hfull⟩
  · obtain ⟨hlinked, hentry₂, hnew⟩ := h.open_level hentry hfresh hnl hpget rfl
    obtain ⟨b', hadd, hl', hentry', htable', hopool', hsize', hlive', hok'⟩ := addOrdersAtPrice_spec
      hlinked hs hnew hnl hfresh hslot hafter (hsize ▸ h.length_on_le (fun l hl ↦
        hpool.bounded _ ((hlive _).mpr ⟨l, hl, rfl⟩)) hs)
    refine .inl ⟨b', ?_, hl', hentry'.trans hentry₂, htable', ?_, hsize'.trans hsize, hok'.mpr hok,
      fun p ↦ by rw [hlive']; exact hplive p⟩
    · rw [hrun, halloc, ok_bind]
      exact hadd
    · rw [hopool']
      simp
  · exact .inr ⟨by rw [hrun, herr]; rfl, hfull⟩

theorem linkOrder_links (h : LevelRep b side l) (hd : (l.orders.map Entry.ptr).Nodup) {p : Ptr}
    (hfresh : p ∉ l.orders.map Entry.ptr)
    (hget : b.getOrdersAtPrice (b.order p).price = some l.ptr) :
    ∃ b', b.linkOrder p = .ok b' ∧ OrderFrame b b' l.ptr ∧ b'.firstOrder = b.firstOrder ∧
      IsRing b'.nextOrder b'.prevOrder (l.orders.map Entry.ptr ++ [p]) ∧
      ∀ q, q ∉ l.orders.map Entry.ptr → q ≠ p →
        b'.nextOrder q = b.nextOrder q ∧ b'.prevOrder q = b.prevOrder q := by
  obtain ⟨o, os, hos⟩ := List.exists_cons_of_ne_nil h.orders_ne
  have hring := h.ring
  have hfirst := h.first_eq
  rw [hos, List.map_cons] at hring hd hfresh ⊢
  rw [hos] at hfirst
  obtain ⟨z, hz, hzo⟩ := hring.exists_prev (x := o.ptr) (by simp)
  have hzp : z ≠ p := fun c ↦ hfresh (c ▸ hz)
  have hop : o.ptr ≠ p := fun c ↦ hfresh (c ▸ List.mem_cons_self)
  let b' := (((b.setNextOrder z (some p)).setPrevOrder p (some z)).setNextOrder p
    (some o.ptr)).setPrevOrder o.ptr (some p)
  have hrun : b.linkOrder p = .ok b' := by
    rw [linkOrder, hget]
    simp [hfirst, hzo.2, b']
  have hn : b'.nextOrder = update (update b.nextOrder p (some o.ptr)) z (some p) := by
    simp [b', update_comm hzp]
  have hp : b'.prevOrder = update (update b.prevOrder p (some z)) o.ptr (some p) := by
    simp [b']
  refine ⟨b', hrun, ?_, by simp [b'], ?_, ?_⟩
  · constructor <;> simp [b']
  · rw [hn, hp]
    exact hring.concat_update hd hzo hfresh hz
  · intro q hq hqp
    have hqz : q ≠ z := fun c ↦ hq (c ▸ hz)
    have hqo : q ≠ o.ptr := fun c ↦ hq (c ▸ List.mem_cons_self)
    simp [hn, hp, hqp, hqz, hqo]

theorem linkOrder_join (h : Linked b a) {e : Entry κ} (hs : e.side ≠ .INVALID)
    (hentry : b.entryAt e.ptr = e) (hfresh : ∀ e' ∈ a.entries, e'.ptr ≠ e.ptr)
    {ls₁ ls₂ : List (Level κ)} (hon : a.on e.side = ls₁ ++ l :: ls₂)
    (hslot : priceToIndex l.price = priceToIndex e.price) :
    ∃ b', b.linkOrder e.ptr = .ok b' ∧ OrderFrame b b' l.ptr ∧
      Linked b' (a.setOn e.side (ls₁ ++ { l with orders := l.orders ++ [e] } :: ls₂)) := by
  have hside := h.side_rep e.side hs
  have hlon : l ∈ a.on e.side := by simp [hon]
  have hrep := hside.level_rep l hlon
  have hprice : (b.order e.ptr).price = e.price := congrArg Entry.price hentry
  have hget := h.getOrdersAtPrice_eq (Ladder.mem_levels.mpr ⟨e.side, hs, hlon⟩) hslot.symm
  have hnew : ∀ os : List (Entry κ), (∀ e' ∈ os, e' ∈ queue (a.on e.side)) →
      e.ptr ∉ os.map Entry.ptr := by
    intro os hos hmem
    obtain ⟨e', he', hp⟩ := List.mem_map.mp hmem
    exact hfresh e' (Ladder.mem_entries.mpr ⟨e.side, hs, hos e' he'⟩) hp
  obtain ⟨b', hrun, hf, hfirst, hring, hout⟩ := linkOrder_links hrep (hside.level_orders_nodup hlon)
    (hnew l.orders fun e' he' ↦ mem_queue.mpr ⟨l, hlon, he'⟩) (hprice ▸ hget)
  refine ⟨b', hrun, hf, h.replace_level hs hon hf (fun e' he' hq ↦ hout _ hq (hfresh e' he'))
    (hf.levelRep hrep (by simp) ?_ (by simpa using hring) fun e' he' ↦ ?_) ?_⟩
  · rw [hfirst, hrep.first_eq, List.head?_append_of_ne_nil _ hrep.orders_ne]
  · rcases List.mem_append.mp he' with he' | he'
    · exact .inl he'
    · obtain rfl := List.mem_singleton.mp he'
      exact .inr ⟨hentry, rfl, hslot.symm⟩
  · have hperm : (queue (ls₁ ++ { l with orders := l.orders ++ [e] } :: ls₂)).Perm
        (e :: queue (ls₁ ++ l :: ls₂)) := by
      simp only [queue_append, queue_cons, List.append_assoc, List.singleton_append]
      rw [← List.append_assoc, ← List.append_assoc (queue ls₁)]
      exact List.perm_middle
    rw [← hon] at hperm
    exact (hperm.map Entry.ptr).nodup_iff.mpr
      (List.nodup_cons.mpr ⟨hnew _ fun _ ↦ id, hside.orders_nodup⟩)

theorem Linked.slots_nodup (h : Linked b a) (hs : side ≠ .INVALID) :
    ((a.on side).map fun l ↦ priceToIndex l.price).Nodup := by
  refine List.Nodup.map_on (fun l hl m hm hi ↦ ?_) (h.side_rep side hs).levels_nodup.of_map
  exact h.slot_inj (Ladder.mem_levels.mpr ⟨side, hs, hl⟩) (Ladder.mem_levels.mpr ⟨side, hs, hm⟩) hi

theorem Linked.levels_slots_nodup (h : Linked b a) :
    (a.levels.map fun l ↦ priceToIndex l.price).Nodup := by
  refine List.Nodup.map_on (fun l hl m hm hi ↦ h.slot_inj hl hm hi) ?_
  have hbids := h.side_rep .BUY (by decide)
  have hasks := h.side_rep .SELL (by decide)
  refine List.nodup_append.mpr ⟨hbids.levels_nodup.of_map, hasks.levels_nodup.of_map, ?_⟩
  rintro l hl m hm rfl
  exact absurd (hbids.side_of_level hasks hl hm rfl) (by decide)

theorem linkOrder_spec (h : Linked b a) (hpool : b.ordersAtPricePool.Ok)
    (hlive : ∀ p, b.ordersAtPricePool.Live p ↔ ∃ l ∈ a.levels, l.ptr = p) {e : Entry κ}
    (hs : e.side ≠ .INVALID) (hentry : b.entryAt e.ptr = e)
    (hfresh : ∀ e' ∈ a.entries, e'.ptr ≠ e.ptr) (hadm : a.Admits e.side e.price) :
    (∃ b', b.linkOrder e.ptr = .ok b' ∧
      Linked b' (a.rest b.ordersAtPricePool.nextFreeIndex e) ∧ b'.entryAt = b.entryAt ∧
      b'.orderTable = b.orderTable ∧ b.orderPool.SameBlocks b'.orderPool ∧
      b'.ordersAtPricePool.size = b.ordersAtPricePool.size ∧ b'.ordersAtPricePool.Ok ∧
      ∀ p, b'.ordersAtPricePool.Live p ↔
        ∃ l ∈ (a.rest b.ordersAtPricePool.nextFreeIndex e).levels, l.ptr = p) ∨
    (b.linkOrder e.ptr = .error (.assertion "Memory Pool out of space.") ∧
      (∀ l ∈ a.levels, priceToIndex l.price ≠ priceToIndex e.price) ∧
      ∀ p < b.ordersAtPricePool.size, p ≠ b.ordersAtPricePool.nextFreeIndex →
        b.ordersAtPricePool.Live p) := by
  by_cases hjoin : ∃ l ∈ a.on e.side, priceToIndex l.price = priceToIndex e.price
  · left
    obtain ⟨l, hl, hle⟩ := hjoin
    obtain ⟨ls₁, ls₂, hon⟩ := List.append_of_mem hl
    have hrest : a.rest b.ordersAtPricePool.nextFreeIndex e =
        a.setOn e.side (ls₁ ++ { l with orders := l.orders ++ [e] } :: ls₂) := by
      rw [Ladder.rest, hon, restIn_join _ (hon ▸ h.slots_nodup hs) hle]
    obtain ⟨b', hrun, hf, hl'⟩ := linkOrder_join h hs hentry hfresh hon hle
    refine ⟨b', hrun, hrest ▸ hl', hf.entryAt, hf.orderTable, hf.orderPool, hf.size, hf.ok.mpr hpool,
      fun p ↦ ?_⟩
    rw [hf.live, hlive, hrest, Ladder.exists_levels_setOn hs (by simp [hon]) fun q _ ↦ q = p]
  · have hfree : ∀ l ∈ a.levels, priceToIndex l.price ≠ priceToIndex e.price := fun l hl he ↦
      hjoin ⟨l, hadm.1 l hl he, he⟩
    have hrest : a.rest b.ordersAtPricePool.nextFreeIndex e = a.setOn e.side (a.on e.side ++
        [⟨b.ordersAtPricePool.nextFreeIndex, e.price, [e]⟩]) := by
      rw [Ladder.rest, restIn_new _ fun l hl ↦ hfree l (Ladder.mem_levels.mpr ⟨e.side, hs, hl⟩)]
    rw [hrest]
    refine (linkOrder_new h hpool hlive hs hentry hfresh hfree (hadm.2.resolve_left hjoin)).imp ?_
      fun h ↦ ⟨h.1, hfree, h.2⟩
    rintro ⟨b', hrun, hl', hentry', htable, hblocks, hlsize, hlok, hllive⟩
    refine ⟨b', hrun, hl', hentry', htable, hblocks, hlsize, hlok, fun p ↦ ?_⟩
    have hmem : ∀ l, l ∈ (a.setOn e.side (a.on e.side ++
        [⟨b.ordersAtPricePool.nextFreeIndex, e.price, [e]⟩])).levels ↔
        l ∈ a.levels ∨ l = ⟨b.ordersAtPricePool.nextFreeIndex, e.price, [e]⟩ := fun l ↦
      Ladder.mem_levels_setOn hs
    simp only [hllive, hlive, hmem]
    constructor
    · rintro (rfl | ⟨l, hl, hp⟩)
      · exact ⟨_, .inr rfl, rfl⟩
      · exact ⟨l, .inl hl, hp⟩
    · rintro ⟨l, hl | rfl, hp⟩
      · exact .inr ⟨l, hl, hp⟩
      · exact .inl hp.symm

end LowLatency.Book
