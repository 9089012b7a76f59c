import LowLatency.Book.Represents

namespace LowLatency.Book

open Common Function LinkedRing LevelBook

variable {κ τ : Type} {b : LevelBook κ τ} {a : Ladder κ} {side : Side} {l : Level κ}
  {ls₁ ls₂ : List (Level κ)}

theorem unlinkLevel_inner (hs : side ≠ .INVALID) (h : SideRep b side (ls₁ ++ l :: ls₂))
    (hne : ls₁ ++ ls₂ ≠ []) :
    ∃ b', b.unlinkLevel side l.ptr = .ok b' ∧ LevelFrame b b' side ∧
      b'.best side = (ls₁ ++ ls₂).head?.map Level.ptr ∧
      IsRing b'.nextEntry b'.prevEntry ((ls₁ ++ ls₂).map Level.ptr) ∧
      ∀ q, q ∉ (ls₁ ++ l :: ls₂).map Level.ptr →
        b'.nextEntry q = b.nextEntry q ∧ b'.prevEntry q = b.prevEntry q := by
  have hring := h.ring
  have hd := h.levels_nodup
  rw [List.map_append, List.map_cons] at hring hd
  rw [List.map_append, List.map_append, List.map_cons]
  have hne' : ls₁.map Level.ptr ++ ls₂.map Level.ptr ≠ [] := by
    rw [← List.map_append]; simpa using hne
  obtain ⟨y, z, hflanked⟩ := hring.exists_flanked hd hne'
  let b₁ := (b.setNextEntry y (some z)).setPrevEntry z (some y)
  let b₂ := if some l.ptr = b.best side then b₁.setBest side (some z) else b₁
  let b₃ := (b₂.setNextEntry l.ptr none).setPrevEntry l.ptr none
  have hrun : b.unlinkLevel side l.ptr = .ok b₃ := by
    simp [unlinkLevel, hflanked.prev_eq, hflanked.next_eq, hflanked.prev_ne.symm, hflanked.next_ne,
      b₃, b₂, b₁]
  have hn : b₃.nextEntry = update (update b.nextEntry y (some z)) l.ptr none := by
    simp only [b₃, b₂]; split <;> simp [b₁]
  have hp : b₃.prevEntry = update (update b.prevEntry z (some y)) l.ptr none := by
    simp only [b₃, b₂]; split <;> simp [b₁]
  have hbest : b₃.best side = if some l.ptr = b.best side then some z else b.best side := by
    simp only [b₃, b₂]; split <;> simp [b₁, best_setBest _ _ hs hs]
  refine ⟨b₃, hrun, ?_, ?_, ?_, ?_⟩
  · constructor
    case best =>
      intro side' hs' hne
      simp only [b₃, b₂]
      split <;> simp [b₁, best_setBest _ _ hs hs', hne]
    all_goals simp only [b₃, b₂]; split <;> simp [b₁]
  · rw [hbest, h.best_eq, ← List.head?_map, ← List.head?_map, List.map_append, List.map_cons,
      List.map_append, hflanked.head]
    simp only [eq_comm]
  · rw [hn, hp]
    exact hflanked.ring none none
  · intro q hq
    obtain ⟨hqy, hqz, hql⟩ := hflanked.apart q hq
    simp [hn, hp, hqy, hqz, hql]

theorem unlinkLevel_spec (hs : side ≠ .INVALID) (h : SideRep b side (ls₁ ++ l :: ls₂)) :
    ∃ b', b.unlinkLevel side l.ptr = .ok b' ∧ LevelFrame b b' side ∧
      SideRep b' side (ls₁ ++ ls₂) ∧
      ∀ q, q ∉ (ls₁ ++ l :: ls₂).map Level.ptr →
        b'.nextEntry q = b.nextEntry q ∧ b'.prevEntry q = b.prevEntry q := by
  have hsub : (ls₁ ++ ls₂).Sublist (ls₁ ++ l :: ls₂) := (List.sublist_cons_self l ls₂).append_left ls₁
  have hrep : ∀ {b'}, LevelFrame b b' side → ∀ m ∈ ls₁ ++ ls₂, LevelRep b' side m := fun hf m hm ↦
    hf.levelRep (h.level_rep m (hsub.subset hm))
  have hdl : ((ls₁ ++ ls₂).map Level.ptr).Nodup := h.levels_nodup.sublist (hsub.map _)
  have hdo : ((queue (ls₁ ++ ls₂)).map Entry.ptr).Nodup :=
    h.orders_nodup.sublist ((hsub.flatMap _).map _)
  by_cases hne : ls₁ ++ ls₂ = []
  · have hd := h.levels_nodup
    have hring := h.ring
    rw [List.map_append, List.map_cons] at hd hring
    have hself : b.nextEntry l.ptr = some l.ptr :=
      (hring.next_self_iff hd).mpr (by simpa using hne)
    have hf : LevelFrame b (b.setBest side none) side := by
      constructor
      case best => intro side' hs' hne; rw [best_setBest _ _ hs hs', if_neg hne]
      all_goals simp
    refine ⟨b.setBest side none, by simp [unlinkLevel, hself], hf, ⟨?_, ?_, hrep hf, hdl, hdo⟩, ?_⟩
    · simp [hne, best_setBest _ _ hs hs]
    · rw [hne]; exact Cycle.Chain.nil _
    · simp
  · obtain ⟨b', hrun, hf, hb, hr, hq⟩ := unlinkLevel_inner hs h hne
    exact ⟨b', hrun, hf, ⟨hb, hr, hrep hf, hdl, hdo⟩, hq⟩

theorem Linked.mem_levels_drop (h : Linked b a) (hs : side ≠ .INVALID)
    (hon : a.on side = ls₁ ++ l :: ls₂) {m : Level κ} :
    m ∈ (a.setOn side (ls₁ ++ ls₂)).levels ↔ m ∈ a.levels ∧ m.ptr ≠ l.ptr := by
  have hd := (h.side_rep side hs).levels_nodup
  rw [hon, List.map_append, List.map_cons] at hd
  have hl : l ∈ a.on side := by simp [hon]
  have hother := (List.nodup_cons.mp (List.perm_middle.nodup_iff.mp hd)).1
  rw [← List.map_append, List.mem_map] at hother
  simp only [Ladder.mem_levels]
  constructor
  · rintro ⟨side', hs', hm⟩
    rw [Ladder.on_setOn hs hs'] at hm
    split_ifs at hm with he
    · exact ⟨⟨side, hs, by rw [hon]; simp only [List.mem_append, List.mem_cons] at hm ⊢; tauto⟩,
        fun e ↦ hother ⟨m, hm, e⟩⟩
    · exact ⟨⟨side', hs', hm⟩, fun e ↦
        he ((h.side_rep side' hs').side_of_level (h.side_rep side hs) hm hl e)⟩
  · rintro ⟨⟨side', hs', hm⟩, hne⟩
    refine ⟨side', hs', ?_⟩
    rw [Ladder.on_setOn hs hs']
    split_ifs with he
    · rw [he, hon] at hm
      have : m ≠ l := fun e ↦ hne (e ▸ rfl)
      simp only [List.mem_append, List.mem_cons] at hm ⊢
      tauto
    · exact hm

theorem removeOrdersAtPrice_spec (h : Linked b a) (hlt : l.ptr < b.ordersAtPricePool.size)
    (hlive : b.ordersAtPricePool.Live l.ptr) (hs : side ≠ .INVALID)
    (hon : a.on side = ls₁ ++ l :: ls₂) {price : Price}
    (hprice : priceToIndex price = priceToIndex l.price) :
    ∃ b', b.removeOrdersAtPrice side price = .ok b' ∧ Linked b' (a.setOn side (ls₁ ++ ls₂)) ∧
      b'.entryAt = b.entryAt ∧ b'.orderTable = b.orderTable ∧ b'.orderPool = b.orderPool ∧
      (b.ordersAtPricePool.Ok → b'.ordersAtPricePool.Ok) ∧
      b'.ordersAtPricePool.size = b.ordersAtPricePool.size ∧
      ∀ q, b'.ordersAtPricePool.Live q ↔ b.ordersAtPricePool.Live q ∧ q ≠ l.ptr := by
  have hside := h.side_rep side hs
  have hl : l ∈ a.on side := by simp [hon]
  have hlv : l ∈ a.levels := Ladder.mem_levels.mpr ⟨side, hs, hl⟩
  have hget := h.getOrdersAtPrice_eq hlv hprice
  rw [hon] at hside
  obtain ⟨b₁, hrun, hf, hrep, hq⟩ := unlinkLevel_spec hs hside
  obtain ⟨pool, hdealloc, hok, hsize, -, hpget, hplive⟩ :=
    MemPool.deallocate_spec (hlt.trans_eq hf.size.symm) (hf.live ▸ hlive)
  have hsame : SameLists b₁ { b₁.setPrice price none with ordersAtPricePool := pool } :=
    (sameLists_setPrice b₁ price none).trans (sameLists_levelPool hpget)
  refine ⟨{ b₁.setPrice price none with ordersAtPricePool := pool }, ?_, ⟨?_, ?_⟩, ?_⟩
  · simp [removeOrdersAtPrice, hget, hrun, hdealloc]
  · intro side' hs'
    rw [Ladder.on_setOn hs hs']
    split_ifs with he
    · exact he ▸ hsame.sideRep hrep
    · have hside' := h.side_rep side' hs'
      refine hsame.sideRep (hside'.congr (hf.best side' hs' he) ?_ ?_ fun m hm ↦
        hf.levelRep (hside'.level_rep m hm)) <;> intro m hm
      all_goals have hout := hon ▸ h.notMem_other_side hs hs' he hm
      · exact (hq m.ptr hout).1
      · exact (hq m.ptr hout).2
  · intro i p
    simp only [h.mem_levels_drop hs hon, setPrice_frame, hf.priceOrdersAtPrice, update_apply]
    split_ifs with hi
    · simp only [false_iff, not_exists, not_and]
      rintro m ⟨hm, hne⟩ - hmi
      exact hne (congrArg Level.ptr (h.slot_inj hm hlv (hmi.trans (hi.trans hprice))))
    · rw [h.slot]
      constructor
      · rintro ⟨m, hm, hp, hmi⟩
        refine ⟨m, ⟨hm, fun e ↦ hi ?_⟩, hp, hmi⟩
        rw [← hmi, h.level_inj hm hlv e, hprice]
      · rintro ⟨m, ⟨hm, -⟩, hp, hmi⟩
        exact ⟨m, hm, hp, hmi⟩
  · refine ⟨hsame.entryAt.trans hf.entryAt, hf.orderTable, hf.orderPool,
      fun hpool ↦ hok (hf.ok.mpr hpool), ?_, ?_⟩
    · exact hsize.trans hf.size
    · intro q
      rw [← hf.live]
      exact hplive q

section Inner

variable {e : Entry κ} {os₁ os₂ : List (Entry κ)}

theorem unlinkOrder_links (h : LevelRep b side l) (hd : (l.orders.map Entry.ptr).Nodup)
    (hl : l.orders = os₁ ++ e :: os₂) (hne : os₁ ++ os₂ ≠ [])
    (hget : b.getOrdersAtPrice (b.order e.ptr).price = some l.ptr) :
    ∃ b', b.unlinkOrder e.ptr = .ok b' ∧ OrderFrame b b' l.ptr ∧
      b'.firstOrder l.ptr = (os₁ ++ os₂).head?.map Entry.ptr ∧
      IsRing b'.nextOrder b'.prevOrder ((os₁ ++ os₂).map Entry.ptr) ∧
      ∀ q, q ∉ l.orders.map Entry.ptr →
        b'.nextOrder q = b.nextOrder q ∧ b'.prevOrder q = b.prevOrder q := by
  have hring := h.ring
  rw [hl, List.map_append, List.map_cons] at hring hd
  rw [List.map_append, hl, List.map_append, List.map_cons]
  have hne' : os₁.map Entry.ptr ++ os₂.map Entry.ptr ≠ [] := by
    rw [← List.map_append]; simpa using hne
  obtain ⟨y, z, hflanked⟩ := hring.exists_flanked hd hne'
  let b₁ := (b.setNextOrder y (some z)).setPrevOrder z (some y)
  let b₂ := if b₁.firstOrder l.ptr = some e.ptr then b₁.setFirstOrder l.ptr (some z) else b₁
  let b₃ := (b₂.setNextOrder e.ptr none).setPrevOrder e.ptr none
  have hrun : b.unlinkOrder e.ptr = .ok b₃ := by
    have hp : b.prevOrder e.ptr = some y := hflanked.prev_eq
    have hn : b.nextOrder e.ptr = some z := hflanked.next_eq
    simp only [unlinkOrder, hget, hp, hn, Option.some.injEq, if_neg hflanked.prev_ne, deref_some,
      ok_bind]
    rfl
  have hn : b₃.nextOrder = update (update b.nextOrder y (some z)) e.ptr none := by
    simp only [b₃, b₂]; split <;> simp [b₁]
  have hp : b₃.prevOrder = update (update b.prevOrder z (some y)) e.ptr none := by
    simp only [b₃, b₂]; split <;> simp [b₁]
  have hf : b₃.firstOrder = if b.firstOrder l.ptr = some e.ptr then
      update b.firstOrder l.ptr (some z) else b.firstOrder := by
    simp only [b₃, b₂]; simp only [b₁]; simp; split <;> simp
  refine ⟨b₃, hrun, ?_, ?_, ?_, ?_⟩
  · constructor
    case firstOrder =>
      intro q hq
      rw [hf]
      split <;> simp [hq]
    all_goals simp only [b₃, b₂]; split <;> simp [b₁]
  · rw [hf, ← List.head?_map, List.map_append, hflanked.head, ← List.map_cons, ← List.map_append,
      List.head?_map, ← hl, ← h.first_eq]
    split_ifs with hfirst
    · exact update_self ..
    · rfl
  · rw [hn, hp]
    exact hflanked.ring none none
  · intro q hq
    obtain ⟨hqy, hqz, hqe⟩ := hflanked.apart q hq
    simp [hn, hp, hqy, hqz, hqe]

theorem unlinkOrder_inner (h : Linked b a) (hs : side ≠ .INVALID)
    (hon : a.on side = ls₁ ++ l :: ls₂) (hl : l.orders = os₁ ++ e :: os₂) (hne : os₁ ++ os₂ ≠ []) :
    ∃ b', b.unlinkOrder e.ptr = .ok b' ∧ OrderFrame b b' l.ptr ∧
      Linked b' (a.setOn side (ls₁ ++ { l with orders := os₁ ++ os₂ } :: ls₂)) := by
  have hside := h.side_rep side hs
  have hlon : l ∈ a.on side := by simp [hon]
  have hrep := hside.level_rep l hlon
  have hel : e ∈ l.orders := by simp [hl]
  have hsub : (os₁ ++ os₂).Sublist l.orders := hl ▸ (List.sublist_cons_self e os₂).append_left os₁
  have hprice : (b.order e.ptr).price = e.price := congrArg Entry.price (hrep.entry_eq e hel)
  have hget := h.getOrdersAtPrice_eq (Ladder.mem_levels.mpr ⟨side, hs, hlon⟩) (hrep.entry_slot e hel)
  obtain ⟨b', hrun, hf, hfirst, hring, hout⟩ := unlinkOrder_links hrep
    (hside.level_orders_nodup hlon) hl hne (hprice ▸ hget)
  refine ⟨b', hrun, hf, h.replace_level hs hon hf (fun e' _ ↦ hout e'.ptr)
    (hf.levelRep hrep hne hfirst hring fun e' he' ↦ .inl (hsub.subset he')) ?_⟩
  rw [hon] at hside
  refine hside.orders_nodup.sublist (List.Sublist.map _ ?_)
  simp only [queue_append, queue_cons]
  exact (hsub.append_right _).append_left _

end Inner

theorem Linked.remove_eq (h : Linked b a) (hs : side ≠ .INVALID) {e : Entry κ}
    (he : e ∈ queue (a.on side)) :
    a.remove e.ptr = a.setOn side (removeFrom e.ptr (a.on side)) := by
  refine Ladder.ext_on fun side' hs' ↦ ?_
  rw [Ladder.on_remove, Ladder.on_setOn hs hs']
  split_ifs with hside
  · rw [hside]
  · have hrep := h.side_rep side' hs'
    refine removeFrom_of_notMem (fun l hl ↦ (hrep.level_rep l hl).orders_ne) fun hmem ↦ ?_
    obtain ⟨e', he', hp⟩ := List.mem_map.mp hmem
    have := h.entry_inj (Ladder.mem_entries.mpr ⟨side', hs', he'⟩)
      (Ladder.mem_entries.mpr ⟨side, hs, he⟩) hp
    exact hside ((this ▸ hrep.entry_side he').symm.trans (h.entry_side hs he))

section Split

variable {e : Entry κ} {os₁ os₂ : List (Entry κ)}

theorem Linked.remove_split (h : Linked b a) (hs : side ≠ .INVALID)
    (hon : a.on side = ls₁ ++ l :: ls₂) (hos : l.orders = os₁ ++ e :: os₂) :
    a.remove e.ptr = a.setOn side (ls₁ ++ ((if os₁ ++ os₂ = [] then []
      else [{ l with orders := os₁ ++ os₂ }]) ++ ls₂)) := by
  have hside := h.side_rep side hs
  have he : e ∈ queue (a.on side) := mem_queue.mpr ⟨l, by simp [hon], by simp [hos]⟩
  rw [h.remove_eq hs he, hon, removeFrom_split hos
    (fun m hm ↦ (hside.level_rep m (hon ▸ hm)).orders_ne) (hon ▸ hside.orders_nodup)]

theorem Linked.level_stays_iff (h : Linked b a) (hs : side ≠ .INVALID)
    (hon : a.on side = ls₁ ++ l :: ls₂) (hos : l.orders = os₁ ++ e :: os₂) (q : Ptr) :
    ((∃ m ∈ a.levels, m.ptr = q) → ∃ m ∈ (a.remove e.ptr).levels, m.ptr = q) ↔
      (os₁ ++ os₂ = [] → q ≠ l.ptr) := by
  have hlv : l ∈ a.levels := Ladder.mem_levels.mpr ⟨side, hs, by simp [hon]⟩
  rw [h.remove_split hs hon hos]
  split_ifs with hne
  · simp only [List.nil_append, h.mem_levels_drop hs hon, hne, forall_const]
    constructor
    · rintro hq rfl
      obtain ⟨m, ⟨-, hml⟩, hp⟩ := hq ⟨l, hlv, rfl⟩
      exact hml hp
    · rintro hq ⟨m, hm, hp⟩
      exact ⟨m, ⟨hm, fun c ↦ hq (hp.symm.trans c)⟩, hp⟩
  · rw [List.singleton_append, Ladder.exists_levels_setOn hs (by simp [hon]) fun p _ ↦ p = q]
    exact iff_of_true id fun c ↦ absurd c hne

end Split

theorem unlinkOrder_spec (h : Linked b a) (hu : InUse b a) {e : Entry κ} (he : e ∈ a.entries) :
    ∃ b', b.unlinkOrder e.ptr = .ok b' ∧ Linked b' (a.remove e.ptr) ∧ b'.entryAt = b.entryAt ∧
      b'.orderTable = b.orderTable ∧ b.orderPool.SameBlocks b'.orderPool ∧
      (b.ordersAtPricePool.Ok → b'.ordersAtPricePool.Ok) ∧
      b'.ordersAtPricePool.size = b.ordersAtPricePool.size ∧
      ∀ q, b'.ordersAtPricePool.Live q ↔ b.ordersAtPricePool.Live q ∧
        ((∃ l ∈ a.levels, l.ptr = q) → ∃ l ∈ (a.remove e.ptr).levels, l.ptr = q) := by
  obtain ⟨side, hs, heq⟩ := Ladder.mem_entries.mp he
  obtain ⟨l, hl, hel⟩ := mem_queue.mp heq
  obtain ⟨ls₁, ls₂, hon⟩ := List.append_of_mem hl
  obtain ⟨os₁, os₂, hos⟩ := List.append_of_mem hel
  have hside := h.side_rep side hs
  have hrep := hside.level_rep l hl
  have hlv : l ∈ a.levels := Ladder.mem_levels.mpr ⟨side, hs, hl⟩
  have hremove := h.remove_split hs hon hos
  simp only [h.level_stays_iff hs hon hos]
  by_cases hne : os₁ ++ os₂ = []
  · -- the only order of its level takes the level with it
    have hprice : (b.order e.ptr).price = e.price := congrArg Entry.price (hrep.entry_eq e hel)
    have hoside : (b.order e.ptr).side = side :=
      (congrArg Entry.side (hrep.entry_eq e hel)).trans (hrep.entry_side e hel)
    obtain ⟨b', hrun, hlinked, hentry, htable, hpool, hok', hsize, hl'⟩ := removeOrdersAtPrice_spec h
      (hu.level l hlv).1 (hu.level l hlv).2 hs hon (hrep.entry_slot e hel)
    have hself : b.prevOrder e.ptr = some e.ptr := by
      have hring := hrep.ring
      have hd := hside.level_orders_nodup hl
      rw [hos, List.map_append, List.map_cons] at hring hd
      exact (hring.prev_self_iff hd).mpr (by simpa using hne)
    rw [if_pos hne] at hremove
    refine ⟨b', ?_, by simpa [hremove] using hlinked, hentry, htable, by simp [hpool], hok', hsize,
      fun q ↦ by simp only [hl', hne, forall_const]⟩
    simp only [unlinkOrder, hself, if_true, hprice, hoside, hrun]
  · obtain ⟨b', hrun, hf, hlinked⟩ := unlinkOrder_inner h hs hon hos hne
    rw [if_neg hne] at hremove
    refine ⟨b', hrun, by simpa [hremove] using hlinked, hf.entryAt, hf.orderTable, hf.orderPool,
      hf.ok.mpr, hf.size, fun q ↦ ?_⟩
    simp only [hf.live, hne, false_imp_iff, and_true]

structure Released (b b' : LevelBook κ τ) (a a' : Ladder κ) (p : Ptr) : Prop where
  orders_ok : b.orderPool.Ok → b'.orderPool.Ok
  orders_size : b'.orderPool.size = b.orderPool.size
  orders_next : b'.orderPool.nextFreeIndex = b.orderPool.nextFreeIndex
  order_live : ∀ q, b'.orderPool.Live q ↔ b.orderPool.Live q ∧ q ≠ p
  levels_ok : b.ordersAtPricePool.Ok → b'.ordersAtPricePool.Ok
  levels_size : b'.ordersAtPricePool.size = b.ordersAtPricePool.size
  level_live : ∀ q, b'.ordersAtPricePool.Live q ↔ b.ordersAtPricePool.Live q ∧
    ((∃ l ∈ a.levels, l.ptr = q) → ∃ l ∈ a'.levels, l.ptr = q)

theorem Released.inUse {b' : LevelBook κ τ} {p : Ptr} (h : Released b b' a (a.remove p) p)
    (hu : InUse b a) : InUse b' (a.remove p) where
  order := fun e he ↦ by
    obtain ⟨he, hp⟩ := Ladder.mem_entries_remove.mp he
    rw [h.orders_size, h.order_live]
    exact ⟨(hu.order e he).1, (hu.order e he).2, hp⟩
  level := fun l hl ↦ by
    obtain ⟨m, hm, hp⟩ := Ladder.exists_level_of_remove hl
    rw [h.levels_size, h.level_live, ← hp]
    exact ⟨(hu.level m hm).1, (hu.level m hm).2, fun _ ↦ ⟨l, hl, hp.symm⟩⟩

variable [DecidableEq τ] [TableKey κ τ]

theorem removeOrder_linked (h : Linked b a) (hu : InUse b a) {e : Entry κ} (he : e ∈ a.entries) {k : τ}
    (hk : TableKey.entry e.key = some k) :
    ∃ b', b.removeOrder e.ptr = .ok b' ∧ Linked b' (a.remove e.ptr) ∧
      b'.orderTable = update b.orderTable k none ∧ Released b b' a (a.remove e.ptr) e.ptr := by
  obtain ⟨b₁, hrun, hlinked, hentry, htable, hblocks, hok, hsize, hlive⟩ := unlinkOrder_spec h hu he
  have hkey : (b₁.order e.ptr).key = e.key := by
    rw [(order_fields _ _).1, hentry, h.entry_eq he]
  let b₂ : LevelBook κ τ := { b₁ with orderTable := update b₁.orderTable k none }
  obtain ⟨pool, hdealloc, hpok, hpsize, hpnext, hpget, hplive⟩ := MemPool.deallocate_spec
    (m := b₂.orderPool) ((hu.order e he).1.trans_eq hblocks.size.symm)
    (hblocks.live ▸ (hu.order e he).2)
  have hsame : SameLists b₁ { b₂ with orderPool := pool } :=
    (sameLists_table b₁ _).trans (sameLists_orderPool hpget)
  refine ⟨{ b₂ with orderPool := pool }, ?_, hsame.linked rfl hlinked, by rw [← htable], ?_⟩
  · simp only [removeOrder, hrun, ok_bind, setTable, hkey, hk]
    rw [show b₁.orderPool = b₂.orderPool from rfl, hdealloc]
    rfl
  · refine ⟨fun hp ↦ hpok (hblocks.ok.mpr hp), hpsize.trans hblocks.size,
      hpnext.trans hblocks.nextFreeIndex, fun q ↦ ?_, hok, hsize, hlive⟩
    rw [← hblocks.live]
    exact hplive q

/-- The entry of an order that goes was its own, so the entries of the others stay. -/
theorem table_remove (h : Linked b a) {e : Entry κ} (he : e ∈ a.entries) {k : τ}
    (hk : TableKey.entry e.key = some k)
    (ht : ∀ k p, b.orderTable k = some p → ∃ e ∈ a.entries, e.ptr = p ∧ TableKey.entry e.key = some k)
    {k' : τ} {p : Ptr} (hp : update b.orderTable k none k' = some p) :
    ∃ e' ∈ (a.remove e.ptr).entries, e'.ptr = p ∧ TableKey.entry e'.key = some k' := by
  rw [update_apply] at hp
  split_ifs at hp with hkk
  obtain ⟨e', he', hep, hek⟩ := ht k' p hp
  refine ⟨e', Ladder.mem_entries_remove.mpr ⟨he', fun c ↦ hkk ?_⟩, hep, hek⟩
  rw [h.entry_inj he' he c, hk] at hek
  exact (Option.some.inj hek).symm

theorem removeOrder_spec (h : Represents b a) {e : Entry κ} (he : e ∈ a.entries) :
    ∃ b' k, b.removeOrder e.ptr = .ok b' ∧ Represents b' (a.remove e.ptr) ∧
      TableKey.entry e.key = some k ∧ b'.orderTable = update b.orderTable k none ∧
      b'.orderPool.size = b.orderPool.size ∧
      b'.orderPool.nextFreeIndex = b.orderPool.nextFreeIndex ∧
      b'.ordersAtPricePool.size = b.ordersAtPricePool.size := by
  obtain ⟨k, hk⟩ := Option.isSome_iff_exists.mp (h.in_range e he)
  obtain ⟨b', hrun, hlinked, htable, hr⟩ := removeOrder_linked h.linked h.inUse he hk
  refine ⟨b', k, hrun, ⟨hlinked, hr.orders_ok h.order_pool, hr.levels_ok h.level_pool, fun p ↦ ?_,
    fun p ↦ ?_, fun k' p hp ↦ ?_, fun e' he' ↦ ?_⟩, hk, htable, hr.orders_size, hr.orders_next,
    hr.levels_size⟩
  · rw [hr.order_live, h.order_live]
    simp only [Ladder.mem_entries_remove]
    constructor
    · rintro ⟨⟨e', he', hp⟩, hne⟩
      exact ⟨e', ⟨he', fun c ↦ hne (hp ▸ c)⟩, hp⟩
    · rintro ⟨e', ⟨he', hne⟩, hp⟩
      exact ⟨⟨e', he', hp⟩, fun c ↦ hne (hp.trans c)⟩
  · rw [hr.level_live, h.level_live]
    refine ⟨fun hp ↦ hp.2 hp.1, fun hp ↦ ⟨?_, fun _ ↦ hp⟩⟩
    obtain ⟨l, hl, rfl⟩ := hp
    exact Ladder.exists_level_of_remove hl
  · exact table_remove h.linked he hk h.table (htable ▸ hp)
  · exact h.in_range e' (Ladder.mem_entries_remove.mp he').1

theorem WellFormed.removeOrder (h : WellFormed b a) {e : Entry κ} (he : e ∈ a.entries) :
    ∃ b', b.removeOrder e.ptr = .ok b' ∧ WellFormed b' (a.remove e.ptr) ∧
      Released b b' a (a.remove e.ptr) e.ptr := by
  obtain ⟨k, hk⟩ := Option.isSome_iff_exists.mp (h.in_range e he)
  obtain ⟨b', hrun, hlinked, htable, hr⟩ := removeOrder_linked h.linked h.in_use he hk
  have hstored := (h.table k e.ptr).mpr ⟨e, he, rfl, hk⟩
  refine ⟨b', hrun, ⟨hlinked, hr.inUse h.in_use, fun k' p ↦ ⟨fun hp ↦ ?_, ?_⟩, fun e' he' ↦ ?_⟩, hr⟩
  · exact table_remove h.linked he hk (fun k p ↦ (h.table k p).mp) (htable ▸ hp)
  · rintro ⟨e', he', rfl, hk'⟩
    obtain ⟨he', hne⟩ := Ladder.mem_entries_remove.mp he'
    have hstored' := (h.table k' e'.ptr).mpr ⟨e', he', rfl, hk'⟩
    have hkk : k' ≠ k := by
      rintro rfl
      exact hne (Option.some.inj (hstored'.symm.trans hstored))
    rw [htable, update_of_ne hkk, hstored']
  · exact h.in_range e' (Ladder.mem_entries_remove.mp he').1

/-- Taking any resting order out leaves the book well formed with the other orders where they were. Its
level goes if it was alone there, the best pointer moves on if that level was the best, and the pools
get back the order and that level. -/
def LevelBook.RemovesOrders (b : LevelBook κ τ) (a : Ladder κ) : Prop :=
  ∀ side, side ≠ .INVALID → ∀ ls₁ l ls₂, a.on side = ls₁ ++ l :: ls₂ →
    ∀ os₁ e os₂, l.orders = os₁ ++ e :: os₂ →
      let kept := if os₁ ++ os₂ = [] then [] else [{ l with orders := os₁ ++ os₂ }]
      ∃ b', b.removeOrder e.ptr = .ok b' ∧ WellFormed b' (a.setOn side (ls₁ ++ (kept ++ ls₂))) ∧
        (∀ e', e' ∈ (a.setOn side (ls₁ ++ (kept ++ ls₂))).entries ↔ e' ∈ a.entries ∧ e' ≠ e) ∧
        (∀ side', side' ≠ .INVALID → b'.best side' =
          if side' = side ∧ b.best side = some l.ptr ∧ os₁ ++ os₂ = [] then ls₂.head?.map Level.ptr
          else b.best side') ∧
        (∀ p, b'.orderPool.Live p ↔ b.orderPool.Live p ∧ p ≠ e.ptr) ∧
        ∀ p, b'.ordersAtPricePool.Live p ↔ b.ordersAtPricePool.Live p ∧ (os₁ ++ os₂ = [] → p ≠ l.ptr)

theorem WellFormed.removesOrders (h : WellFormed b a) : b.RemovesOrders a := by
  intro side hs ls₁ l ls₂ hon os₁ e os₂ hos kept
  have he : e ∈ a.entries := Ladder.mem_entries.mpr
    ⟨side, hs, mem_queue.mpr ⟨l, by simp [hon], by simp [hos]⟩⟩
  have hremove := h.linked.remove_split hs hon hos
  obtain ⟨b', hrun, hwf, hr⟩ := h.removeOrder he
  refine ⟨b', hrun, hremove ▸ hwf, fun e' ↦ ?_, fun side' hs' ↦ ?_, hr.order_live, fun p ↦ ?_⟩
  · rw [← hremove, Ladder.mem_entries_remove]
    refine and_congr_right fun he' ↦ not_congr ⟨h.linked.entry_inj he' he, fun c ↦ c ▸ rfl⟩
  · rw [hremove] at hwf
    rw [(hwf.linked.side_rep side' hs').best_eq, Ladder.on_setOn hs hs',
      (h.linked.side_rep side' hs').best_eq, (h.linked.side_rep side hs).best_eq]
    by_cases hside : side' = side
    · subst hside
      rw [if_pos rfl, hon]
      have hd := (h.linked.side_rep side' hs').levels_nodup
      rw [hon] at hd
      cases ls₁ with
      | nil => by_cases hne : os₁ ++ os₂ = [] <;> simp [hne]
      | cons m ls₁ =>
        have hml : m.ptr ≠ l.ptr := fun c ↦ (List.nodup_cons.mp hd).1 (by simp [c])
        simp [hml]
    · simp [hside]
  · rw [hr.level_live, h.linked.level_stays_iff hs hon hos]

theorem Complete.remove (h : Complete b a) {b' : LevelBook κ τ} {e : Entry κ}
    {k : τ} (he : e ∈ a.entries) (hk : TableKey.entry e.key = some k)
    (ht : b'.orderTable = update b.orderTable k none) : Complete b' (a.remove e.ptr) := by
  intro e' he' k' hk'
  obtain ⟨he', hne⟩ := Ladder.mem_entries_remove.mp he'
  have hstored := h e' he' k' hk'
  have hkk : k' ≠ k := by
    rintro rfl
    exact hne (Option.some.inj (hstored.symm.trans (h e he k' hk)))
  rw [ht, update_of_ne hkk, hstored]

end LowLatency.Book
