import LowLatency.Book.Relabel
import LowLatency.Book.Walk
import LowLatency.Common.Rotation

namespace LowLatency.Book

open Common Function LevelBook

variable {κ τ : Type}

structure SameOrder (G : κ → Price → Prop) (P : Ptr → Ptr → Prop) (o o' : OrderNode κ) : Prop where
  key : o'.key = o.key
  side : o'.side = o.side
  price : o'.price = o.price
  qty : o'.qty = o.qty
  priority : o'.priority = o.priority
  prev : Option.Rel P o.prevOrder o'.prevOrder
  next : Option.Rel P o.nextOrder o'.nextOrder
  known : G o.key o.price

structure SameLevel (P Q : Ptr → Ptr → Prop) (n n' : OrdersAtPrice) : Prop where
  side : n'.side = n.side
  price : n'.price = n.price
  first : Option.Rel P n.firstOrder n'.firstOrder
  prev : Option.Rel Q n.prevEntry n'.prevEntry
  next : Option.Rel Q n.nextEntry n'.nextEntry

/-- The books are the same up to the addresses of orders and levels, which `P` and `Q` relate. The
price index has to be so for the prices of `G` only. -/
structure Moved (G : κ → Price → Prop) (P Q : Ptr → Ptr → Prop) (b b' : LevelBook κ τ) : Prop where
  orderPool : ∃ shift, b.orderPool.Rotated shift P b'.orderPool
  levelPool : ∃ shift, b.ordersAtPricePool.Rotated shift Q b'.ordersAtPricePool
  order : ∀ p q, P p q → SameOrder G P (b.order p) (b'.order q)
  level : ∀ l n, Q l n → SameLevel P Q (b.level l) (b'.level n)
  best : ∀ side, Option.Rel Q (b.best side) (b'.best side)
  index : ∀ key price, G key price →
    Option.Rel Q (b.getOrdersAtPrice price) (b'.getOrdersAtPrice price)
  table : ∀ k, Option.Rel P (b.orderTable k) (b'.orderTable k)

theorem SameOrder.mono {G : κ → Price → Prop} {P P' : Ptr → Ptr → Prop} {o o' : OrderNode κ}
    (h : SameOrder G P o o') (hP : ∀ p q, P p q → P' p q) : SameOrder G P' o o' :=
  { h with prev := rel_mono hP h.prev, next := rel_mono hP h.next }

theorem SameLevel.mono {P P' Q Q' : Ptr → Ptr → Prop} {n n' : OrdersAtPrice}
    (h : SameLevel P Q n n') (hP : ∀ p q, P p q → P' p q) (hQ : ∀ l n, Q l n → Q' l n) :
    SameLevel P' Q' n n' :=
  { h with
    first := rel_mono hP h.first
    prev := rel_mono hQ h.prev
    next := rel_mono hQ h.next }

theorem matched_deref {P : Ptr → Ptr → Prop} {v w : Option Ptr} (h : Option.Rel P v w) :
    Matched P (deref v) (deref w) := by
  cases h with
  | none => exact .error
  | some h => exact .ok h

namespace Moved

variable {G : κ → Price → Prop} {P Q : Ptr → Ptr → Prop} {b b' : LevelBook κ τ}
  {p q l n : Ptr} {v w : Option Ptr} {side : Side} {price : Price}

theorem order_biUnique (h : Moved G P Q b b') : Relator.BiUnique P :=
  h.orderPool.elim fun _ hr ↦ hr.biUnique

theorem level_biUnique (h : Moved G P Q b b') : Relator.BiUnique Q :=
  h.levelPool.elim fun _ hr ↦ hr.biUnique

theorem levels_size (h : Moved G P Q b b') :
    b'.ordersAtPricePool.size = b.ordersAtPricePool.size :=
  h.levelPool.elim fun _ hr ↦ hr.size

theorem orders_size (h : Moved G P Q b b') : b'.orderPool.size = b.orderPool.size :=
  h.orderPool.elim fun _ hr ↦ hr.size

section Writes

theorem writeOrder (h : Moved G P Q b b') (hp : P p q) {f g : OrderNode κ → OrderNode κ}
    (hfg : SameOrder G P (f (b.order p)) (g (b'.order q))) :
    Moved G P Q (b.writeOrder p f) (b'.writeOrder q g) where
  orderPool := h.orderPool.imp fun _ hr ↦ hr.modify f g
  levelPool := h.levelPool
  order := fun p' q' hp' ↦ by
    have hiff : q' = q ↔ p' = p := (Relator.rel_eq h.order_biUnique hp' hp).symm
    simp only [LevelBook.order, LevelBook.writeOrder, MemPool.get_modify, hiff]
    split
    · exact hfg
    · exact h.order p' q' hp'
  level := h.level
  best := h.best
  index := h.index
  table := h.table

theorem writeLevel (h : Moved G P Q b b') (hl : Q l n) {f g : OrdersAtPrice → OrdersAtPrice}
    (hfg : SameLevel P Q (f (b.level l)) (g (b'.level n))) :
    Moved G P Q (b.writeLevel l f) (b'.writeLevel n g) where
  orderPool := h.orderPool
  levelPool := h.levelPool.imp fun _ hr ↦ hr.modify f g
  order := h.order
  level := fun l' n' hl' ↦ by
    have hiff : n' = n ↔ l' = l := (Relator.rel_eq h.level_biUnique hl' hl).symm
    simp only [LevelBook.level, LevelBook.writeLevel, MemPool.get_modify, hiff]
    split
    · exact hfg
    · exact h.level l' n' hl'
  best := h.best
  index := h.index
  table := h.table

theorem setPrevOrder (h : Moved G P Q b b') (hp : P p q) (hv : Option.Rel P v w) :
    Moved G P Q (b.setPrevOrder p v) (b'.setPrevOrder q w) :=
  h.writeOrder hp { h.order p q hp with prev := hv }

theorem setNextOrder (h : Moved G P Q b b') (hp : P p q) (hv : Option.Rel P v w) :
    Moved G P Q (b.setNextOrder p v) (b'.setNextOrder q w) :=
  h.writeOrder hp { h.order p q hp with next := hv }

theorem setQty (h : Moved G P Q b b') (hp : P p q) (qty : Qty) :
    Moved G P Q (b.setQty p qty) (b'.setQty q qty) :=
  h.writeOrder hp { h.order p q hp with qty := rfl }

theorem setFirstOrder (h : Moved G P Q b b') (hl : Q l n) (hv : Option.Rel P v w) :
    Moved G P Q (b.setFirstOrder l v) (b'.setFirstOrder n w) :=
  h.writeLevel hl { h.level l n hl with first := hv }

theorem setPrevEntry (h : Moved G P Q b b') (hl : Q l n) (hv : Option.Rel Q v w) :
    Moved G P Q (b.setPrevEntry l v) (b'.setPrevEntry n w) :=
  h.writeLevel hl { h.level l n hl with prev := hv }

theorem setNextEntry (h : Moved G P Q b b') (hl : Q l n) (hv : Option.Rel Q v w) :
    Moved G P Q (b.setNextEntry l v) (b'.setNextEntry n w) :=
  h.writeLevel hl { h.level l n hl with next := hv }

theorem setBest (h : Moved G P Q b b') (side : Side) (hv : Option.Rel Q v w) :
    Moved G P Q (b.setBest side v) (b'.setBest side w) := by
  have hbest : ∀ side', Option.Rel Q ((b.setBest side v).best side') ((b'.setBest side w).best side') := by
    intro side'
    unfold LevelBook.setBest LevelBook.best
    split <;> split
    · exact hv
    · exact h.best .BUY
    · exact h.best .SELL
    · exact hv
  unfold LevelBook.setBest at hbest ⊢
  split
  · exact { h with best := by simpa only [*, if_true] using hbest }
  · exact { h with best := by simpa only [*, if_false] using hbest }

theorem setPrice (h : Moved G P Q b b') (price : Price) (hv : Option.Rel Q v w) :
    Moved G P Q (b.setPrice price v) (b'.setPrice price w) := by
  refine { h with index := fun key price' hG ↦ ?_ }
  simp only [getOrdersAtPrice, LevelBook.setPrice, update_apply]
  split
  · exact hv
  · exact h.index key price' hG

end Writes

theorem levelSide (h : Moved G P Q b b') (hl : Q l n) : b'.levelSide n = b.levelSide l :=
  (h.level l n hl).side

theorem levelPrice (h : Moved G P Q b b') (hl : Q l n) : b'.levelPrice n = b.levelPrice l :=
  (h.level l n hl).price

theorem prevEntry (h : Moved G P Q b b') (hl : Q l n) :
    Option.Rel Q (b.prevEntry l) (b'.prevEntry n) := (h.level l n hl).prev

theorem nextEntry (h : Moved G P Q b b') (hl : Q l n) :
    Option.Rel Q (b.nextEntry l) (b'.nextEntry n) := (h.level l n hl).next

theorem firstOrder (h : Moved G P Q b b') (hl : Q l n) :
    Option.Rel P (b.firstOrder l) (b'.firstOrder n) := (h.level l n hl).first

theorem prevOrder (h : Moved G P Q b b') (hp : P p q) :
    Option.Rel P (b.prevOrder p) (b'.prevOrder q) := (h.order p q hp).prev

theorem nextOrder (h : Moved G P Q b b') (hp : P p q) :
    Option.Rel P (b.nextOrder p) (b'.nextOrder q) := (h.order p q hp).next

section Insert

variable {best best' target target' : Ptr}

theorem findTarget (h : Moved G P Q b b') (hbest : Q best best') (fuel : ℕ) (ht : Q target target')
    (after : Bool) : Matched (fun r r' ↦ Q r.1 r'.1 ∧ r'.2 = r.2)
      (b.findTarget side price best fuel target after)
      (b'.findTarget side price best' fuel target' after) := by
  induction fuel generalizing target target' after with
  | zero => exact .error
  | succ fuel ih =>
    have hiff : target' = best' ↔ target = best := (Relator.rel_eq h.level_biUnique ht hbest).symm
    simp only [LevelBook.findTarget, h.levelPrice ht, ne_eq, hiff]
    split
    · split
      · exact (matched_deref (h.nextEntry ht)).bind fun _ _ ht' ↦ ih ht' true
      · exact ih ht false
    · exact .ok ⟨ht, rfl⟩

theorem searchTarget (h : Moved G P Q b b') (hbest : Q best best') :
    Matched (fun r r' ↦ Q r.1 r'.1 ∧ r'.2 = r.2) (b.searchTarget side price best)
      (b'.searchTarget side price best') := by
  simp only [LevelBook.searchTarget, h.levels_size, h.levelPrice hbest]
  split
  · refine (matched_deref (h.nextEntry hbest)).bind fun target target' ht ↦ ?_
    rw [h.levelPrice ht]
    exact h.findTarget hbest _ ht _
  · exact h.findTarget hbest _ hbest _

theorem linkAfter (h : Moved G P Q b b') (hl : Q l n) (hbest : Q best best') (ht : Q target target') :
    Matched (Moved G P Q) (b.linkAfter l best target) (b'.linkAfter n best' target') := by
  have hiff : target' = best' ↔ target = best := (Relator.rel_eq h.level_biUnique ht hbest).symm
  have htarget : Matched Q (if target = best then deref (b.prevEntry best) else .ok target)
      (if target' = best' then deref (b'.prevEntry best') else .ok target') := by
    simp only [hiff]
    split
    · exact matched_deref (h.prevEntry hbest)
    · exact .ok ht
  rw [linkAfter_eq, linkAfter_eq]
  refine htarget.bind fun t t' ht ↦ ?_
  have h₁ := h.setPrevEntry hl (.some ht)
  refine (matched_deref (h₁.nextEntry ht)).bind fun next next' hn ↦ ?_
  have h₂ := h₁.setPrevEntry hn (.some hl)
  exact .ok ((h₂.setNextEntry hl (h₂.nextEntry ht)).setNextEntry ht (.some hl))

theorem linkBefore (h : Moved G P Q b b') (hl : Q l n) (hbest : Q best best') (ht : Q target target') :
    Matched (Moved G P Q) (b.linkBefore l best target) (b'.linkBefore n best' target') := by
  unfold LevelBook.linkBefore
  rw [h.levelSide hl, h.levelPrice hl]
  have h₁ := (h.setPrevEntry hl (h.nextEntry ht)).setNextEntry hl (.some ht)
  refine (matched_deref (h₁.prevEntry ht)).bind fun prev prev' hp ↦ ?_
  have h₂ := h₁.setNextEntry hp (.some hl)
  simp only [h₂.levelPrice hbest]
  split
  · refine .ok ((h₂.setNextEntry ht ?_).setBest _ (.some hl))
    have hiff := rel_eq_iff h.level_biUnique (h₂.nextEntry ht) (.some hbest)
    by_cases hb : ((b.setPrevEntry l (b.nextEntry target)).setNextEntry l (some target)
        |>.setNextEntry prev (some l)).nextEntry target = some best
    · rw [if_pos hb, if_pos (hiff.mp hb)]
      exact .some hl
    · rw [if_neg hb, if_neg (hiff.not.mp hb)]
      exact h₂.nextEntry ht
  · exact .ok h₂

theorem addOrdersAtPrice (h : Moved G P Q b b') (hl : Q l n) :
    Matched (Moved G P Q) (b.addOrdersAtPrice l) (b'.addOrdersAtPrice n) := by
  unfold LevelBook.addOrdersAtPrice
  dsimp only
  rw [h.levelSide hl, h.levelPrice hl]
  have h₁ := h.setPrice (b.levelPrice l) (.some hl)
  rcases rel_cases (h₁.best (b.levelSide l)) with ⟨hb, hb'⟩ | ⟨best, best', hb, hb', hbest⟩
  · rw [hb, hb']
    exact .ok (((h₁.setBest _ (.some hl)).setNextEntry hl (.some hl)).setPrevEntry hl (.some hl))
  · rw [hb, hb']
    refine (h₁.searchTarget hbest).bind ?_
    rintro ⟨target, after⟩ ⟨target', _⟩ ⟨ht, rfl⟩
    dsimp only
    split
    · exact h₁.linkAfter hl hbest ht
    · exact h₁.linkBefore hl hbest ht

end Insert

section Remove

theorem unlinkLevel (h : Moved G P Q b b') (hl : Q l n) :
    Matched (Moved G P Q) (b.unlinkLevel side l) (b'.unlinkLevel side n) := by
  have halone := rel_eq_iff h.level_biUnique (h.nextEntry hl) (.some hl)
  have hbest := rel_eq_iff h.level_biUnique (.some hl) (h.best side)
  simp only [LevelBook.unlinkLevel, ← halone, ← hbest]
  split
  · exact .ok (h.setBest side .none)
  · refine (matched_deref (h.prevEntry hl)).bind fun prev prev' hp ↦ ?_
    have h₁ := h.setNextEntry hp (h.nextEntry hl)
    refine (matched_deref (h₁.nextEntry hl)).bind fun next next' hn ↦ ?_
    have h₂ := h₁.setPrevEntry hn (h₁.prevEntry hl)
    split
    · exact .ok (((h₂.setBest side (h₂.nextEntry hl)).setNextEntry hl .none).setPrevEntry hl .none)
    · exact .ok ((h₂.setNextEntry hl .none).setPrevEntry hl .none)

theorem deallocateLevel (h : Moved G P Q b b') (hl : Q l n) :
    Matched (fun r r' ↦ Moved G P Q { b with ordersAtPricePool := r }
      { b' with ordersAtPricePool := r' })
      (b.ordersAtPricePool.deallocate l) (b'.ordersAtPricePool.deallocate n) := by
  obtain ⟨shift, hr⟩ := h.levelPool
  refine (hr.deallocate hl).imp fun r r' ⟨hr', hget, hget'⟩ ↦ ?_
  refine { h with levelPool := ⟨shift, hr'⟩, level := fun l n hl ↦ ?_ }
  simp only [LevelBook.level, hget, hget']
  exact h.level l n hl

theorem deallocateOrder (h : Moved G P Q b b') (hp : P p q) :
    Matched (fun r r' ↦ Moved G P Q { b with orderPool := r } { b' with orderPool := r' })
      (b.orderPool.deallocate p) (b'.orderPool.deallocate q) := by
  obtain ⟨shift, hr⟩ := h.orderPool
  refine (hr.deallocate hp).imp fun r r' ⟨hr', hget, hget'⟩ ↦ ?_
  refine { h with orderPool := ⟨shift, hr'⟩, order := fun p q hp ↦ ?_ }
  simp only [LevelBook.order, hget, hget']
  exact h.order p q hp

theorem removeOrdersAtPrice (h : Moved G P Q b b') {key : κ} (hG : G key price) :
    Matched (Moved G P Q) (b.removeOrdersAtPrice side price) (b'.removeOrdersAtPrice side price) :=
  (matched_deref (h.index key price hG)).bind fun _ _ hl ↦ (h.unlinkLevel hl).bind fun _ _ h₁ ↦
    ((h₁.setPrice price .none).deallocateLevel hl).bind fun _ _ h₂ ↦ .ok h₂

theorem unlinkOrder (h : Moved G P Q b b') (hp : P p q) :
    Matched (Moved G P Q) (b.unlinkOrder p) (b'.unlinkOrder q) := by
  have ho := h.order p q hp
  have halone := rel_eq_iff h.order_biUnique (h.prevOrder hp) (.some hp)
  simp only [LevelBook.unlinkOrder, ho.price, ho.side, ← halone]
  split
  · exact h.removeOrdersAtPrice ho.known
  · refine (matched_deref (h.prevOrder hp)).bind fun before before' hbefore ↦ ?_
    refine (matched_deref (h.nextOrder hp)).bind fun after after' hafter ↦ ?_
    have h₁ := (h.setNextOrder hbefore (.some hafter)).setPrevOrder hafter (.some hbefore)
    refine (matched_deref (h.index _ _ ho.known)).bind fun l n hl ↦ ?_
    have hfirst := rel_eq_iff h₁.order_biUnique (h₁.firstOrder hl) (.some hp)
    simp only [← hfirst]
    split
    · exact .ok (((h₁.setFirstOrder hl (.some hafter)).setNextOrder hp .none).setPrevOrder hp .none)
    · exact .ok ((h₁.setNextOrder hp .none).setPrevOrder hp .none)

end Remove

section Allocate

theorem allocateLevel (h : Moved G P Q b b') {t t' : OrdersAtPrice} (ht : SameLevel P Q t t') :
    Matched (fun r r' ↦ ∃ Q', Q' r.1 r'.1 ∧ Moved G P Q' { b with ordersAtPricePool := r.2 }
      { b' with ordersAtPricePool := r'.2 })
      (b.ordersAtPricePool.allocate t) (b'.ordersAtPricePool.allocate t') := by
  obtain ⟨shift, hr⟩ := h.levelPool
  refine (hr.allocate t t').imp fun r r' ⟨_, _, hget, hget', hr'⟩ ↦ ?_
  have hQ : ∀ l n, Q l n → Q l n ∨ l = r.1 ∧ n = r'.1 := fun _ _ ↦ .inl
  have hP : ∀ p q, P p q → P p q := fun _ _ ↦ id
  refine ⟨_, .inr ⟨rfl, rfl⟩, { h with
    levelPool := ⟨shift, hr'⟩
    best := fun side ↦ rel_mono hQ (h.best side)
    index := fun key price hG ↦ rel_mono hQ (h.index key price hG)
    level := fun l n hl ↦ ?_ }⟩
  have hiff : l = r.1 ↔ n = r'.1 := Relator.rel_eq hr'.biUnique hl (.inr ⟨rfl, rfl⟩)
  simp only [LevelBook.level, hget, hget', update_apply, ← hiff]
  split
  · exact ht.mono hP hQ
  · next hne => exact (h.level l n (hl.resolve_right fun he ↦ hne he.1)).mono hP hQ

theorem allocateOrder (h : Moved G P Q b b') {t t' : OrderNode κ} (ht : SameOrder G P t t') :
    Matched (fun r r' ↦ ∃ P' : Ptr → Ptr → Prop, P' r.1 r'.1 ∧ (∀ p q, P' p q → P p q ∨ p = r.1) ∧
      Moved G P' Q { b with orderPool := r.2 } { b' with orderPool := r'.2 })
      (b.orderPool.allocate t) (b'.orderPool.allocate t') := by
  obtain ⟨shift, hr⟩ := h.orderPool
  refine (hr.allocate t t').imp fun r r' ⟨_, _, hget, hget', hr'⟩ ↦ ?_
  have hP : ∀ p q, P p q → P p q ∨ p = r.1 ∧ q = r'.1 := fun _ _ ↦ .inl
  refine ⟨_, .inr ⟨rfl, rfl⟩, fun _ _ ↦ Or.imp_right And.left, { h with
    orderPool := ⟨shift, hr'⟩
    level := fun l n hl ↦ (h.level l n hl).mono hP fun _ _ ↦ id
    table := fun k ↦ rel_mono hP (h.table k)
    order := fun p q hp ↦ ?_ }⟩
  have hiff : p = r.1 ↔ q = r'.1 := Relator.rel_eq hr'.biUnique hp (.inr ⟨rfl, rfl⟩)
  simp only [LevelBook.order, hget, hget', update_apply, ← hiff]
  split
  · exact ht.mono hP
  · next hne => exact (h.order p q (hp.resolve_right fun he ↦ hne he.1)).mono hP

theorem linkOrder (h : Moved G P Q b b') (hp : P p q) :
    Matched (fun r r' ↦ ∃ Q', Moved G P Q' r r') (b.linkOrder p) (b'.linkOrder q) := by
  have ho := h.order p q hp
  unfold LevelBook.linkOrder
  rw [ho.price]
  rcases rel_cases (h.index _ _ ho.known) with ⟨hi, hi'⟩ | ⟨l, n, hi, hi', hl⟩
  · rw [hi, hi']
    have h₁ := (h.setPrevOrder hp (.some hp)).setNextOrder hp (.some hp)
    have ho₁ := h₁.order p q hp
    have hnew : ∀ side price, SameLevel P Q ⟨side, price, some p, none, none⟩
        ⟨side, price, some q, none, none⟩ := fun _ _ ↦ ⟨rfl, rfl, .some hp, .none, .none⟩
    dsimp only
    rw [ho₁.side, ho₁.price]
    refine (h₁.allocateLevel (hnew _ _)).bind ?_
    rintro ⟨l, pool⟩ ⟨n, pool'⟩ ⟨Q', hl, h₂⟩
    exact (h₂.addOrdersAtPrice hl).imp fun _ _ h₃ ↦ ⟨Q', h₃⟩
  · rw [hi, hi']
    refine (matched_deref (h.firstOrder hl)).bind fun first first' hf ↦ ?_
    refine (matched_deref (h.prevOrder hf)).bind fun last last' hlast ↦ ?_
    have h₁ := h.setNextOrder hlast (.some hp)
    have h₂ := (h₁.setPrevOrder hp (h₁.prevOrder hf)).setNextOrder hp (.some hf)
    exact .ok ⟨Q, h₂.setPrevOrder hf (.some hp)⟩

end Allocate

section Table

variable [DecidableEq τ] [TableKey κ τ]

theorem setTable (h : Moved G P Q b b') (key : κ) (hv : Option.Rel P v w) :
    Matched (Moved G P Q) (b.setTable key v) (b'.setTable key w) := by
  unfold LevelBook.setTable
  cases TableKey.entry key with
  | none => exact .error
  | some k =>
    refine .ok { h with table := fun k' ↦ ?_ }
    simp only [update_apply]
    split
    · exact hv
    · exact h.table k'

theorem addOrder (h : Moved G P Q b b') (hp : P p q) :
    Matched (fun r r' ↦ ∃ Q', Moved G P Q' r r') (b.addOrder p) (b'.addOrder q) := by
  refine (h.linkOrder hp).bind fun b₁ b₁' ⟨Q', h₁⟩ ↦ ?_
  rw [(h₁.order p q hp).key]
  exact (h₁.setTable _ (.some hp)).imp fun _ _ h₂ ↦ ⟨Q', h₂⟩

theorem removeOrder (h : Moved G P Q b b') (hp : P p q) :
    Matched (Moved G P Q) (b.removeOrder p) (b'.removeOrder q) := by
  refine (h.unlinkOrder hp).bind fun b₁ b₁' h₁ ↦ ?_
  rw [(h₁.order p q hp).key]
  exact (h₁.setTable _ .none).bind fun _ _ h₂ ↦ (h₂.deallocateOrder hp).bind fun _ _ h₃ ↦ .ok h₃

end Table

section Walk

open LinkedRing

theorem ordersOf (h : Moved G P Q b b') (hl : Q l n) :
    List.Forall₂ (fun e e' ↦ ∃ p q, P p q ∧ e = b.entryAt p ∧ e' = b'.entryAt q)
      (b.ordersOf l) (b'.ordersOf n) := by
  unfold LevelBook.ordersOf
  rcases rel_cases (h.firstOrder hl) with ⟨hf, hf'⟩ | ⟨p, q, hf, hf', hp⟩
  · rw [hf, hf']
    exact .nil
  · rw [hf, hf', h.orders_size]
    refine List.rel_map (fun p q hp ↦ ⟨p, q, hp, rfl, rfl⟩) ?_
    exact walk_rel h.order_biUnique (fun _ _ ↦ h.nextOrder) hp _ hp

theorem levelsOf (h : Moved G P Q b b') (side : Side) :
    List.Forall₂ (fun m m' ↦ m'.price = m.price ∧
      List.Forall₂ (fun e e' ↦ ∃ p q, P p q ∧ e = b.entryAt p ∧ e' = b'.entryAt q) m.orders m'.orders)
      (b.levelsOf side) (b'.levelsOf side) := by
  unfold LevelBook.levelsOf
  rcases rel_cases (h.best side) with ⟨hb, hb'⟩ | ⟨l, n, hb, hb', hl⟩
  · rw [hb, hb']
    exact .nil
  · rw [hb, hb', h.levels_size]
    refine List.rel_map (fun l n hl ↦ ⟨h.levelPrice hl, h.ordersOf hl⟩) ?_
    exact walk_rel h.level_biUnique (fun _ _ ↦ h.nextEntry) hl _ hl

theorem relabel_entryAt (h : Moved G P Q b b') (hp : P p q) (f : κ → ℕ) :
    (b'.entryAt q).relabel f = (b.entryAt p).relabel f := by
  have ho := h.order p q hp
  simp only [LevelBook.entryAt, Entry.relabel, ho.key, ho.side, ho.price, ho.qty, ho.priority]

theorem relabel_ladder (h : Moved G P Q b b') (f : κ → ℕ) :
    b'.ladder.relabel f = b.ladder.relabel f := by
  have hlevels : ∀ side, (b'.levelsOf side).map (Level.relabel f) =
      (b.levelsOf side).map (Level.relabel f) := by
    intro side
    refine (List.forall₂_eq_eq_eq ▸ List.rel_map ?_ (h.levelsOf side) : _ = _).symm
    rintro m m' ⟨hprice, horders⟩
    have hentries : m.orders.map (Entry.relabel f) = m'.orders.map (Entry.relabel f) := by
      refine (List.forall₂_eq_eq_eq ▸ List.rel_map ?_ horders : _ = _)
      rintro _ _ ⟨p, q, hp, rfl, rfl⟩
      exact (h.relabel_entryAt hp f).symm
    simp only [Level.relabel, hprice, hentries]
  simp only [LevelBook.ladder, Ladder.relabel, hlevels]

theorem known (h : Moved G P Q b b') {e : Entry κ} (he : e ∈ b.ladder.entries) : G e.key e.price := by
  obtain ⟨l, hl, hel⟩ := mem_queue.mp he
  have hside : ∃ side, l ∈ b.levelsOf side :=
    (List.mem_append.mp hl).elim (fun hl ↦ ⟨.BUY, hl⟩) fun hl ↦ ⟨.SELL, hl⟩
  obtain ⟨side, hl⟩ := hside
  obtain ⟨m, -, -, horders⟩ := exists_of_forall₂ (h.levelsOf side) hl
  obtain ⟨e', -, p, q, hp, rfl, -⟩ := exists_of_forall₂ horders hel
  exact (h.order p q hp).known

end Walk

end Moved

end LowLatency.Book
