import LowLatency.Book.Insert
import LowLatency.GuardedRun

namespace LowLatency.Book

open Common Function LevelBook

variable {κ τ : Type} {b : LevelBook κ τ}

def LevelBook.keyAt (b : LevelBook κ τ) (p : Ptr) : κ := (b.order p).key

def KeepsKeys (b : LevelBook κ τ) (x : Except Fault (LevelBook κ τ)) : Prop :=
  Ends x (fun b' ↦ b'.keyAt = b.keyAt) fun f ↦ ¬ f.Indexes

theorem ends_deref (v : Option Ptr) : Ends (deref v) (fun p ↦ v = some p) fun f ↦ ¬ f.Indexes := by
  cases v with
  | none => exact fun h ↦ by cases h <;> contradiction
  | some p => rfl

section Writes

@[simp] theorem keyAt_writeLevel (b : LevelBook κ τ) (l : Ptr) (f : OrdersAtPrice → OrdersAtPrice) :
    (b.writeLevel l f).keyAt = b.keyAt := rfl

theorem keyAt_levelPool (b : LevelBook κ τ) (pool : MemPool OrdersAtPrice) :
    keyAt { b with ordersAtPricePool := pool } = b.keyAt := rfl

@[simp] theorem keyAt_setPrice (b : LevelBook κ τ) (price : Price) (v : Option Ptr) :
    (b.setPrice price v).keyAt = b.keyAt := rfl

@[simp] theorem keyAt_setBest (b : LevelBook κ τ) (side : Side) (v : Option Ptr) :
    (b.setBest side v).keyAt = b.keyAt := by
  unfold setBest
  split <;> rfl

theorem keyAt_writeOrder (p : Ptr) {f : OrderNode κ → OrderNode κ} (hf : ∀ o, (f o).key = o.key) :
    (b.writeOrder p f).keyAt = b.keyAt := by
  funext q
  simp only [keyAt, order, writeOrder, MemPool.get_modify]
  split
  · next h => rw [hf, h]
  · rfl

@[simp] theorem keyAt_setPrevOrder (b : LevelBook κ τ) (p : Ptr) (v : Option Ptr) :
    (b.writeOrder p fun o ↦ { o with prevOrder := v }).keyAt = b.keyAt :=
  keyAt_writeOrder p fun _ ↦ rfl

@[simp] theorem keyAt_setNextOrder (b : LevelBook κ τ) (p : Ptr) (v : Option Ptr) :
    (b.writeOrder p fun o ↦ { o with nextOrder := v }).keyAt = b.keyAt :=
  keyAt_writeOrder p fun _ ↦ rfl

@[simp] theorem keyAt_setQty (b : LevelBook κ τ) (p : Ptr) (qty : Qty) :
    (b.writeOrder p fun o ↦ { o with qty := qty }).keyAt = b.keyAt :=
  keyAt_writeOrder p fun _ ↦ rfl

end Writes

section Pools

variable {T : Type}

theorem ends_scan (m : MemPool T) (initial fuel i : ℕ) :
    Ends (m.scan initial fuel i) (fun _ ↦ True) fun f ↦ ¬ f.Indexes := by
  induction fuel generalizing i with
  | zero => simp [MemPool.scan, Ends, Fault.Indexes]
  | succ fuel ih =>
    unfold MemPool.scan
    split
    · trivial
    · dsimp only
      generalize (if i + 1 = m.size then 0 else i + 1) = j
      split
      · simp [Ends, Fault.Indexes]
      · exact ih j

theorem ends_allocate (m : MemPool T) (t : T) :
    Ends (m.allocate t) (fun r ↦ r.1 = m.nextFreeIndex ∧ r.2.get = update m.get m.nextFreeIndex t)
      fun f ↦ ¬ f.Indexes := by
  unfold MemPool.allocate
  dsimp only
  split
  · refine ((ends_scan _ _ _ _).bind fun i _ ↦ ?_).bind fun m' hm' ↦ ⟨rfl, hm'⟩
    funext p
    simp only [MemPool.get, update_apply]
    split <;> rfl
  · simp [Ends, Fault.Indexes]

theorem ends_deallocate (m : MemPool T) (p : Ptr) :
    Ends (m.deallocate p) (fun m' ↦ m'.get = m.get) fun f ↦ ¬ f.Indexes := by
  unfold MemPool.deallocate
  split
  · simp [Ends, Fault.Indexes]
  · split
    · simp [Ends, Fault.Indexes]
    · funext q
      simp only [MemPool.get, update_apply]
      split
      · next h => rw [h]
      · rfl

end Pools

section Insert

theorem ends_findTarget (b : LevelBook κ τ) (side : Side) (price : Price) (best : Ptr) (fuel : ℕ)
    (target : Ptr) (after : Bool) :
    Ends (b.findTarget side price best fuel target after) (fun _ ↦ True) fun f ↦ ¬ f.Indexes := by
  induction fuel generalizing target after with
  | zero => simp [findTarget, Ends, Fault.Indexes]
  | succ fuel ih =>
    unfold findTarget
    split
    · split
      · exact (ends_deref _).bind fun _ _ ↦ ih _ _
      · exact ih _ _
    · trivial

theorem ends_searchTarget (b : LevelBook κ τ) (side : Side) (price : Price) (best : Ptr) :
    Ends (b.searchTarget side price best) (fun _ ↦ True) fun f ↦ ¬ f.Indexes := by
  unfold searchTarget
  dsimp only
  split
  · exact (ends_deref _).bind fun _ _ ↦ ends_findTarget ..
  · exact ends_findTarget ..

theorem keepsKeys_linkAfter (b : LevelBook κ τ) (l best target : Ptr) :
    KeepsKeys b (b.linkAfter l best target) := by
  rw [linkAfter_eq]
  refine Ends.bind (P := fun _ ↦ True) ?_ fun t _ ↦ (ends_deref _).bind fun next _ ↦ ?_
  · split
    · exact (ends_deref _).imp fun _ _ ↦ trivial
    · trivial
  · exact (show _ = _ by simp)

theorem keepsKeys_linkBefore (b : LevelBook κ τ) (l best target : Ptr) :
    KeepsKeys b (b.linkBefore l best target) := by
  unfold linkBefore
  refine (ends_deref _).bind fun prev _ ↦ ?_
  dsimp only
  split
  · exact (show _ = _ by simp)
  · exact (show _ = _ by simp)

theorem keepsKeys_addOrdersAtPrice (b : LevelBook κ τ) (l : Ptr) :
    KeepsKeys b (b.addOrdersAtPrice l) := by
  unfold addOrdersAtPrice
  dsimp only
  split
  · exact (show _ = _ by simp)
  · refine (ends_searchTarget ..).bind fun r _ ↦ ?_
    split
    · exact keepsKeys_linkAfter ..
    · exact keepsKeys_linkBefore ..

theorem keepsKeys_linkOrder (b : LevelBook κ τ) (p : Ptr) : KeepsKeys b (b.linkOrder p) := by
  unfold linkOrder
  split
  · refine (ends_allocate _ _).bind fun r _ ↦ (keepsKeys_addOrdersAtPrice _ _).imp fun b' hb' ↦ ?_
    exact hb'.trans ((keyAt_levelPool _ r.2).trans (by simp))
  · refine (ends_deref _).bind fun first _ ↦ (ends_deref _).bind fun last _ ↦ ?_
    exact (show _ = _ by simp)

end Insert

section Remove

theorem keepsKeys_unlinkLevel (b : LevelBook κ τ) (side : Side) (l : Ptr) :
    KeepsKeys b (b.unlinkLevel side l) := by
  unfold unlinkLevel
  split
  · exact (show _ = _ by simp)
  · refine (ends_deref _).bind fun prev _ ↦ (ends_deref _).bind fun next _ ↦ ?_
    dsimp only
    split <;> exact (show _ = _ by simp)

theorem keepsKeys_removeOrdersAtPrice (b : LevelBook κ τ) (side : Side) (price : Price) :
    KeepsKeys b (b.removeOrdersAtPrice side price) := by
  unfold removeOrdersAtPrice
  refine (ends_deref _).bind fun l _ ↦ (keepsKeys_unlinkLevel ..).bind fun b' hb' ↦ ?_
  exact (ends_deallocate _ _).bind fun pool _ ↦ hb'

theorem keepsKeys_unlinkOrder (b : LevelBook κ τ) (p : Ptr) : KeepsKeys b (b.unlinkOrder p) := by
  unfold unlinkOrder
  dsimp only
  split
  · exact keepsKeys_removeOrdersAtPrice ..
  · refine (ends_deref _).bind fun before _ ↦ (ends_deref _).bind fun after _ ↦
      (ends_deref _).bind fun l _ ↦ ?_
    split <;> exact (show _ = _ by simp)

end Remove

section Table

variable [DecidableEq τ] [TableKey κ τ] {E : Fault → Prop} {p : Ptr}

theorem ends_setTable (b : LevelBook κ τ) {key : κ} (hkey : TableKey.entry key = none → E .outOfRange)
    (v : Option Ptr) : Ends (b.setTable key v) (fun b' ↦ b'.keyAt = b.keyAt) E := by
  unfold setTable
  cases hk : TableKey.entry key with
  | none => exact hkey hk
  | some k => exact (rfl : _ = _)

theorem ends_addOrder (hE : ∀ f, ¬ f.Indexes → E f)
    (hkey : TableKey.entry (b.keyAt p) = none → E .outOfRange) :
    Ends (b.addOrder p) (fun b' ↦ b'.keyAt = b.keyAt) E := by
  refine ((keepsKeys_linkOrder b p).imp_error hE).bind fun b' hb' ↦ ?_
  rw [← hb'] at hkey
  exact (ends_setTable b' hkey _).imp fun b'' hb'' ↦ hb''.trans hb'

theorem ends_removeOrder (hE : ∀ f, ¬ f.Indexes → E f)
    (hkey : TableKey.entry (b.keyAt p) = none → E .outOfRange) :
    Ends (b.removeOrder p) (fun b' ↦ b'.keyAt = b.keyAt) E := by
  refine ((keepsKeys_unlinkOrder b p).imp_error hE).bind fun b₁ hb₁ ↦ ?_
  rw [← hb₁] at hkey
  refine (ends_setTable b₁ hkey _).bind fun b₂ hb₂ ↦
    ((ends_deallocate _ _).imp_error hE).bind fun pool hpool ↦ ?_
  have hsame : keyAt { b₂ with orderPool := pool } = b₂.keyAt := by
    funext q
    simp only [keyAt, order, hpool]
  exact hsame.trans (hb₂.trans hb₁)

end Table

end LowLatency.Book
