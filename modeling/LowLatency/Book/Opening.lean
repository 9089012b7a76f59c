import LowLatency.Book.Rest
import LowLatency.Book.Search

namespace LowLatency.Book

open Common Function LinkedRing LevelBook

variable {κ τ : Type} {b b' : LevelBook κ τ} {a : Ladder κ} {side : Side} {price : Price}

/-- The book and the new level with which `addOrder` comes to `addOrdersAtPrice`; `none` if the order
joins a level that is there. -/
def LevelBook.opening (b : LevelBook κ τ) (p : Ptr) : Except Fault (Option (LevelBook κ τ × Ptr)) :=
  match b.getOrdersAtPrice (b.order p).price with
  | some _ => .ok none
  | none => do
    let b := (b.setPrevOrder p (some p)).setNextOrder p (some p)
    let (l, pool) ← b.ordersAtPricePool.allocate
      ⟨(b.order p).side, (b.order p).price, some p, none, none⟩
    return some ({ b with ordersAtPricePool := pool }, l)

/-- The search for the place of the new level `l` ends, and goes over no level of the side twice. -/
def LevelBook.SearchEnds (b : LevelBook κ τ) (l : Ptr) : Prop :=
  let side := b.levelSide l
  let price := b.levelPrice l
  let b := b.setPrice price (some l)
  ∀ best, b.best side = some best → ∃ vs r, b.Searches side price best vs r ∧
    b.searchTarget side price best = .ok r ∧ (best :: vs).Nodup ∧
    ∀ v ∈ vs, b.ordersAtPricePool.Live v ∧ b.levelSide v = side

theorem linkOrder_of_opening {p l : Ptr} (h : b.opening p = .ok (some (b', l))) :
    b.linkOrder p = b'.addOrdersAtPrice l := by
  unfold opening at h
  unfold linkOrder
  split at h
  · cases h
  · next hget =>
    rw [hget]
    obtain ⟨r, halloc, hr⟩ := bind_eq_ok h
    cases hr
    dsimp only at halloc ⊢
    rw [halloc]
    rfl

theorem not_passes {best : Ptr} {S : Ptr → Prop} (hS : ∀ t, S t → t ≠ best ∧
    addAfter side price (b.levelPrice t) ∧ ∃ n, b.nextEntry t = some n ∧ S n) {target : Ptr}
    {vs : List Ptr} {r : Ptr × Bool} (ht : S target) :
    ¬ b.Passes side price best target true vs r := by
  intro h
  obtain ⟨after, hafter⟩ : ∃ after, after = true := ⟨_, rfl⟩
  rw [← hafter] at h
  induction h with
  | leave h => exact h ⟨hafter, (hS _ ht).1⟩
  | advance _ _ hn _ ih =>
    obtain ⟨-, -, n, hn', hnS⟩ := hS _ ht
    exact ih (Option.some.inj (hn.symm.trans hn') ▸ hnS) rfl
  | settle _ ha _ => exact ha (hS _ ht).2.1

theorem SideRep.searchEnds {ls : List (Level κ)} {l : Ptr} (h : SideRep b side ls)
    (hside : b.levelSide l = side)
    (hin : ∀ m ∈ ls, m.ptr < b.ordersAtPricePool.size ∧ b.ordersAtPricePool.Live m.ptr) :
    b.SearchEnds l := by
  have h₁ : SideRep (b.setPrice (b.levelPrice l) (some l)) side ls :=
    (sameLists_setPrice b _ _).sideRep h
  obtain ⟨b₁, hb₁⟩ : ∃ b₁, b₁ = b.setPrice (b.levelPrice l) (some l) := ⟨_, rfl⟩
  have hpool : b₁.ordersAtPricePool = b.ordersAtPricePool := by rw [hb₁]; rfl
  rw [LevelBook.SearchEnds, hside, ← hb₁]
  rw [← hb₁] at h₁
  intro best hbest
  rw [h₁.best_eq] at hbest
  cases ls with
  | nil => cases hbest
  | cons m ls =>
    obtain rfl := Option.some.inj hbest
    have hring := h₁.ring
    have hd := h₁.levels_nodup
    rw [List.map_cons] at hring hd
    obtain ⟨vs, r, hr, hpre, -⟩ := exists_searches hring hd side (b.levelPrice l)
    refine ⟨vs, r, hr, hr.searchTarget_eq ?_, ?_, fun v hv ↦ ?_⟩
    · have hlt : ∀ p ∈ ls.map Level.ptr, p < b.ordersAtPricePool.size := by
        intro p hp
        obtain ⟨m', hm', rfl⟩ := List.mem_map.mp hp
        exact (hin m' (List.mem_cons_of_mem m hm')).1
      rw [hpool]
      exact hpre.length_le.trans (length_le_of_lt (List.nodup_cons.mp hd).2 hlt)
    · exact hd.sublist (hpre.sublist.cons_cons m.ptr)
    · obtain ⟨m', hm', rfl⟩ := List.mem_map.mp (hpre.mem hv)
      have hmem := List.mem_cons_of_mem m hm'
      rw [hpool]
      exact ⟨(hin m' hmem).2, (h₁.level_rep m' hmem).side_eq⟩

theorem searchEnds_of_invalid {l : Ptr} (h : b.levelSide l = .INVALID) : b.SearchEnds l := by
  rw [LevelBook.SearchEnds, h]
  intro best _
  have hafter : ∀ p q, ¬ addAfter .INVALID p q := fun p q ↦ by simp [addAfter]
  refine ⟨[], (best, false), ?_, ?_, by simp, by simp⟩
  · rw [LevelBook.Searches, if_neg (hafter _ _)]
    exact .leave (by simp)
  · rw [searchTarget, if_neg (hafter _ _), findTarget, if_neg (by simp)]

theorem Linked.searchEnds (h : Linked b a) (hpool : b.ordersAtPricePool.Ok)
    (hlive : ∀ q, b.ordersAtPricePool.Live q ↔ ∃ l ∈ a.levels, l.ptr = q) {p l : Ptr}
    (hfresh : ∀ e ∈ a.entries, e.ptr ≠ p) (hopen : b.opening p = .ok (some (b', l))) :
    b'.SearchEnds l := by
  unfold opening at hopen
  split at hopen
  · cases hopen
  obtain ⟨⟨l', lpool⟩, hlevel, hr⟩ := bind_eq_ok hopen
  cases hr
  have hnew : (⟨(((b.setPrevOrder p (some p)).setNextOrder p (some p)).order p).side,
      (((b.setPrevOrder p (some p)).setNextOrder p (some p)).order p).price, some p, none, none⟩ :
        OrdersAtPrice) = ⟨(b.entryAt p).side, (b.entryAt p).price, some p, none, none⟩ := by
    simp
  rw [hnew] at hlevel
  rcases MemPool.allocate_cases hpool ⟨(b.entryAt p).side, (b.entryAt p).price, some p, none, none⟩ with
      ⟨lpool', hlevel', hok, -, hget, hlplive⟩ | ⟨herr, -⟩
  · obtain ⟨rfl, rfl⟩ := Prod.mk.inj (Except.ok.inj (hlevel'.symm.trans hlevel))
    have hnl : ∀ m ∈ a.levels, m.ptr ≠ b.ordersAtPricePool.nextFreeIndex := fun m hm c ↦
      hpool.next_free (c ▸ (hlive _).mpr ⟨m, hm, rfl⟩)
    obtain ⟨hlinked, -, hrep⟩ := h.open_level (e := b.entryAt p) rfl hfresh hnl hget rfl
    by_cases hs : (b.entryAt p).side = .INVALID
    · exact searchEnds_of_invalid (hrep.side_eq.trans hs)
    · refine (hlinked.side_rep _ hs).searchEnds hrep.side_eq fun m hm ↦ ?_
      have hmlive := (hlplive m.ptr).mpr (.inr ((hlive _).mpr ⟨m, Ladder.mem_levels.mpr ⟨_, hs, hm⟩, rfl⟩))
      exact ⟨hok.bounded _ hmlive, hmlive⟩
  · cases hlevel.symm.trans herr

/-- Whichever order is added to a book whose lists are intact, the search for its level ends. -/
theorem Represents.searchEnds [TableKey κ τ] (h : Represents b a) {node : OrderNode κ}
    {pool : MemPool (OrderNode κ)} {p l : Ptr} (halloc : b.orderPool.allocate node = .ok (p, pool))
    (hopen : LevelBook.opening { b with orderPool := pool } p = .ok (some (b', l))) :
    b'.SearchEnds l := by
  rcases MemPool.allocate_cases h.order_pool node with ⟨pool', halloc', -, -, hget, -⟩ | ⟨herr, -⟩
  · obtain ⟨rfl, rfl⟩ := Prod.mk.inj (Except.ok.inj (halloc'.symm.trans halloc))
    obtain ⟨hlinked, -⟩ := h.linked.construct (fun _ ↦ h.fresh) hget
    exact hlinked.searchEnds h.level_pool h.level_live (fun _ ↦ h.fresh) hopen
  · cases halloc.symm.trans herr

end LowLatency.Book
