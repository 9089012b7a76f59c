import LowLatency.Book.Frame

namespace LowLatency.Book

open Common Function LinkedRing LevelBook

variable {κ τ : Type} {b : LevelBook κ τ} {a : Ladder κ} {side : Side} {price : Price}

/-- The `while` loop ends with the target and the condition `r`, and its body has run once for each of
the targets `vs`. -/
inductive LevelBook.Passes (b : LevelBook κ τ) (side : Side) (price : Price) (best : Ptr) :
    Ptr → Bool → List Ptr → Ptr × Bool → Prop
  | leave {target : Ptr} {after : Bool} (h : ¬ (after ∧ target ≠ best)) :
      Passes b side price best target after [] (target, after)
  | advance {target next : Ptr} {vs : List Ptr} {r : Ptr × Bool} (h : target ≠ best)
      (ha : addAfter side price (b.levelPrice target)) (hn : b.nextEntry target = some next)
      (hp : Passes b side price best next true vs r) :
      Passes b side price best target true (target :: vs) r
  | settle {target : Ptr} {vs : List Ptr} {r : Ptr × Bool} (h : target ≠ best)
      (ha : ¬ addAfter side price (b.levelPrice target))
      (hp : Passes b side price best target false vs r) :
      Passes b side price best target true (target :: vs) r

def LevelBook.Searches (b : LevelBook κ τ) (side : Side) (price : Price) (best : Ptr) (vs : List Ptr)
    (r : Ptr × Bool) : Prop :=
  if addAfter side price (b.levelPrice best) then
    ∃ target, b.nextEntry best = some target ∧
      b.Passes side price best target (addAfter side price (b.levelPrice target)) vs r
  else b.Passes side price best best false vs r

theorem LevelBook.Passes.findTarget_eq {best target : Ptr} {after : Bool} {vs : List Ptr}
    {r : Ptr × Bool} (h : b.Passes side price best target after vs r) {fuel : ℕ}
    (hlen : vs.length < fuel) : b.findTarget side price best fuel target after = .ok r := by
  induction h generalizing fuel with
  | leave h =>
    cases fuel with
    | zero => cases hlen
    | succ fuel =>
      rw [findTarget, if_neg (by simpa using h)]
  | advance h ha hn _ ih =>
    cases fuel with
    | zero => cases hlen
    | succ fuel =>
      rw [findTarget, if_pos (by simpa using h), if_pos ha, hn, deref_some, ok_bind]
      exact ih (Nat.lt_of_succ_lt_succ hlen)
  | settle h ha _ ih =>
    cases fuel with
    | zero => cases hlen
    | succ fuel =>
      rw [findTarget, if_pos (by simpa using h), if_neg ha]
      exact ih (Nat.lt_of_succ_lt_succ hlen)

theorem LevelBook.Searches.searchTarget_eq {best : Ptr} {vs : List Ptr} {r : Ptr × Bool}
    (h : b.Searches side price best vs r) (hlen : vs.length ≤ b.ordersAtPricePool.size) :
    b.searchTarget side price best = .ok r := by
  unfold LevelBook.Searches at h
  unfold LevelBook.searchTarget
  split_ifs at h ⊢
  · obtain ⟨target, hn, hp⟩ := h
    rw [hn, deref_some, ok_bind]
    exact hp.findTarget_eq (by omega)
  · exact h.findTarget_eq (by omega)

theorem exists_passes {stop c : Ptr} {cs : List Ptr} (after : Bool)
    (h : (c :: cs ++ [stop]).IsChain (Neighbours b.nextEntry b.prevEntry)) (hs : stop ∉ c :: cs) :
    ∃ vs r, b.Passes side price stop c after vs r ∧ vs <+: c :: cs ∧ r.1 ∈ c :: cs ++ [stop] := by
  have hc : c ≠ stop := fun e ↦ hs (e ▸ List.mem_cons_self)
  induction cs generalizing c after with
  | nil =>
    have hnext := (List.isChain_pair.mp h).1
    cases after with
    | false => exact ⟨_, _, .leave (by simp), List.nil_prefix, by simp⟩
    | true =>
      by_cases ha : addAfter side price (b.levelPrice c)
      · exact ⟨_, _, .advance hc ha hnext (.leave (by simp)), List.prefix_rfl, by simp⟩
      · exact ⟨_, _, .settle hc ha (.leave (by simp)), List.prefix_rfl, by simp⟩
  | cons d cs ih =>
    obtain ⟨hcd, h'⟩ := List.isChain_cons_cons.mp h
    have hs' : stop ∉ d :: cs := fun hm ↦ hs (List.mem_cons_of_mem c hm)
    cases after with
    | false => exact ⟨_, _, .leave (by simp), List.nil_prefix, by simp⟩
    | true =>
      by_cases ha : addAfter side price (b.levelPrice c)
      · obtain ⟨vs, r, hp, hpre, hr⟩ := ih true h' hs' fun e ↦ hs' (e ▸ List.mem_cons_self)
        exact ⟨_, r, .advance hc ha hcd.1 hp, List.cons_prefix_cons.mpr ⟨rfl, hpre⟩,
          List.mem_cons_of_mem c hr⟩
      · exact ⟨_, _, .settle hc ha (.leave (by simp)),
          List.cons_prefix_cons.mpr ⟨rfl, List.nil_prefix⟩, by simp⟩

/-- On a ring the search ends for any price, and passes each level at most once. -/
theorem exists_searches {m : Ptr} {ms : List Ptr} (h : IsRing b.nextEntry b.prevEntry (m :: ms))
    (hd : (m :: ms).Nodup) (side : Side) (price : Price) :
    ∃ vs r, b.Searches side price m vs r ∧ vs <+: ms ∧ r.1 ∈ m :: ms := by
  unfold LevelBook.Searches
  split_ifs with ha
  · cases ms with
    | nil =>
      refine ⟨[], (m, _), ⟨m, (isRing_singleton.mp h).1, .leave (by simp)⟩, List.prefix_rfl, ?_⟩
      exact List.mem_cons_self
    | cons c cs =>
      obtain ⟨vs, r, hp, hpre, hr⟩ := exists_passes _ (List.isChain_cons_cons.mp (isRing_cons.mp h)).2
        (List.nodup_cons.mp hd).1
      refine ⟨vs, r, ⟨c, h.next_head, hp⟩, hpre, ?_⟩
      simp only [List.mem_append, List.mem_cons, List.not_mem_nil, or_false] at hr ⊢
      tauto
  · exact ⟨[], _, .leave (by simp), List.nil_prefix, List.mem_cons_self⟩

theorem addOrdersAtPrice_returns {n : Ptr} {ls : List (Level κ)} (h : SideRep b side ls)
    (hside : b.levelSide n = side) (hn : n ∉ ls.map Level.ptr)
    (hlen : ls.length ≤ b.ordersAtPricePool.size) : ∃ b', b.addOrdersAtPrice n = .ok b' := by
  have h₁ : SideRep (b.setPrice (b.levelPrice n) (some n)) side ls :=
    (sameLists_setPrice b _ _).sideRep h
  obtain ⟨b₁, hb₁⟩ : ∃ b₁, b₁ = b.setPrice (b.levelPrice n) (some n) := ⟨_, rfl⟩
  rw [← hb₁] at h₁
  have hbest := h₁.best_eq
  rw [addOrdersAtPrice, hside, ← hb₁]
  cases ls with
  | nil =>
    rw [hbest]
    exact ⟨_, rfl⟩
  | cons m ls =>
    have hring := h₁.ring
    have hd := h₁.levels_nodup
    rw [List.map_cons] at hring hd hn
    obtain ⟨vs, r, hr, hpre, hmem⟩ := exists_searches hring hd side (b.levelPrice n)
    have hsearch := hr.searchTarget_eq (by
      have hle := hpre.length_le
      have hsize : b₁.ordersAtPricePool.size = b.ordersAtPricePool.size := by rw [hb₁]; rfl
      rw [List.length_map] at hle
      rw [List.length_cons] at hlen
      omega)
    have hne : ∀ t ∈ m.ptr :: ls.map Level.ptr, t ≠ n := fun t ht e ↦ hn (e ▸ ht)
    rw [hbest]
    simp only [List.head?_cons, Option.map_some, hsearch, ok_bind]
    split
    · -- behind the target, or behind the last level when the search came back to the best one
      have htarget : ∃ t ∈ m.ptr :: ls.map Level.ptr,
          (if r.1 = m.ptr then deref (b₁.prevEntry m.ptr) else .ok r.1) = .ok t := by
        split_ifs
        · obtain ⟨t, ht, htm⟩ := hring.exists_prev (x := m.ptr) (by simp)
          exact ⟨t, ht, by rw [htm.2, deref_some]⟩
        · exact ⟨r.1, hmem, rfl⟩
      obtain ⟨t, ht, hrun⟩ := htarget
      obtain ⟨z, -, htz⟩ := hring.exists_next ht
      have hnext : (b₁.setPrevEntry n (some t)).nextEntry t = some z := by simpa using htz.1
      rw [linkAfter_eq, hrun, ok_bind, hnext, deref_some, ok_bind]
      exact ⟨_, rfl⟩
    · obtain ⟨y, -, hyt⟩ := hring.exists_prev hmem
      have hprev : ((b₁.setPrevEntry n (b₁.nextEntry r.1)).setNextEntry n (some r.1)).prevEntry r.1 =
          some y := by simp [hne r.1 hmem, hyt.2]
      rw [linkBefore]
      simp only [hprev, deref_some, ok_bind]
      split_ifs <;> exact ⟨_, rfl⟩

theorem linkOrder_returns (h : Linked b a)
    (hin : ∀ l ∈ a.levels, l.ptr < b.ordersAtPricePool.size ∧ b.ordersAtPricePool.Live l.ptr)
    (hspare : b.ordersAtPricePool.Spare) {p : Ptr} (hfresh : ∀ e ∈ a.entries, e.ptr ≠ p)
    (hs : (b.order p).side ≠ .INVALID) : ∃ b', b.linkOrder p = .ok b' := by
  cases hget : b.getOrdersAtPrice (b.order p).price with
  | some lp =>
    obtain ⟨l, hl, rfl, -⟩ := (h.slot _ _).mp hget
    obtain ⟨side, hside, hon⟩ := Ladder.mem_levels.mp hl
    have hrep := h.side_rep side hside
    obtain ⟨b', hrun, -⟩ := linkOrder_links (hrep.level_rep l hon) (hrep.level_orders_nodup hon) (p := p)
      (fun hmem ↦ by
        obtain ⟨e, he, hp⟩ := List.mem_map.mp hmem
        exact hfresh e (Ladder.mem_entries.mpr ⟨side, hside, mem_queue.mpr ⟨l, hon, he⟩⟩) hp) hget
    exact ⟨b', hrun⟩
  | none =>
    obtain ⟨pool, halloc, hpget, hsize, -⟩ := hspare.allocate
      ⟨(b.entryAt p).side, (b.entryAt p).price, some p, none, none⟩
    have hnl : ∀ l ∈ a.levels, l.ptr ≠ b.ordersAtPricePool.nextFreeIndex := fun l hl c ↦
      hspare.ok.next_free (c ▸ (hin l hl).2)
    obtain ⟨hlinked, -, hnew⟩ := h.open_level (e := b.entryAt p) rfl hfresh hnl hpget rfl
    have hrep := hlinked.side_rep _ hs
    obtain ⟨b', hrun⟩ := addOrdersAtPrice_returns hrep hnew.side_eq (fun hmem ↦ by
      obtain ⟨l, hl, hp⟩ := List.mem_map.mp hmem
      exact hnl l (Ladder.mem_levels.mpr ⟨_, hs, hl⟩) hp)
      ((h.length_on_le (fun l hl ↦ (hin l hl).1) hs).trans_eq hsize.symm)
    refine ⟨b', (linkOrder_of_free (e := b.entryAt p) rfl hget).trans ?_⟩
    rw [ptr_entryAt, halloc, ok_bind]
    exact hrun

theorem addOrder_returns [DecidableEq τ] [TableKey κ τ] (h : Linked b a)
    (hin : ∀ l ∈ a.levels, l.ptr < b.ordersAtPricePool.size ∧ b.ordersAtPricePool.Live l.ptr)
    (hspare : b.ordersAtPricePool.Spare) {p : Ptr} (hfresh : ∀ e ∈ a.entries, e.ptr ≠ p)
    (hs : (b.order p).side ≠ .INVALID) (hkey : (TableKey.entry (b.keyAt p)).isSome) :
    ∃ b', b.addOrder p = .ok b' := by
  obtain ⟨b₁, hrun⟩ := linkOrder_returns h hin hspare hfresh hs
  have hkeys := keepsKeys_linkOrder b p
  rw [KeepsKeys, hrun] at hkeys
  have hsame : (b₁.order p).key = b.keyAt p := congrFun hkeys p
  obtain ⟨k, hk⟩ := Option.isSome_iff_exists.mp hkey
  exact ⟨_, by rw [addOrder, hrun, ok_bind, hsame, setTable, hk]⟩

end LowLatency.Book
