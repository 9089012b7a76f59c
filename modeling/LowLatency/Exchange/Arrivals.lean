import LowLatency.Book.Shrinks
import LowLatency.Exchange.Runs

namespace LowLatency.Exchange

open Common Book MEOrderBook

/-- A book and the calls that added the orders resting in it, oldest first, with their addresses. -/
structure Session where
  book : MEOrderBook
  arrivals : List (Ptr × NewOrder)

def arrive (old : List (Ptr × NewOrder)) (c : Call) (a : Ladder MEOrderKey) :
    List (Ptr × NewOrder) :=
  let resting := a.entries.map Entry.ptr
  old.filter (·.1 ∈ resting) ++ match c with
    | .add o => ((resting.find? (· ∉ old.map Prod.fst)).map (·, o)).toList
    | .cancel _ _ _ => []

namespace Session

def start (tickerId : TickerId) : Session := ⟨.new tickerId, []⟩

def step (x : Session) (c : Call) : Except Halt Session := do
  let s ← x.book.step c
  return ⟨s, arrive x.arrivals c s.ladder⟩

def run (x : Session) (calls : List Call) : Except Halt Session := calls.foldlM step x

variable {x x' : Session} {c : Call} {cs : List Call} {tickerId : TickerId}

theorem step_ok : x.step c = .ok x' ↔
    x.book.step c = .ok x'.book ∧ x'.arrivals = arrive x.arrivals c x'.book.ladder := by
  unfold step
  cases x.book.step c with
  | ok s =>
    constructor
    · intro h
      obtain rfl := Except.ok.inj h
      exact ⟨rfl, rfl⟩
    · rintro ⟨h, harr⟩
      obtain rfl := Except.ok.inj h
      cases x'
      simp only at harr
      rw [harr]
      rfl
  | error e => simp

theorem run_book (x : Session) (cs : List Call) :
    (x.run cs).map Session.book = x.book.run cs := by
  unfold run MEOrderBook.run
  induction cs generalizing x with
  | nil => rfl
  | cons c cs ih =>
    rw [List.foldlM_cons, List.foldlM_cons]
    cases h : x.book.step c with
    | ok s =>
      have hstep : x.step c = .ok ⟨s, arrive x.arrivals c s.ladder⟩ := step_ok.mpr ⟨h, rfl⟩
      rw [hstep]
      exact ih _
    | error e =>
      have hstep : x.step c = .error e := by rw [step, h]; rfl
      rw [hstep]
      rfl

/-- The record names exactly the resting orders, and every level queues them as they arrived. -/
structure Logged (arrivals : List (Ptr × NewOrder)) (a : Ladder MEOrderKey) : Prop where
  nodup : (arrivals.map Prod.fst).Nodup
  mem_iff : ∀ p, p ∈ arrivals.map Prod.fst ↔ ∃ e ∈ a.entries, e.ptr = p
  made : ∀ e ∈ a.entries, ∀ o, (e.ptr, o) ∈ arrivals → e.key.clientId = o.tickerId ∧
    e.key.tickerId = o.clientId ∧ e.key.clientOrderId = o.clientOrderId ∧ e.side = o.side ∧
    e.price = o.price
  queued : ∀ l ∈ a.levels, (l.orders.map Entry.ptr).Sublist (arrivals.map Prod.fst)

theorem filter_map_fst (q : Ptr → Bool) (arrivals : List (Ptr × NewOrder)) :
    (arrivals.filter (q ·.1)).map Prod.fst = (arrivals.map Prod.fst).filter q :=
  List.filter_map.symm

theorem Logged.shrink {arrivals : List (Ptr × NewOrder)} {a a' : Ladder MEOrderKey}
    (h : Logged arrivals a) (hs : a'.Shrinks a) :
    Logged (arrivals.filter (·.1 ∈ a'.entries.map Entry.ptr)) a' where
  nodup := h.nodup.sublist (List.filter_sublist.map _)
  mem_iff := fun p ↦ by
    rw [filter_map_fst (fun p ↦ decide (p ∈ a'.entries.map Entry.ptr)), List.mem_filter,
      decide_eq_true_eq, h.mem_iff, List.mem_map]
    constructor
    · exact And.right
    · rintro ⟨e', he', rfl⟩
      obtain ⟨e, he, hf⟩ := hs.exists_entry he'
      exact ⟨⟨e, he, (Entry.fixed_eq hf).1.symm⟩, e', he', rfl⟩
  made := fun e' he' o ho ↦ by
    obtain ⟨e, he, hf⟩ := hs.exists_entry he'
    obtain ⟨hp, hk, hside, hprice, -⟩ := Entry.fixed_eq hf
    rw [hk, hside, hprice]
    exact h.made e he o (hp ▸ (List.mem_filter.mp ho).1)
  queued := fun l' hl' ↦ by
    obtain ⟨side, hside, hl⟩ := Ladder.mem_levels.mp hl'
    obtain ⟨l, hm, hshr⟩ := hs.exists_level hl
    have hsub : (l'.orders.map Entry.ptr).Sublist (l.orders.map Entry.ptr) := by
      simpa [List.map_map, Function.comp_def, Entry.fixed] using hshr.orders.map Entry.ptr
    have hall : (l'.orders.map Entry.ptr).filter (· ∈ a'.entries.map Entry.ptr) =
        l'.orders.map Entry.ptr := List.filter_eq_self.mpr fun p hp ↦ by
      obtain ⟨e, he, rfl⟩ := List.mem_map.mp hp
      exact decide_eq_true (List.mem_map_of_mem
        (Ladder.mem_entries.mpr ⟨side, hside, mem_queue.mpr ⟨l', hl, he⟩⟩))
    rw [filter_map_fst (fun p ↦ decide (p ∈ a'.entries.map Entry.ptr)), ← hall]
    exact (hsub.trans (h.queued l (Ladder.mem_levels.mpr ⟨side, hside, hm⟩))).filter _

theorem Logged.rest {arrivals : List (Ptr × NewOrder)} {a : Ladder MEOrderKey}
    (h : Logged arrivals a) {e : Entry MEOrderKey} {lp : Ptr} {o : NewOrder}
    (hs : e.side ≠ .INVALID) (hd : ((a.on e.side).map fun l ↦ priceToIndex l.price).Nodup)
    (hfresh : ∀ e' ∈ a.entries, e'.ptr ≠ e.ptr) (hmade : e.key.clientId = o.tickerId ∧
      e.key.tickerId = o.clientId ∧ e.key.clientOrderId = o.clientOrderId ∧ e.side = o.side ∧
      e.price = o.price) : Logged (arrivals ++ [(e.ptr, o)]) (a.rest lp e) := by
  have hnew : e.ptr ∉ arrivals.map Prod.fst := fun hp ↦ by
    obtain ⟨e', he', hpe⟩ := (h.mem_iff _).mp hp
    exact hfresh e' he' hpe
  have hmem : ∀ e', e' ∈ (a.rest lp e).entries ↔ e' ∈ a.entries ∨ e' = e := fun e' ↦
    Ladder.mem_entries_rest hs hd
  refine ⟨?_, fun p ↦ ?_, ?_, ?_⟩
  · simpa [List.nodup_append] using ⟨h.nodup, fun p o' hp he ↦ hnew (List.mem_map.mpr ⟨_, hp, he⟩)⟩
  · rw [List.map_append, List.mem_append, h.mem_iff]
    simp only [hmem, List.map_cons, List.map_nil, List.mem_singleton]
    constructor
    · rintro (⟨e', he', hp⟩ | rfl)
      · exact ⟨e', .inl he', hp⟩
      · exact ⟨e, .inr rfl, rfl⟩
    · rintro ⟨e', he' | rfl, hp⟩
      · exact .inl ⟨e', he', hp⟩
      · exact .inr hp.symm
  · intro e' he' o' ho'
    rcases (hmem e').mp he' with he' | rfl
    · rcases List.mem_append.mp ho' with ho' | ho'
      · exact h.made e' he' o' ho'
      · obtain ⟨hp, -⟩ := Prod.mk.inj (List.mem_singleton.mp ho')
        exact absurd hp (hfresh e' he')
    · rcases List.mem_append.mp ho' with ho' | ho'
      · exact absurd (List.mem_map_of_mem ho') hnew
      · obtain ⟨-, rfl⟩ := Prod.mk.inj (List.mem_singleton.mp ho')
        exact hmade
  · intro l' hl'
    rw [List.map_append]
    rcases Ladder.mem_levels_rest hs hl' with hl | ⟨l, hl, -, rfl⟩ | rfl
    · exact (h.queued l' hl).trans (List.sublist_append_left _ _)
    · rw [List.map_append]
      exact (h.queued l (Ladder.mem_levels.mpr ⟨e.side, hs, hl⟩)).append (.refl _)
    · exact List.sublist_append_right _ _

section Arrive

variable {old : List (Ptr × NewOrder)} {a a' : Ladder MEOrderKey} {o : NewOrder}

theorem arrive_subset (h : ∀ e ∈ a.entries, e.ptr ∈ old.map Prod.fst) :
    arrive old (.add o) a = old.filter (·.1 ∈ a.entries.map Entry.ptr) := by
  have hnone : (a.entries.map Entry.ptr).find? (· ∉ old.map Prod.fst) = none := by
    rw [List.find?_eq_none]
    intro p hp
    obtain ⟨e, he, rfl⟩ := List.mem_map.mp hp
    simpa using h e he
  rw [arrive, hnone, Option.map_none, Option.toList_none, List.append_nil]

theorem arrive_new {p : Ptr} (hp : p ∉ old.map Prod.fst)
    (h : ∀ e ∈ a.entries, e.ptr ∈ old.map Prod.fst)
    (hmem : ∀ q, q ∈ a'.entries.map Entry.ptr ↔ q ∈ a.entries.map Entry.ptr ∨ q = p) :
    arrive old (.add o) a' = old.filter (·.1 ∈ a.entries.map Entry.ptr) ++ [(p, o)] := by
  have hfilter : old.filter (·.1 ∈ a'.entries.map Entry.ptr) =
      old.filter (·.1 ∈ a.entries.map Entry.ptr) :=
    List.filter_congr fun q hq ↦ by
      have hne : q.1 ≠ p := fun heq ↦ hp (heq ▸ List.mem_map_of_mem hq)
      simp only [hmem, hne, or_false]
  have hfind : (a'.entries.map Entry.ptr).find? (· ∉ old.map Prod.fst) = some p := by
    cases hq : (a'.entries.map Entry.ptr).find? (· ∉ old.map Prod.fst) with
    | none =>
      have hin := List.find?_eq_none.mp hq p ((hmem p).mpr (.inr rfl))
      exact absurd (by simpa using hin) hp
    | some q =>
      have hnot : q ∉ old.map Prod.fst := by simpa using List.find?_some hq
      rcases (hmem q).mp (List.mem_of_find?_eq_some hq) with hin | hin
      · obtain ⟨e, he, rfl⟩ := List.mem_map.mp hin
        exact absurd (h e he) hnot
      · rw [hin]
  simp only [arrive, hfilter, hfind, Option.map_some, Option.toList_some]

end Arrive

theorem Logged.mem_of_shrinks {arrivals : List (Ptr × NewOrder)} {a a' : Ladder MEOrderKey}
    (h : Logged arrivals a) (hs : a'.Shrinks a) :
    ∀ e ∈ a'.entries, e.ptr ∈ arrivals.map Prod.fst := fun e' he' ↦ by
  obtain ⟨e, he, hf⟩ := hs.exists_entry he'
  exact (h.mem_iff _).mpr ⟨e, he, (Entry.fixed_eq hf).1.symm⟩

theorem Logged.step (hs : x.book.Sound) (hl : Logged x.arrivals x.book.ladder)
    (hadm : x.book.Admitted c) (hrun : x.step c = .ok x') : Logged x'.arrivals x'.book.ladder := by
  obtain ⟨hbook, harr⟩ := step_ok.mp hrun
  rw [harr]
  cases hs.outcome hadm hbook with
  | canceled _ hlad =>
    rw [arrive, List.append_nil, hlad]
    exact hl.shrink (Ladder.shrinks_remove _ _)
  | rejected hs' =>
    rw [arrive, List.append_nil, hs']
    exact hl.shrink (.refl _)
  | traded _ hlad =>
    have hshr := Ladder.shrinks_traded x.book.ladder
    rw [hlad, arrive_subset (hl.mem_of_shrinks (hshr _))]
    exact hl.shrink (hshr _)
  | @rested o lp _ hlad =>
    have hshr := Ladder.shrinks_swept x.book.ladder o.side o.price
    have hside : (restingEntry x.book x.book.ladder o).side ≠ .INVALID := hadm.1
    have hnew : (restingEntry x.book x.book.ladder o).ptr ∉ x.arrivals.map Prod.fst := fun hp ↦ by
      obtain ⟨e, he, hpe⟩ := (hl.mem_iff _).mp hp
      exact fresh_restingEntry hs o e he hpe
    rw [hlad, arrive_new hnew (hl.mem_of_shrinks hshr) fun q ↦ by
      simp only [List.mem_map, mem_entries_rested hs hadm.1, or_and_right, exists_or,
        exists_eq_left, eq_comm]]
    exact (hl.shrink hshr).rest hside (swept_slots_nodup hs hadm.1) (fresh_swept hs o)
      ⟨rfl, rfl, rfl, rfl, rfl⟩

theorem logged_start (tickerId : TickerId) :
    Logged (start tickerId).arrivals (start tickerId).book.ladder where
  nodup := List.nodup_nil
  mem_iff := fun p ↦ by
    have hnil : (start tickerId).book.ladder.entries = [] := rfl
    have hnone : (start tickerId).arrivals = [] := rfl
    simp [hnil, hnone]
  made := fun e he ↦ by
    have hnil : (start tickerId).book.ladder.entries = [] := rfl
    simp [hnil] at he
  queued := fun l hl ↦ by
    have hnil : (start tickerId).book.ladder.levels = [] := rfl
    simp [hnil] at hl

theorem mem_arrive {old : List (Ptr × NewOrder)} {a : Ladder MEOrderKey} {q : Ptr × NewOrder}
    (h : q ∈ arrive old c a) : q ∈ old ∨ c = .add q.2 := by
  rcases List.mem_append.mp h with h | h
  · exact .inl (List.mem_filter.mp h).1
  · cases c with
    | add o =>
      obtain ⟨p, -, rfl⟩ := Option.map_eq_some_iff.mp (Option.mem_toList.mp h)
      exact .inr rfl
    | cancel clientId orderId tickerId => cases h

end Session

def adds (cs : List Call) : List NewOrder :=
  cs.filterMap fun
    | .add o => some o
    | .cancel _ _ _ => none

theorem adds_append (cs ds : List Call) : adds (cs ++ ds) = adds cs ++ adds ds :=
  List.filterMap_append

end LowLatency.Exchange
