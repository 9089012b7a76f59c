import Mathlib.Data.List.Sort

namespace LowLatency

variable {α K : Type} [LinearOrder K] {key : α → K} {xs out out' : List α} {x y : α}

/-- What a sort by `key` may make of the list. -/
structure SortedBy (key : α → K) (xs out : List α) : Prop where
  perm : out.Perm xs
  sorted : out.Pairwise fun x y ↦ key x ≤ key y

/-- Elements with the same key stand as they stood before. -/
def KeepsTies (key : α → K) (xs out : List α) : Prop :=
  ∀ k, out.filter (key · = k) = xs.filter (key · = k)

theorem sortedBy_insertionSort (h : out.Perm xs) :
    SortedBy key xs (out.insertionSort fun x y ↦ key x ≤ key y) := by
  have htotal : Std.Total fun x y ↦ key x ≤ key y := ⟨fun x y ↦ le_total (key x) (key y)⟩
  have htrans : IsTrans α fun x y ↦ key x ≤ key y := ⟨fun x y z ↦ le_trans⟩
  exact ⟨(List.perm_insertionSort _ out).trans h, List.pairwise_insertionSort _ out⟩

theorem keepsTies_insertionSort (key : α → K) (xs : List α) :
    KeepsTies key xs (xs.insertionSort fun x y ↦ key x ≤ key y) := by
  intro k
  have hties : (xs.filter (key · = k)).Pairwise fun x y ↦ key x ≤ key y := by
    apply List.pairwise_of_forall_mem_list
    intro x hx y hy
    have hx' := of_decide_eq_true (List.mem_filter.mp hx).2
    have hy' := of_decide_eq_true (List.mem_filter.mp hy).2
    exact (hx'.trans hy'.symm).le
  have hsub := (List.sublist_insertionSort hties List.filter_sublist).filter (key · = k)
  simp only [List.filter_filter, Bool.and_self] at hsub
  have hperm := (List.perm_insertionSort (fun x y ↦ key x ≤ key y) xs).filter (key · = k)
  exact (hsub.eq_of_length hperm.length_eq.symm).symm

namespace SortedBy

theorem keys_eq (h : SortedBy key xs out) (h' : SortedBy key xs out') :
    out.map key = out'.map key := by
  apply ((h.perm.trans h'.perm.symm).map key).eq_of_sortedLE
  · exact (List.pairwise_map.mpr h.sorted).sortedLE
  · exact (List.pairwise_map.mpr h'.sorted).sortedLE

theorem keepsTies (h : SortedBy key xs out)
    (huniq : ∀ x ∈ xs, ∀ y ∈ xs, key x = key y → x = y) : KeepsTies key xs out := by
  intro k
  have hperm := h.perm.filter (key · = k)
  cases hties : xs.filter (key · = k) with
  | nil =>
    rw [hties] at hperm
    exact hperm.eq_nil
  | cons x rest =>
    have hmem (y : α) (hy : y ∈ xs.filter (key · = k)) : y ∈ xs ∧ key y = k := by
      simpa using hy
    have hx := hmem x (hties ▸ List.mem_cons_self)
    have hsame : ∀ y ∈ x :: rest, y = x := by
      intro y hy
      have hy' := hmem y (hties ▸ hy)
      exact huniq y hy'.1 x hx.1 (hy'.2.trans hx.2.symm)
    rw [hties, List.eq_replicate_of_mem hsame] at hperm
    rw [List.perm_replicate.mp hperm, ← List.eq_replicate_of_mem hsame]

end SortedBy

variable [DecidableEq α]

def sortFrom (key : α → K) (x : α) (xs : List α) : List α :=
  (x :: xs.erase x).insertionSort fun x y ↦ key x ≤ key y

theorem sortedBy_sortFrom (hx : x ∈ xs) : SortedBy key xs (sortFrom key x xs) :=
  sortedBy_insertionSort (List.perm_cons_erase hx).symm

theorem head_of_keepsTies (h : KeepsTies key xs (sortFrom key x xs)) :
    (xs.filter (key · = key x)).head? = some x := by
  rw [← h, sortFrom, keepsTies_insertionSort key _ (key x), List.filter_cons_of_pos (by simp),
    List.head?_cons]

/-- Only a list in which equal keys belong to equal elements is sorted in one way. -/
theorem forall_keepsTies_iff :
    (∀ out, SortedBy key xs out → KeepsTies key xs out) ↔
      ∀ x ∈ xs, ∀ y ∈ xs, key x = key y → x = y := by
  constructor
  · intro h x hx y hy hkey
    have hhead := head_of_keepsTies (h _ (sortedBy_sortFrom hx))
    rw [hkey, head_of_keepsTies (h _ (sortedBy_sortFrom hy))] at hhead
    exact (Option.some.inj hhead).symm
  · intro h out hout
    exact hout.keepsTies h

end LowLatency
