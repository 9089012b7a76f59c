import Mathlib.Tactic
import Std.Data.TreeMap.Lemmas

namespace LowLatency.OrderedMap

open Std

variable {K V : Type} [Ord K] {t : TreeMap K V} {k : K} {v : V}

@[simp] theorem toList_empty : (∅ : TreeMap K V).toList = [] := rfl

variable [TransOrd K] [LawfulEqOrd K]

theorem contains_iff : t.contains k = true ↔ ∃ v, (k, v) ∈ t.toList := by
  rw [TreeMap.contains_eq_isSome_getElem?, Option.isSome_iff_exists]
  simp [TreeMap.mem_toList_iff_getElem?_eq_some]

variable [DecidableEq K]

theorem mem_insert {e : K × V} (h : e ∈ (t.insert k v).toList) : e = (k, v) ∨ e ∈ t.toList := by
  rcases List.mem_cons.mp (TreeMap.toList_insert_perm.mem_iff.mp h) with he | he
  · exact .inl he
  · exact .inr (List.mem_filter.mp he).1

theorem toList_insert_of_lt (h : ∀ e ∈ t.toList, compare e.1 k = .lt) :
    (t.insert k v).toList = t.toList ++ [(k, v)] := by
  have hkeep : (t.toList.filter fun e ↦ decide ¬ (k == e.1) = true) = t.toList := by
    refine List.filter_eq_self.mpr fun e he ↦ ?_
    have hne : k ≠ e.1 := by
      intro hk
      have hlt := h e he
      rw [← hk, compare_self] at hlt
      cases hlt
    simpa using hne
  have hperm : (t.insert k v).toList.Perm (t.toList ++ [(k, v)]) := by
    refine TreeMap.toList_insert_perm.trans ?_
    rw [hkeep]
    exact (List.perm_append_singleton _ _).symm
  refine List.Perm.eq_of_pairwise ?_ TreeMap.ordered_keys_toList ?_ hperm
  · intro a b _ _ hab hba
    exact absurd hba (OrientedCmp.not_lt_of_lt hab)
  · exact List.pairwise_append.mpr ⟨TreeMap.ordered_keys_toList, List.pairwise_singleton _ _,
      fun a ha b hb ↦ by rw [List.mem_singleton.mp hb]; exact h a ha⟩

section InsertAll

variable {K V : Type} [Ord K] [TransOrd K] [LawfulEqOrd K] {t t' : TreeMap K V} {es es' : List (K × V)}

def insertAll (t : TreeMap K V) (es : List (K × V)) : TreeMap K V :=
  es.foldl (fun t e ↦ t.insert e.1 e.2) t

/-- No key comes with two values. -/
def Consistent (es : List (K × V)) : Prop := ∀ e ∈ es, ∀ e' ∈ es, e.1 = e'.1 → e = e'

theorem nodup_toList (t : TreeMap K V) : t.toList.Nodup :=
  TreeMap.ordered_keys_toList.imp fun hlt heq ↦ by
    rw [heq, compare_self] at hlt
    cases hlt

theorem toList_eq_of_getElem? (h : ∀ k : K, t[k]? = t'[k]?) : t.toList = t'.toList := by
  have hperm : t.toList.Perm t'.toList := by
    apply (List.perm_ext_iff_of_nodup (nodup_toList t) (nodup_toList t')).mpr
    intro e
    rw [TreeMap.mem_toList_iff_getElem?_eq_some, TreeMap.mem_toList_iff_getElem?_eq_some, h]
  apply hperm.eq_of_pairwise _ TreeMap.ordered_keys_toList TreeMap.ordered_keys_toList
  intro e e' _ _ hlt hgt
  exact absurd hgt (OrientedCmp.not_lt_of_lt hlt)

theorem getElem?_insertAll_of_not_mem {k : K} (h : ∀ e ∈ es, e.1 ≠ k) :
    (insertAll t es)[k]? = t[k]? := by
  induction es generalizing t with
  | nil => rfl
  | cons e es ih =>
    have hne : compare e.1 k ≠ .eq := fun heq ↦ h e List.mem_cons_self (LawfulEqOrd.eq_of_compare heq)
    refine (ih fun e' he' ↦ h e' (List.mem_cons_of_mem e he')).trans ?_
    rw [TreeMap.getElem?_insert, if_neg hne]

theorem getElem?_insertAll_of_mem {e : K × V} (he : e ∈ es) (h : Consistent es) :
    (insertAll t es)[e.1]? = some e.2 := by
  induction es generalizing t with
  | nil => cases he
  | cons e' es ih =>
    have htail : Consistent es := fun x hx y hy ↦
      h x (List.mem_cons_of_mem e' hx) y (List.mem_cons_of_mem e' hy)
    by_cases hmem : e ∈ es
    · exact ih hmem htail
    · obtain rfl : e = e' := (List.mem_cons.mp he).resolve_right hmem
      have hnone : ∀ x ∈ es, x.1 ≠ e.1 := fun x hx heq ↦
        hmem (h x (List.mem_cons_of_mem e hx) e List.mem_cons_self heq ▸ hx)
      exact (getElem?_insertAll_of_not_mem hnone).trans TreeMap.getElem?_insert_self

/-- The order in which entries are inserted, and how often, makes no difference. -/
theorem toList_insertAll_congr (h : Consistent es) (hmem : ∀ e, e ∈ es ↔ e ∈ es') :
    (insertAll t es).toList = (insertAll t es').toList := by
  have h' : Consistent es' := fun x hx y hy ↦ h x ((hmem x).mpr hx) y ((hmem y).mpr hy)
  apply toList_eq_of_getElem?
  intro k
  by_cases hk : ∃ e ∈ es, e.1 = k
  · obtain ⟨e, he, rfl⟩ := hk
    rw [getElem?_insertAll_of_mem he h, getElem?_insertAll_of_mem ((hmem e).mp he) h']
  · have hnone : ∀ e ∈ es, e.1 ≠ k := fun e he heq ↦ hk ⟨e, he, heq⟩
    rw [getElem?_insertAll_of_not_mem hnone,
      getElem?_insertAll_of_not_mem fun e he ↦ hnone e ((hmem e).mpr he)]

end InsertAll

end LowLatency.OrderedMap
