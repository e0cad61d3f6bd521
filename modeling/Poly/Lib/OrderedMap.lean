import Mathlib

/-! Finite maps whose entries are kept in increasing key order. -/
namespace Poly.Lib

open List

/-- A finite map; a list out of order or with a key twice is not one. -/
@[ext]
structure OrderedMap (κ ν : Type) [LinearOrder κ] where
  entries : List (κ × ν)
  sorted : entries.Pairwise fun a b => a.1 < b.1

namespace OrderedMap

variable {κ ν : Type} [LinearOrder κ]

instance [DecidableEq ν] : DecidableEq (OrderedMap κ ν) := fun m n =>
  decidable_of_iff (m.entries = n.entries) OrderedMap.ext_iff.symm

def empty : OrderedMap κ ν := ⟨[], List.Pairwise.nil⟩

def find (k : κ) : List (κ × ν) → Option ν
  | [] => none
  | (a, b) :: l => if k = a then some b else find k l

def get (m : OrderedMap κ ν) (k : κ) : Option ν := find k m.entries

def insertEntry (k : κ) (v : ν) : List (κ × ν) → List (κ × ν)
  | [] => [(k, v)]
  | (a, b) :: l =>
    if k < a then (k, v) :: (a, b) :: l
    else if k = a then (k, v) :: l
    else (a, b) :: insertEntry k v l

variable {k : κ} {v : ν} {l : List (κ × ν)}

theorem mem_insertEntry {x : κ × ν} (h : x ∈ insertEntry k v l) : x = (k, v) ∨ x ∈ l := by
  fun_induction insertEntry k v l with
  | case1 | case2 => simpa using h
  | case3 | case4 =>
    simp only [mem_cons] at h ⊢
    tauto

theorem insertEntry_sorted (h : l.Pairwise fun a b => a.1 < b.1) :
    (insertEntry k v l).Pairwise fun a b => a.1 < b.1 := by
  fun_induction insertEntry k v l with
  | case1 => simp
  | case2 a b l hlt =>
    refine pairwise_cons.mpr ⟨?_, h⟩
    intro x hx
    rcases mem_cons.mp hx with rfl | hx
    · exact hlt
    · exact hlt.trans ((pairwise_cons.mp h).1 x hx)
  | case3 b l hlt =>
    exact pairwise_cons.mpr ⟨(pairwise_cons.mp h).1, (pairwise_cons.mp h).2⟩
  | case4 a b l hlt hne ih =>
    obtain ⟨ha, hl⟩ := pairwise_cons.mp h
    refine pairwise_cons.mpr ⟨?_, ih hl⟩
    intro x hx
    rcases mem_insertEntry hx with rfl | hx
    · exact lt_of_le_of_ne (not_lt.mp hlt) (Ne.symm hne)
    · exact ha x hx

def insert (m : OrderedMap κ ν) (k : κ) (v : ν) : OrderedMap κ ν :=
  ⟨insertEntry k v m.entries, insertEntry_sorted m.sorted⟩

def erase (m : OrderedMap κ ν) (k : κ) : OrderedMap κ ν :=
  ⟨m.entries.filter fun x => x.1 ≠ k, m.sorted.filter _⟩

def filterKeys (m : OrderedMap κ ν) (p : κ → Prop) [DecidablePred p] : OrderedMap κ ν :=
  ⟨m.entries.filter fun x => p x.1, m.sorted.filter _⟩

def size (m : OrderedMap κ ν) : ℕ := m.entries.length

def keys (m : OrderedMap κ ν) : List κ := m.entries.map Prod.fst

@[simp] theorem get_empty (k : κ) : (empty : OrderedMap κ ν).get k = none := rfl

theorem find_insertEntry (k j : κ) (v : ν) (l : List (κ × ν)) :
    find j (insertEntry k v l) = if j = k then some v else find j l := by
  fun_induction insertEntry k v l with
  | case1 => simp [find]
  | case2 a b l hlt => simp [find]
  | case3 b l hlt =>
    simp only [find]
    split <;> rfl
  | case4 a b l hlt hne ih =>
    simp only [find, ih]
    by_cases hj : j = a
    · subst hj
      rw [if_pos rfl, if_neg (Ne.symm hne), if_pos rfl]
    · rw [if_neg hj, if_neg hj]

theorem get_insert (m : OrderedMap κ ν) (k j : κ) (v : ν) :
    (m.insert k v).get j = if j = k then some v else m.get j :=
  find_insertEntry k j v m.entries

@[simp] theorem get_insert_self (m : OrderedMap κ ν) (k : κ) (v : ν) :
    (m.insert k v).get k = some v := by
  rw [get_insert, if_pos rfl]

theorem get_insert_of_ne (m : OrderedMap κ ν) {j : κ} (v : ν) (h : j ≠ k) :
    (m.insert k v).get j = m.get j := by
  rw [get_insert, if_neg h]

theorem find_filter (p : κ → Prop) [DecidablePred p] (j : κ) (l : List (κ × ν)) :
    find j (l.filter fun x => p x.1) = if p j then find j l else none := by
  induction l with
  | nil => simp [find]
  | cons x l ih =>
    obtain ⟨a, b⟩ := x
    by_cases ha : p a
    · rw [filter_cons_of_pos (by simpa using ha), find, find, ih]
      by_cases hj : j = a
      · subst hj
        simp [ha]
      · rw [if_neg hj, if_neg hj]
    · rw [filter_cons_of_neg (by simpa using ha), find, ih]
      by_cases hj : j = a
      · subst hj
        simp [ha]
      · rw [if_neg hj]

theorem get_filterKeys (m : OrderedMap κ ν) (p : κ → Prop) [DecidablePred p] (j : κ) :
    (m.filterKeys p).get j = if p j then m.get j else none :=
  find_filter p j m.entries

theorem get_erase (m : OrderedMap κ ν) (k j : κ) :
    (m.erase k).get j = if j = k then none else m.get j := by
  have h := find_filter (· ≠ k) j m.entries
  rw [ite_not] at h
  exact h

section

variable {m : OrderedMap κ ν} {P : κ → ν → Prop} (h : ∀ j w, m.get j = some w → P j w)
include h

theorem forall_get_insert (hv : P k v) : ∀ j w, (m.insert k v).get j = some w → P j w := by
  intro j w hget
  rw [get_insert] at hget
  split at hget
  next heq =>
    cases hget
    exact heq ▸ hv
  · exact h j w hget

theorem forall_get_erase (k : κ) : ∀ j w, (m.erase k).get j = some w → P j w := by
  intro j w hget
  rw [get_erase] at hget
  split at hget
  · cases hget
  · exact h j w hget

end

theorem isSome_get_insert {m : OrderedMap κ ν} {j : κ} (h : (m.get j).isSome ∨ k = j) (v : ν) :
    ((m.insert k v).get j).isSome := by
  rw [get_insert]
  split
  · rfl
  next hne => exact h.resolve_right (Ne.symm hne)

theorem isSome_get_erase {m : OrderedMap κ ν} {j : κ} :
    ((m.erase k).get j).isSome ↔ j ≠ k ∧ (m.get j).isSome := by
  rw [get_erase]
  split <;> simp_all

theorem find_eq_some (h : find k l = some v) : (k, v) ∈ l := by
  fun_induction find k l with
  | case1 => cases h
  | case2 b l => simp_all
  | case3 a b l hne ih => exact mem_cons_of_mem _ (ih h)

theorem find_of_mem (hs : l.Pairwise fun a b => a.1 < b.1) (h : (k, v) ∈ l) :
    find k l = some v := by
  fun_induction find k l with
  | case1 => cases h
  | case2 b l =>
    rcases mem_cons.mp h with heq | hm
    · rw [(Prod.mk.inj heq).2]
    · exact absurd ((pairwise_cons.mp hs).1 _ hm) (lt_irrefl k)
  | case3 a b l hne ih =>
    rcases mem_cons.mp h with heq | hm
    · exact absurd (Prod.mk.inj heq).1 hne
    · exact ih (pairwise_cons.mp hs).2 hm

theorem find_eq_none_of_lt (h : ∀ x ∈ l, k < x.1) : find k l = none := by
  cases hf : find k l with
  | none => rfl
  | some v => exact absurd (h _ (find_eq_some hf)) (lt_irrefl k)

theorem find_filter_value (p : ν → Prop) [DecidablePred p] (h : l.Pairwise fun a b => a.1 < b.1)
    (k : κ) : find k (l.filter fun x => p x.2) = (find k l).filter p := by
  induction l with
  | nil => rfl
  | cons x l ih =>
    obtain ⟨hx, hl⟩ := pairwise_cons.mp h
    by_cases hp : p x.2
    · rw [filter_cons_of_pos (by simpa using hp), find, find, ih hl]
      by_cases hk : k = x.1
      · rw [if_pos hk, if_pos hk, Option.filter_some_pos (by simpa using hp)]
      · rw [if_neg hk, if_neg hk]
    · rw [filter_cons_of_neg (by simpa using hp), find, ih hl]
      by_cases hk : k = x.1
      · rw [if_pos hk, find_eq_none_of_lt fun y hy => hk ▸ hx y hy]
        simp [Option.filter, hp]
      · rw [if_neg hk]

/-- Writing the entries of a sorted list one after the other leaves, under each key, what the
list says of it, and what was there before if it says nothing. -/
theorem foldl_write {σ β : Type*} (write : σ → κ × ν → σ) (view : σ → β) (g : ν → β) (k : κ)
    (hself : ∀ s x, k = x.1 → view (write s x) = g x.2)
    (hother : ∀ s x, k ≠ x.1 → view (write s x) = view s) (hs : l.Pairwise fun a b => a.1 < b.1)
    (s : σ) : view (l.foldl write s) = ((find k l).map g).getD (view s) := by
  induction l generalizing s with
  | nil => rfl
  | cons x l ih =>
    obtain ⟨hx, hl⟩ := pairwise_cons.mp hs
    rw [foldl_cons, ih hl, find]
    split_ifs with hk
    · rw [find_eq_none_of_lt fun y hy => hk ▸ hx y hy]
      exact hself s x hk
    · rw [hother s x hk]

variable {m : OrderedMap κ ν}

theorem get_eq_some : m.get k = some v ↔ (k, v) ∈ m.entries :=
  ⟨find_eq_some, find_of_mem m.sorted⟩

theorem ext_get {n : OrderedMap κ ν} (h : ∀ k, m.get k = n.get k) : m = n := by
  have hnodup (m : OrderedMap κ ν) : m.entries.Nodup := by
    refine List.Pairwise.imp ?_ m.sorted
    rintro a b hlt rfl
    exact lt_irrefl _ hlt
  have hmem (x : κ × ν) : x ∈ m.entries ↔ x ∈ n.entries := by
    exact ⟨fun hx => get_eq_some.mp (h x.1 ▸ get_eq_some.mpr hx),
      fun hx => get_eq_some.mp (h x.1 ▸ get_eq_some.mpr hx)⟩
  have hperm := (perm_ext_iff_of_nodup (hnodup m) (hnodup n)).mpr hmem
  refine OrderedMap.ext (hperm.eq_of_pairwise ?_ m.sorted n.sorted)
  intro a b _ _ hab hba
  exact absurd (hab.trans hba) (lt_irrefl _)

theorem insert_eq_self : m.insert k v = m ↔ m.get k = some v := by
  constructor
  · intro h
    rw [← h, get_insert_self]
  · intro h
    refine ext_get fun j => ?_
    by_cases hj : j = k
    · rw [hj, get_insert_self, h]
    · rw [get_insert_of_ne m v hj]

theorem length_insertEntry (h : find k l = none) : (insertEntry k v l).length = l.length + 1 := by
  fun_induction insertEntry k v l with
  | case1 => rfl
  | case2 => rfl
  | case3 b l =>
    rw [find, if_pos rfl] at h
    cases h
  | case4 a b l hlt hne ih =>
    rw [find, if_neg hne] at h
    rw [length_cons, ih h, length_cons]

theorem size_insert (h : m.get k = none) (v : ν) : (m.insert k v).size = m.size + 1 :=
  length_insertEntry h

theorem erase_eq_self (h : m.get k = none) : m.erase k = m := by
  refine ext_get fun j => ?_
  rw [get_erase]
  split
  next hj => rw [hj, h]
  · rfl

theorem size_erase (h : m.get k = some v) : (m.erase k).size + 1 = m.size := by
  have hnone : (m.erase k).get k = none := by rw [get_erase, if_pos rfl]
  have hback : (m.erase k).insert k v = m := by
    refine ext_get fun j => ?_
    rw [get_insert, get_erase]
    split
    next hj => rw [hj, h]
    · rfl
  rw [← size_insert hnone v, hback]

theorem size_eq_zero : m.size = 0 ↔ ∀ k, m.get k = none := by
  constructor
  · intro h k
    rw [get, length_eq_zero_iff.mp h]
    rfl
  · intro h
    apply length_eq_zero_iff.mpr
    apply eq_nil_iff_forall_not_mem.mpr
    rintro ⟨k, v⟩ hmem
    have hget := get_eq_some.mpr hmem
    rw [h k] at hget
    cases hget

theorem insertEntry_append {m : List (κ × ν)} (h : ∀ x ∈ l, x.1 < k) (v : ν) :
    insertEntry k v (l ++ m) = l ++ insertEntry k v m := by
  induction l with
  | nil => rfl
  | cons x l ih =>
    obtain ⟨hx, hl⟩ := forall_mem_cons.mp h
    rw [cons_append, insertEntry, if_neg (lt_asymm hx), if_neg hx.ne', ih hl]
    rfl

theorem find_append_of_lt {m : List (κ × ν)} (h : ∀ x ∈ l, x.1 < k) :
    find k (l ++ m) = find k m := by
  induction l with
  | nil => rfl
  | cons x l ih =>
    obtain ⟨hx, hl⟩ := forall_mem_cons.mp h
    rw [cons_append, find, if_neg hx.ne', ih hl]

theorem entries_insert_of_lt (h : ∀ x ∈ m.entries, x.1 < k) (v : ν) :
    (m.insert k v).entries = m.entries ++ [(k, v)] := by
  have happend := insertEntry_append (m := []) h v
  rwa [append_nil] at happend

theorem keys_nodup (m : OrderedMap κ ν) : m.keys.Nodup := by
  have h : m.keys.Pairwise (· < ·) := pairwise_map.mpr m.sorted
  exact h.imp ne_of_lt

theorem mem_keys : k ∈ m.keys ↔ ∃ v, m.get k = some v := by
  simp [keys, get_eq_some]

end OrderedMap

end Poly.Lib
