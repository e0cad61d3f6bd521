import Mathlib

/-! Slices over shared backing arrays: appending within the capacity writes into the array that
other slices may see, appending beyond it moves to a new array. -/
namespace Poly.Lib

open List

/-- The backing arrays, in the order of their allocation. -/
abbrev SliceMemory (α : Type) := List (List α)

/-- The first `len` elements of a backing array. -/
structure Slice where
  array : ℕ
  len : ℕ
  deriving DecidableEq

namespace Slice

variable {α : Type}

def backing (m : SliceMemory α) (s : Slice) : List α := m.getD s.array []

def cap (m : SliceMemory α) (s : Slice) : ℕ := (s.backing m).length

def values (m : SliceMemory α) (s : Slice) : List α := (s.backing m).take s.len

structure Valid (m : SliceMemory α) (s : Slice) : Prop where
  allocated : s.array < m.length
  len_le : s.len ≤ s.cap m

/-- A new array that holds `l`, without spare capacity. -/
def ofList (l : List α) (m : SliceMemory α) : Slice × SliceMemory α :=
  (⟨m.length, l.length⟩, m ++ [l])

/-- The slice expression `s[0:n]`. -/
def upTo (s : Slice) (n : ℕ) : Slice := { s with len := n }

/-- `append(s, a)`; `spare` is the capacity a new array gets beyond its elements. -/
def push (spare : ℕ → ℕ) (zero : α) (s : Slice) (a : α) (m : SliceMemory α) :
    Slice × SliceMemory α :=
  if s.len < s.cap m then
    (⟨s.array, s.len + 1⟩, m.set s.array ((s.backing m).set s.len a))
  else
    (⟨m.length, s.len + 1⟩, m ++ [s.values m ++ a :: List.replicate (spare s.len) zero])

variable {m : SliceMemory α} {s t : Slice} {l : List α} {a zero : α} {spare : ℕ → ℕ} {n : ℕ}

theorem length_values (h : s.Valid m) : (s.values m).length = s.len := by
  rw [values, length_take]
  exact min_eq_left h.len_le

theorem values_upTo (h : n ≤ s.len) : (s.upTo n).values m = (s.values m).take n := by
  rw [values, values, take_take, min_eq_left h]
  rfl

theorem Valid.upTo (h : s.Valid m) (hn : n ≤ s.len) : (s.upTo n).Valid m :=
  ⟨h.allocated, hn.trans h.len_le⟩

theorem backing_new (l : List α) (n : ℕ) : backing (m ++ [l]) ⟨m.length, n⟩ = l := by
  simp [backing]

theorem ofList_values : (ofList l m).1.values (ofList l m).2 = l := by
  simp only [ofList, values, backing_new, take_length]

theorem ofList_valid : (ofList l m).1.Valid (ofList l m).2 := by
  constructor
  · simp [ofList]
  · simp [ofList, cap, backing_new]

/-- Whether it writes in place or moves, an append adds its element at the end. -/
theorem push_values (h : s.Valid m) :
    (s.push spare zero a m).1.values (s.push spare zero a m).2 = s.values m ++ [a] := by
  have hlen := length_values h
  unfold push
  by_cases hc : s.len < s.cap m
  · simp only [if_pos hc]
    simp only [values, backing, getD_eq_getElem?_getD, getElem?_set_self h.allocated,
      Option.getD_some]
    have hc' : s.len < (m[s.array]?.getD []).length := by
      simpa [cap, backing, getD_eq_getElem?_getD] using hc
    rw [take_add_one, getElem?_set_self hc', take_set_of_le le_rfl]
    rfl
  · simp only [if_neg hc]
    rw [values, backing_new, append_cons, take_left' (by simp [hlen])]

theorem push_valid (h : s.Valid m) :
    (s.push spare zero a m).1.Valid (s.push spare zero a m).2 := by
  have hlen := length_values h
  unfold push
  by_cases hc : s.len < s.cap m
  · simp only [if_pos hc]
    refine ⟨by simpa using h.allocated, ?_⟩
    simpa [cap, backing, getElem?_set_self h.allocated, getD_eq_getElem?_getD] using hc
  · simp only [if_neg hc]
    refine ⟨by simp, ?_⟩
    simp only [cap, backing_new, length_append, length_cons, hlen]
    omega

variable (ht : t.Valid m)
include ht

/-- An append changes no slice of another array, and of its own array none that is not longer. -/
theorem push_values_of_le (h : t.array = s.array → t.len ≤ s.len) :
    t.values (s.push spare zero a m).2 = t.values m := by
  unfold push
  by_cases hc : s.len < s.cap m
  · simp only [if_pos hc, values, backing, getD_eq_getElem?_getD]
    by_cases hst : s.array = t.array
    · rw [hst, getElem?_set_self ht.allocated, Option.getD_some,
        take_set_of_le (h hst.symm)]
    · rw [getElem?_set_ne hst]
  · simp only [if_neg hc, values, backing, getD_eq_getElem?_getD]
    rw [getElem?_append_left ht.allocated]

theorem ofList_values_of_valid : t.values (ofList l m).2 = t.values m := by
  simp only [ofList, values, backing, getD_eq_getElem?_getD]
  rw [getElem?_append_left ht.allocated]

theorem Valid.ofList : t.Valid (ofList l m).2 := by
  have hb : t.cap (m ++ [l]) = t.cap m := by
    simp only [cap, backing, getD_eq_getElem?_getD, getElem?_append_left ht.allocated]
  exact ⟨by simpa [Slice.ofList] using Nat.lt_succ_of_lt ht.allocated, hb ▸ ht.len_le⟩

theorem Valid.push : t.Valid (s.push spare zero a m).2 := by
  unfold Slice.push
  by_cases hc : s.len < s.cap m
  · simp only [if_pos hc]
    have hb : t.cap (m.set s.array ((s.backing m).set s.len a)) = t.cap m := by
      simp only [cap, backing, getD_eq_getElem?_getD]
      by_cases hst : s.array = t.array
      · rw [hst, getElem?_set_self ht.allocated, Option.getD_some, length_set]
      · rw [getElem?_set_ne hst]
    exact ⟨by simpa using ht.allocated, hb ▸ ht.len_le⟩
  · simp only [if_neg hc]
    exact Valid.ofList ht

/-- A slice that shares no array with another shares none after an append. -/
theorem push_array_ne (h : t.array ≠ s.array) :
    t.array ≠ (s.push spare zero a m).1.array := by
  unfold Slice.push
  by_cases hc : s.len < s.cap m
  · simpa only [if_pos hc] using h
  · simp only [if_neg hc]
    exact Nat.ne_of_lt ht.allocated

end Slice

end Poly.Lib
