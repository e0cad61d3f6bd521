import Poly.Lib.OrderedMap

/-! The merge of two sorted lists of entries in which the first one has precedence. -/
namespace Poly.Lib

open OrderedMap List

variable {κ ν : Type} [LinearOrder κ] {ms bs : List (κ × ν)}

def merge : List (κ × ν) → List (κ × ν) → List (κ × ν)
  | [], bs => bs
  | m :: ms, [] => m :: ms
  | m :: ms, b :: bs =>
    if m.1 < b.1 then m :: merge ms (b :: bs)
    else if m.1 = b.1 then m :: merge ms bs
    else b :: merge (m :: ms) bs
termination_by ms bs => ms.length + bs.length

theorem merge_nil_left (bs : List (κ × ν)) : merge [] bs = bs := by
  rw [merge]

theorem merge_nil_right (ms : List (κ × ν)) : merge ms [] = ms := by
  cases ms with
  | nil => rw [merge]
  | cons m ms => rw [merge]

theorem mem_merge {x : κ × ν} (h : x ∈ merge ms bs) : x ∈ ms ∨ x ∈ bs := by
  fun_induction merge ms bs with
  | case1 bs => exact .inr h
  | case2 m ms => exact .inl h
  | case3 m ms b bs hlt ih =>
    rcases mem_cons.mp h with rfl | h
    · exact .inl mem_cons_self
    · exact (ih h).imp_left (mem_cons_of_mem m)
  | case4 m ms b bs hlt heq ih =>
    rcases mem_cons.mp h with rfl | h
    · exact .inl mem_cons_self
    · exact (ih h).imp (mem_cons_of_mem m) (mem_cons_of_mem b)
  | case5 m ms b bs hlt heq ih =>
    rcases mem_cons.mp h with rfl | h
    · exact .inr mem_cons_self
    · exact (ih h).imp_right (mem_cons_of_mem b)

theorem merge_sorted (hm : ms.Pairwise fun a b => a.1 < b.1) (hb : bs.Pairwise fun a b => a.1 < b.1) :
    (merge ms bs).Pairwise fun a b => a.1 < b.1 := by
  fun_induction merge ms bs with
  | case1 bs => exact hb
  | case2 m ms => exact hm
  | case3 m ms b bs hlt ih =>
    obtain ⟨hms, hm'⟩ := pairwise_cons.mp hm
    obtain ⟨hbs, -⟩ := pairwise_cons.mp hb
    refine pairwise_cons.mpr ⟨fun x hx => ?_, ih hm' hb⟩
    rcases mem_merge hx with hx | hx
    · exact hms x hx
    · rcases mem_cons.mp hx with rfl | hx
      · exact hlt
      · exact hlt.trans (hbs x hx)
  | case4 m ms b bs hlt heq ih =>
    obtain ⟨hms, hm'⟩ := pairwise_cons.mp hm
    obtain ⟨hbs, hb'⟩ := pairwise_cons.mp hb
    refine pairwise_cons.mpr ⟨fun x hx => ?_, ih hm' hb'⟩
    rcases mem_merge hx with hx | hx
    · exact hms x hx
    · exact heq ▸ hbs x hx
  | case5 m ms b bs hlt heq ih =>
    obtain ⟨hms, -⟩ := pairwise_cons.mp hm
    obtain ⟨hbs, hb'⟩ := pairwise_cons.mp hb
    have hgt : b.1 < m.1 := lt_of_le_of_ne (not_lt.mp hlt) (Ne.symm heq)
    refine pairwise_cons.mpr ⟨fun x hx => ?_, ih hm hb'⟩
    rcases mem_merge hx with hx | hx
    · rcases mem_cons.mp hx with rfl | hx
      · exact hgt
      · exact hgt.trans (hms x hx)
    · exact hbs x hx

/-- Under each key the merge has the entry of the first list, or else that of the second. -/
theorem find_merge (hm : ms.Pairwise fun a b => a.1 < b.1) (k : κ) :
    find k (merge ms bs) = (find k ms).or (find k bs) := by
  fun_induction merge ms bs with
  | case1 bs => rfl
  | case2 m ms => exact (Option.or_none).symm
  | case3 m ms b bs hlt ih =>
    rw [find, find, ih (pairwise_cons.mp hm).2]
    split_ifs <;> rfl
  | case4 m ms b bs hlt heq ih =>
    rw [find, find, find, ih (pairwise_cons.mp hm).2, heq]
    split_ifs <;> rfl
  | case5 m ms b bs hlt heq ih =>
    obtain ⟨hms, -⟩ := pairwise_cons.mp hm
    have hgt : b.1 < m.1 := lt_of_le_of_ne (not_lt.mp hlt) (Ne.symm heq)
    have hcons : find k (b :: bs) = if k = b.1 then some b.2 else find k bs := rfl
    rw [find, ih hm, hcons]
    by_cases hk : k = b.1
    · have hnone : find k (m :: ms) = none := by
        refine find_eq_none_of_lt fun x hx => ?_
        rcases mem_cons.mp hx with rfl | hx
        · exact hk ▸ hgt
        · exact hk ▸ hgt.trans (hms x hx)
      rw [if_pos hk, if_pos hk, hnone]
      rfl
    · rw [if_neg hk, if_neg hk]

end Poly.Lib
