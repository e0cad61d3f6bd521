import Poly.Lib.MerkleAudit
import Poly.Lib.MerkleFrontier

/-! A store for the digests of all full subtrees of a growing hash tree, in the order in which they
become full, and where in it the subtrees of a prefix or of a segment of the leaves stand. -/
namespace Poly.Lib.MerkleTree

open List

variable {α : Type} (node : α → α → α) (e : α)

section Sizes

/-- The numbers of digests of the full subtrees over `n` leaves, the largest first. -/
def subtreeSizes (n : ℕ) : List ℕ :=
  if n = 0 then []
  else (subtreeSizes (n / 2)).map (2 * · + 1) ++ if n % 2 = 1 then [1] else []
termination_by n

theorem subtreeSizes_zero : subtreeSizes 0 = [] := by
  rw [subtreeSizes]
  rfl

variable {n : ℕ}

theorem subtreeSizes_split {k : ℕ} (h₁ : 2 ^ k ≤ n) (h₂ : n < 2 ^ (k + 1)) :
    subtreeSizes n = (2 * 2 ^ k - 1) :: subtreeSizes (n - 2 ^ k) := by
  induction k generalizing n with
  | zero =>
    obtain rfl : n = 1 := by omega
    rw [subtreeSizes, pow_zero, Nat.sub_self, subtreeSizes_zero]
    rfl
  | succ k ih =>
    rw [pow_succ] at h₁ h₂ ⊢
    have hhalf := ih (n := n / 2) (by omega) (by omega)
    rw [subtreeSizes, if_neg (by omega), hhalf, map_cons, cons_append]
    congr 1
    · omega
    · by_cases hzero : n - 2 ^ k * 2 = 0
      · rw [hzero, show n / 2 - 2 ^ k = 0 by omega, subtreeSizes_zero, if_neg (by omega)]
        rfl
      · rw [subtreeSizes.eq_def (n - 2 ^ k * 2), if_neg hzero,
          show (n - 2 ^ k * 2) / 2 = n / 2 - 2 ^ k by omega,
          show (n - 2 ^ k * 2) % 2 = n % 2 by omega]

theorem pow_log_bounds (h : n ≠ 0) : 2 ^ Nat.log 2 n ≤ n ∧ n < 2 ^ (Nat.log 2 n + 1) :=
  ⟨Nat.pow_log_le_self 2 h, Nat.lt_pow_succ_log_self (by decide) n⟩

theorem subtreeSizes_eq_nil : subtreeSizes n = [] ↔ n = 0 := by
  constructor
  · intro hnil
    by_contra hne
    obtain ⟨hle, hlt⟩ := pow_log_bounds hne
    rw [subtreeSizes_split hle hlt] at hnil
    cases hnil
  · rintro rfl
    exact subtreeSizes_zero

theorem lt_of_mem_subtreeSizes {k s : ℕ} (hn : n < 2 ^ k) (h : s ∈ subtreeSizes n) : s < 2 ^ k := by
  induction n using Nat.strong_induction_on generalizing k s with
  | _ n ih =>
    rw [subtreeSizes] at h
    split_ifs at h with hzero hodd
    · cases h
    all_goals
      cases k with
      | zero => omega
      | succ k =>
        rw [mem_append, mem_map] at h
        rcases h with ⟨s, hs, rfl⟩ | h
        · have := ih (n / 2) (by omega) (k := k) (by omega) hs
          omega
        · simp at h <;> omega

theorem pos_of_mem_subtreeSizes {s : ℕ} (h : s ∈ subtreeSizes n) : 1 ≤ s := by
  rw [subtreeSizes] at h
  split_ifs at h with hzero hodd
  · cases h
  all_goals
    rw [mem_append, mem_map] at h
    rcases h with ⟨s, -, rfl⟩ | h
    · omega
    · simp at h <;> omega

/-- The number of digests stored for `n` leaves. -/
def storedNum (n : ℕ) : ℕ := (subtreeSizes n).sum

theorem storedNum_split {k : ℕ} (h₁ : 2 ^ k ≤ n) (h₂ : n < 2 ^ (k + 1)) :
    storedNum n = 2 * 2 ^ k - 1 + storedNum (n - 2 ^ k) := by
  rw [storedNum, subtreeSizes_split h₁ h₂]
  rfl

theorem storedNum_pow (k : ℕ) : storedNum (2 ^ k) = 2 * 2 ^ k - 1 := by
  rw [storedNum_split le_rfl (Nat.pow_lt_pow_succ (by decide)), Nat.sub_self, storedNum,
    subtreeSizes_zero]
  rfl

theorem storedNum_le (n : ℕ) : storedNum n ≤ 2 * n - 1 := by
  induction n using Nat.strong_induction_on with
  | _ n ih =>
    by_cases hzero : n = 0
    · rw [hzero, storedNum, subtreeSizes_zero]
      rfl
    · obtain ⟨hle, hlt⟩ := pow_log_bounds hzero
      have hrest := ih (n - 2 ^ Nat.log 2 n) (by omega)
      rw [storedNum_split hle hlt]
      omega

/-- The digests of both sides of a tree are among those of the tree. -/
theorem storedNum_sides (h : 2 ≤ n) :
    2 * splitWidth n - 1 + storedNum (n - splitWidth n) ≤ storedNum n := by
  have hlt := splitWidth_lt h
  have hle := le_two_mul_splitWidth h
  by_cases heq : n = 2 * splitWidth n
  · have hpow : n = 2 ^ (Nat.log 2 (n - 1) + 1) := by
      rw [pow_succ, Nat.mul_comm]
      exact heq
    have hwhole := storedNum_pow (Nat.log 2 (n - 1) + 1)
    have hpart := storedNum_pow (Nat.log 2 (n - 1))
    rw [← hpow] at hwhole
    rw [← splitWidth] at hpart
    rw [show n - splitWidth n = splitWidth n by omega]
    omega
  · have hsplit := storedNum_split (n := n) (k := Nat.log 2 (n - 1)) (by rw [← splitWidth]; omega)
      (by rw [pow_succ, ← splitWidth]; omega)
    rw [← splitWidth] at hsplit
    omega

/-- Sums of the first sizes, on top of an offset. -/
def runningSums {M : Type} [Add M] (off : M) : List M → List M
  | [] => []
  | s :: sizes => (off + s) :: runningSums (off + s) sizes

theorem runningSums_length {M : Type} [Add M] (off : M) (sizes : List M) :
    (runningSums off sizes).length = sizes.length := by
  induction sizes generalizing off with
  | nil => rfl
  | cons s sizes ih => rw [runningSums, length_cons, length_cons, ih]

theorem pos_of_mem_runningSums {off p : ℕ} {sizes : List ℕ} (hs : ∀ s ∈ sizes, 1 ≤ s)
    (h : p ∈ runningSums off sizes) : 1 ≤ p := by
  induction sizes generalizing off with
  | nil => cases h
  | cons s sizes ih =>
    obtain ⟨hpos, hs⟩ := forall_mem_cons.mp hs
    rcases mem_cons.mp h with rfl | h
    · omega
    · exact ih hs h

theorem runningSums_le {off p : ℕ} {sizes : List ℕ} (h : p ∈ runningSums off sizes) :
    p ≤ off + sizes.sum := by
  induction sizes generalizing off with
  | nil => cases h
  | cons s sizes ih =>
    rw [sum_cons]
    rcases mem_cons.mp h with rfl | h
    · omega
    · have := ih h
      omega

theorem runningSums_map {M N : Type} [Add M] [Add N] {f : M → N} (hf : ∀ a b, f (a + b) = f a + f b)
    (off : M) (sizes : List M) :
    runningSums (f off) (sizes.map f) = (runningSums off sizes).map f := by
  induction sizes generalizing off with
  | nil => rfl
  | cons s sizes ih =>
    rw [map_cons, runningSums, runningSums, map_cons, ← hf, ih]

theorem runningSums_add {M : Type} [AddSemigroup M] (c off : M) (sizes : List M) :
    runningSums (c + off) sizes = (runningSums off sizes).map (c + ·) := by
  induction sizes generalizing off with
  | nil => rfl
  | cons s sizes ih =>
    rw [runningSums, runningSums, map_cons, add_assoc, ih]

end Sizes

section Stored

/-- The digests of the full subtrees over a list of leaf digests, each after those of its parts. -/
def stored : List α → List α
  | [] => []
  | [a] => [a]
  | a :: b :: l =>
    let k := splitWidth (l.length + 2)
    stored ((a :: b :: l).take k) ++ stored ((a :: b :: l).drop k) ++
      if 2 * k = l.length + 2 then [root node e (a :: b :: l)] else []
termination_by l => l.length
decreasing_by
  · exact (split_shorter a b l).1
  · exact (split_shorter a b l).2

variable {l : List α}

theorem stored_split (h : 2 ≤ l.length) :
    stored node e l = stored node e (l.take (splitWidth l.length)) ++
      stored node e (l.drop (splitWidth l.length)) ++
        if 2 * splitWidth l.length = l.length then [root node e l] else [] := by
  match l, h with
  | a :: b :: l, _ => rw [stored, length_cons, length_cons]

/-- The digests that become full with one more leaf. -/
def carry (l : List α) (x : α) : List α :=
  if l.length % 2 = 1 then
    match l.getLast? with
    | none => [x]
    | some a => x :: carry (pairUp node l.dropLast) (node a x)
  else [x]
termination_by l.length
decreasing_by
  simp only [pairUp_length, List.length_dropLast]
  omega

theorem carry_even (h : l.length % 2 = 0) (x : α) : carry node l x = [x] := by
  rw [carry, if_neg (by omega)]

theorem carry_odd (h : l.length % 2 = 0) (a x : α) :
    carry node (l ++ [a]) x = x :: carry node (pairUp node l) (node a x) := by
  have hlen : (l ++ [a]).length % 2 = 1 := by
    rw [length_append, length_singleton]
    omega
  rw [carry, if_pos hlen, getLast?_concat, dropLast_concat]

/-- Only the last of the largest subtrees takes a new leaf, and it may become full. -/
theorem carry_split (h : l ≠ []) (x : α) :
    carry node l x = carry node (l.drop (splitWidth (l.length + 1))) x ++
      if 2 * splitWidth (l.length + 1) = l.length + 1 then [root node e (l ++ [x])] else [] := by
  induction l using level_induction node generalizing x with
  | nil => exact absurd rfl h
  | even l h heven =>
    -- an even tree takes the leaf as it is, and so does its last part
    have hpos := length_pos_of_ne_nil h
    have hk := splitWidth_half (n := l.length + 1) (by omega)
    have hdrop : (l.drop (splitWidth (l.length + 1))).length % 2 = 0 := by
      rw [length_drop]
      omega
    rw [carry_even node heven, carry_even node hdrop, if_neg (by omega), append_nil]
  | odd m a heven ih =>
    rw [carry_odd node heven]
    have hlen : (m ++ [a]).length = m.length + 1 := by
      rw [length_append, length_singleton]
    by_cases hm : m = []
    · subst hm
      have hone : splitWidth 2 = 1 := rfl
      simp [hone, root, carry, pairUp]
    · have hmpos := length_pos_of_ne_nil hm
      have hhalf : (pairUp node m).length = m.length / 2 := by
        rw [pairUp_length]
        omega
      have hk := splitWidth_half (n := (m ++ [a]).length + 1) (by omega)
      rw [hlen, show (m.length + 1 + 1 + 1) / 2 = (pairUp node m).length + 1 by omega] at hk
      have hlt := splitWidth_lt (n := (m ++ [a]).length + 1) (by omega)
      rw [hlen] at hlt
      have hup : pairUp node m ≠ [] := by
        intro hnil
        rw [hnil, length_nil] at hhalf
        omega
      have hdrop : (m ++ [a]).drop (splitWidth (m.length + 1 + 1)) =
          m.drop (splitWidth (m.length + 1 + 1)) ++ [a] := drop_append_of_le_length (by omega)
      have heven' : (m.drop (splitWidth (m.length + 1 + 1))).length % 2 = 0 := by
        rw [length_drop]
        omega
      have hroot : root node e (m ++ [a] ++ [x]) = root node e (pairUp node m ++ [node a x]) := by
        rw [← root_pairUp, append_assoc, pairUp_append node heven]
        rfl
      rw [hlen, hdrop, carry_odd node heven', pairUp_drop node (by omega) (by omega),
        ih hup (node a x), hroot,
        show splitWidth (m.length + 1 + 1) / 2 = splitWidth ((pairUp node m).length + 1) by omega]
      have hfull : 2 * splitWidth ((pairUp node m).length + 1) = (pairUp node m).length + 1 ↔
          2 * splitWidth (m.length + 1 + 1) = m.length + 1 + 1 := by omega
      simp only [hfull, cons_append]

/-- One more leaf stores the digests that become full, after all others. -/
theorem stored_concat (l : List α) (x : α) :
    stored node e (l ++ [x]) = stored node e l ++ carry node l x := by
  induction hn : l.length using Nat.strong_induction_on generalizing l with
  | _ n ih =>
    subst hn
    by_cases hnil : l = []
    · subst hnil
      rw [carry_even node rfl, nil_append, stored, stored, nil_append]
    · have hpos := length_pos_of_ne_nil hnil
      have hlen : (l ++ [x]).length = l.length + 1 := by
        rw [length_append, length_singleton]
      have hlt := splitWidth_lt (n := l.length + 1) (by omega)
      have hle := le_two_mul_splitWidth (n := l.length + 1) (by omega)
      have htail := ih (l.drop (splitWidth (l.length + 1))).length
        (by rw [length_drop]; omega) (l.drop (splitWidth (l.length + 1))) rfl
      rw [stored_split node e (by omega), hlen, take_append_of_le_length (by omega),
        drop_append_of_le_length (by omega), htail, carry_split node e hnil]
      have hparts : stored node e l = stored node e (l.take (splitWidth (l.length + 1))) ++
          stored node e (l.drop (splitWidth (l.length + 1))) := by
        by_cases heq : splitWidth (l.length + 1) = l.length
        · rw [heq, take_length, drop_length, stored, append_nil]
        · have hsame : splitWidth l.length = splitWidth (l.length + 1) := by
            refine splitWidth_eq ?_ ?_
            · change splitWidth (l.length + 1) < l.length
              omega
            · rw [pow_succ]
              change l.length ≤ splitWidth (l.length + 1) * 2
              omega
          rw [stored_split node e (by omega), hsame, if_neg (by omega), append_nil]
      rw [hparts]
      simp only [append_assoc]

theorem stored_append_left (l m : List α) : stored node e l <+: stored node e (l ++ m) := by
  induction m generalizing l with
  | nil =>
    rw [append_nil]
  | cons x m ih =>
    have hrest := ih (l ++ [x])
    rw [append_assoc, singleton_append, stored_concat] at hrest
    exact (prefix_append _ _).trans hrest

theorem stored_take (l : List α) (n : ℕ) : stored node e (l.take n) <+: stored node e l := by
  have h := stored_append_left node e (l.take n) (l.drop n)
  rwa [take_append_drop] at h

theorem stored_nil : stored node e [] = [] := by rw [stored]

theorem stored_pow_split {k : ℕ} (h₁ : 2 ^ k ≤ l.length) (h₂ : l.length < 2 ^ (k + 1)) :
    stored node e l = stored node e (l.take (2 ^ k)) ++ stored node e (l.drop (2 ^ k)) := by
  by_cases heq : l.length = 2 ^ k
  · rw [← heq, take_length, drop_length, stored_nil, append_nil]
  · have hwidth : splitWidth l.length = 2 ^ k := splitWidth_eq (by omega) h₂.le
    rw [stored_split node e (by omega), hwidth, if_neg (by omega), append_nil]

theorem stored_pow {k : ℕ} (h : l.length = 2 ^ k) :
    ∃ parts, stored node e l = parts ++ [root node e l] ∧ parts.length + 1 = 2 * 2 ^ k - 1 := by
  induction k generalizing l with
  | zero =>
    obtain ⟨a, rfl⟩ := length_eq_one_iff.mp h
    exact ⟨[], by rw [stored, root, nil_append], rfl⟩
  | succ k ih =>
    have hpos : 0 < 2 ^ k := Nat.two_pow_pos k
    have hwidth : splitWidth l.length = 2 ^ k := splitWidth_eq (by omega) h.le
    obtain ⟨left, hleft, hleftLen⟩ := ih (l := l.take (2 ^ k)) (by rw [length_take]; omega)
    obtain ⟨right, hright, hrightLen⟩ := ih (l := l.drop (2 ^ k)) (by rw [length_drop]; omega)
    refine ⟨stored node e (l.take (2 ^ k)) ++ stored node e (l.drop (2 ^ k)), ?_, ?_⟩
    · rw [stored_split node e (by omega), hwidth, if_pos (by omega)]
    · rw [hleft, hright]
      simp only [length_append, length_singleton]
      omega

theorem stored_length (l : List α) : (stored node e l).length = storedNum l.length := by
  induction hn : l.length using Nat.strong_induction_on generalizing l with
  | _ n ih =>
    by_cases hzero : n = 0
    · obtain rfl : l = [] := length_eq_zero_iff.mp (hn.trans hzero)
      rw [stored_nil, hzero, storedNum, subtreeSizes_zero]
      rfl
    · obtain ⟨hle, hlt⟩ := pow_log_bounds hzero
      obtain ⟨parts, hparts, hlen⟩ := stored_pow node e (l := l.take (2 ^ Nat.log 2 n))
        (length_take_of_le (by omega))
      have hrest := ih (n - 2 ^ Nat.log 2 n) (by omega) (l.drop (2 ^ Nat.log 2 n))
        (by rw [length_drop, hn])
      rw [stored_pow_split node e (k := Nat.log 2 n) (by omega) (by omega), length_append, hrest,
        hparts, length_append, length_singleton, hlen, storedNum_split hle hlt]

end Stored

/-- The root of the largest subtree comes first among the roots of the full subtrees. -/
theorem peaks_split {l : List α} {k : ℕ} (h₁ : 2 ^ k ≤ l.length) (h₂ : l.length < 2 ^ (k + 1)) :
    peaks node l = root node e (l.take (2 ^ k)) :: peaks node (l.drop (2 ^ k)) := by
  induction k generalizing l with
  | zero =>
    obtain ⟨a, rfl⟩ := length_eq_one_iff.mp (show l.length = 1 by omega)
    have h := peaks_concat_even node (l := []) rfl a
    rw [nil_append] at h
    rw [h, pow_zero, take_one, drop_one]
    simp [root]
  | succ k ih =>
    have heven : 2 ^ (k + 1) % 2 = 0 := by rw [pow_succ, Nat.mul_mod_left]
    have hhalf : 2 ^ (k + 1) / 2 = 2 ^ k := by rw [pow_succ, Nat.mul_div_cancel _ Nat.two_pos]
    rcases parity_cases l with rfl | ⟨-, hl⟩ | ⟨m, a, hm, rfl⟩
    · rw [length_nil] at h₁
      omega
    · have hup := pairUp_length node l
      rw [peaks_even node hl, ih (by omega) (by omega), ← root_pairUp _ _ (l.take _),
        pairUp_take node heven (by rw [pow_succ]; omega), hhalf, peaks_even node (l := l.drop _),
        pairUp_drop node heven (by rw [pow_succ]; omega), hhalf]
      rw [length_drop, pow_succ]
      omega
    · rw [length_append, length_singleton] at h₁ h₂
      have hup := pairUp_length node m
      have hle : 2 ^ (k + 1) ≤ m.length := by rw [pow_succ]; omega
      have hdrop : (m.drop (2 ^ (k + 1))).length % 2 = 0 := by
        rw [length_drop, pow_succ]
        omega
      rw [peaks_concat_even node hm, peaks_even node hm, ih (by omega) (by omega),
        take_append_of_le_length hle, drop_append_of_le_length hle,
        ← root_pairUp _ _ (m.take _), pairUp_take node heven hle, hhalf,
        peaks_concat_even node hdrop, peaks_even node hdrop, pairUp_drop node heven hle, hhalf,
        cons_append]

/-- The digests of the subtrees over `l` are stored in `S` from an offset on. -/
def Segment (S : List α) (off : ℕ) (l : List α) : Prop := stored node e l <+: S.drop off

variable {node e} {S l : List α} {off : ℕ}

theorem segment_zero {leaves : List α} {n : ℕ} (h : stored node e leaves <+: S) :
    Segment node e S 0 (leaves.take n) := (stored_take node e leaves n).trans h

variable (h : Segment node e S off l)
include h

theorem Segment.root {k : ℕ} (hl : l.length = 2 ^ k) :
    S[off + (2 * 2 ^ k - 1) - 1]? = some (root node e l) := by
  obtain ⟨parts, hparts, hlen⟩ := stored_pow node e hl
  obtain ⟨rest, hrest⟩ := h
  rw [hparts] at hrest
  have hget : (S.drop off)[parts.length]? = some (MerkleTree.root node e l) := by
    rw [← hrest, append_assoc, getElem?_append_right le_rfl, Nat.sub_self]
    rfl
  rw [getElem?_drop] at hget
  rwa [show off + (2 * 2 ^ k - 1) - 1 = off + parts.length by omega]

theorem Segment.append {A B : List α}
    (hl : A ++ B <+: stored node e l) : A <+: S.drop off ∧ B <+: S.drop (off + A.length) := by
  obtain ⟨rest, hrest⟩ := hl.trans h
  rw [← drop_drop, ← hrest, append_assoc, drop_left]
  exact ⟨prefix_append _ _, prefix_append _ _⟩

/-- A tree of at least two leaves: both parts are segments, the second right behind the first. -/
theorem Segment.split (hl : 2 ≤ l.length) :
    Segment node e S off (l.take (splitWidth l.length)) ∧
      Segment node e S (off + (2 * splitWidth l.length - 1)) (l.drop (splitWidth l.length)) := by
  have hlt := splitWidth_lt hl
  have hprefix : stored node e (l.take (splitWidth l.length)) ++
      stored node e (l.drop (splitWidth l.length)) <+: stored node e l := by
    rw [stored_split node e hl]
    exact prefix_append _ _
  obtain ⟨hleft, hright⟩ := h.append hprefix
  rw [stored_length, length_take_of_le hlt.le, splitWidth, storedNum_pow] at hright
  exact ⟨hleft, hright⟩

/-- The roots of the full subtrees stand at the sums of their sizes, counted from one. -/
theorem Segment.peaks :
    List.Forall₂ (fun p x => 1 ≤ p ∧ S[p - 1]? = some x) (runningSums off (subtreeSizes l.length))
      (peaks node l) := by
  induction hn : l.length using Nat.strong_induction_on generalizing off l with
  | _ n ih =>
    by_cases hzero : n = 0
    · obtain rfl : l = [] := length_eq_zero_iff.mp (hn.trans hzero)
      rw [hzero, subtreeSizes_zero, peaks_nil]
      exact .nil
    · obtain ⟨hle, hlt⟩ := pow_log_bounds hzero
      have htake : (l.take (2 ^ Nat.log 2 n)).length = 2 ^ Nat.log 2 n := by
        rw [length_take]
        omega
      have hsplit : stored node e (l.take (2 ^ Nat.log 2 n)) ++
          stored node e (l.drop (2 ^ Nat.log 2 n)) <+: stored node e l := by
        rw [stored_pow_split node e (l := l) (k := Nat.log 2 n) (by omega) (by omega)]
      obtain ⟨hleft, hright⟩ := h.append hsplit
      rw [stored_length, htake, storedNum_pow] at hright
      have hroot := Segment.root (show Segment node e S off (l.take (2 ^ Nat.log 2 n)) from hleft) htake
      have hrest := ih (n - 2 ^ Nat.log 2 n) (by omega) hright (by rw [length_drop, hn])
      rw [subtreeSizes_split hle hlt, runningSums,
        peaks_split node e (l := l) (k := Nat.log 2 n) (by omega) (by omega)]
      exact .cons ⟨by omega, hroot⟩ hrest

end Poly.Lib.MerkleTree
