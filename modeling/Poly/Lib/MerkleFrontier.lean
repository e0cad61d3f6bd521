import Poly.Lib.MerkleTree

/-! The roots of the full subtrees of a Merkle tree, and what one more leaf does to them. -/
namespace Poly.Lib.MerkleTree

open List

variable {α : Type} (node : α → α → α)

/-- The roots of the full subtrees, the largest first: an odd last leaf is a full subtree of its
own, the others are those of the level above. -/
def peaks (l : List α) : List α :=
  if l.length = 0 then []
  else if l.length % 2 = 0 then peaks (pairUp node l)
  else peaks (pairUp node l.dropLast) ++ l.getLast?.toList
termination_by l.length
decreasing_by all_goals
  simp only [pairUp_length, List.length_dropLast]
  omega

@[simp] theorem peaks_nil : peaks node [] = [] := by
  rw [peaks]
  rfl

variable {l : List α}

theorem peaks_even (h : l.length % 2 = 0) : peaks node l = peaks node (pairUp node l) := by
  by_cases h₀ : l.length = 0
  · cases length_eq_zero_iff.mp h₀
    rfl
  · rw [peaks, if_neg h₀, if_pos h]

theorem peaks_concat_even (h : l.length % 2 = 0) (a : α) :
    peaks node (l ++ [a]) = peaks node l ++ [a] := by
  have hlen : (l ++ [a]).length = l.length + 1 := by simp
  rw [peaks, if_neg (by omega), if_neg (by omega), dropLast_concat, ← peaks_even node h]
  simp

/-- In an odd tree the new leaf joins the last one, and the pair goes one level up. -/
theorem peaks_concat_odd (h : l.length % 2 = 0) (a b : α) :
    peaks node (l ++ [a] ++ [b]) = peaks node (pairUp node l ++ [node a b]) := by
  have hlen : (l ++ [a] ++ [b]).length % 2 = 0 := by
    simp only [length_append, length_singleton]
    omega
  rw [peaks_even node hlen, append_assoc, pairUp_append node h]
  rfl

/-- A list is empty, of positive even length, or an even list and one more element. -/
theorem parity_cases (l : List α) :
    l = [] ∨ (l ≠ [] ∧ l.length % 2 = 0) ∨ ∃ m a, m.length % 2 = 0 ∧ l = m ++ [a] := by
  rcases eq_nil_or_concat' l with rfl | ⟨m, a, rfl⟩
  · exact .inl rfl
  · by_cases h : m.length % 2 = 0
    · exact .inr (.inr ⟨m, a, h, rfl⟩)
    · refine .inr (.inl ⟨by simp, ?_⟩)
      simp only [length_append, length_singleton]
      omega

/-- Induction over the levels of a tree, from the root down. -/
@[elab_as_elim] theorem level_induction {motive : List α → Prop} (nil : motive [])
    (even : ∀ l, l ≠ [] → l.length % 2 = 0 → motive (pairUp node l) → motive l)
    (odd : ∀ l a, l.length % 2 = 0 → motive (pairUp node l) → motive (l ++ [a])) (l : List α) :
    motive l := by
  induction hn : l.length using Nat.strong_induction_on generalizing l with
  | _ n ih =>
    rcases parity_cases l with rfl | ⟨hne, h⟩ | ⟨m, a, h, rfl⟩
    · exact nil
    · have hpos := length_pos_of_ne_nil hne
      exact even l hne h (ih _ (by omega) _ (pairUp_length node l))
    · have hlen : m.length + 1 = n := by simpa using hn
      exact odd m a h (ih _ (by omega) _ (pairUp_length node m))

theorem peaks_length (l : List α) : (peaks node l).length = l.length.bits.count true := by
  induction l using level_induction node with
  | nil => simp
  | even l hne h ih =>
    have hpos := length_pos_of_ne_nil hne
    have hbits := Nat.bit0_bits (l.length / 2) (by omega)
    rw [show 2 * (l.length / 2) = l.length by omega] at hbits
    rw [peaks_even node h, ih, pairUp_length, hbits, show (l.length + 1) / 2 = l.length / 2 by omega]
    simp
  | odd l a h ih =>
    have hbits := Nat.bit1_bits (l.length / 2)
    rw [show 2 * (l.length / 2) = l.length by omega] at hbits
    rw [peaks_concat_even node h, length_append, peaks_even node h, ih, pairUp_length,
      length_append, length_singleton, hbits,
      show (l.length + 1) / 2 = l.length / 2 by omega]
    simp

theorem eq_nil_of_peaks (h : peaks node l = []) : l = [] := by
  induction l using level_induction node with
  | nil => rfl
  | even l hne he ih =>
    have hpos := length_pos_of_ne_nil hne
    have hhalf := pairUp_length node l
    rw [ih (peaks_even node he ▸ h), length_nil] at hhalf
    omega
  | odd l a he => simp [peaks_concat_even node he] at h

variable (e : α)

/-- One more leaf: the subtrees are folded onto it from the right. -/
theorem root_concat (l : List α) (z : α) : root node e (l ++ [z]) = (peaks node l).foldr node z := by
  induction l using level_induction node generalizing z with
  | nil => simp [root]
  | even l hne h ih =>
    rw [← root_pairUp, pairUp_append node h, peaks_even node h]
    exact ih z
  | odd l a h ih =>
    rw [← root_pairUp, append_assoc, pairUp_append node h, peaks_concat_even node h,
      peaks_even node h, foldr_append]
    exact ih (node a z)

theorem root_of_peaks {hs : List α} {z : α} (h : peaks node l = hs ++ [z]) :
    root node e l = hs.foldr node z := by
  induction l using level_induction node with
  | nil => simp at h
  | even l hne he ih =>
    rw [← root_pairUp]
    exact ih (peaks_even node he ▸ h)
  | odd l a he =>
    rw [peaks_concat_even node he] at h
    obtain ⟨rfl, h₂⟩ := append_inj' h rfl
    obtain rfl : a = z := by simpa using h₂
    exact root_concat node e l a

end Poly.Lib.MerkleTree
