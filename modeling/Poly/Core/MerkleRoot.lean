import Poly.Core.Decoding

/-! The Merkle root of a block as the loop computes it, which merges the hashes in the list that it
reads them from. -/
namespace Poly
open Lib List

variable (sha256 : Bytes → Uint256)

/-- The inner loop's body: the hash of a pair is written into the array that the pairs are read
from. An index out of range gives `none`. -/
def mergePair (hashes : List Uint256) (i : ℕ) : Option (List Uint256) := do
  let left ← hashes[2 * i]?
  let right ← hashes[2 * i + 1]?
  return hashes.set i (doubleSha256 sha256 (pairMessage left right))

/-- The outer loop's body. -/
def mergeRound (hashes : List Uint256) : Option (List Uint256) := do
  let n := hashes.length / 2
  let hashes ← (range n).foldlM (mergePair sha256) hashes
  if hashes.length = 2 * n + 1 then
    let last ← hashes[2 * n]?
    return (hashes.set n (doubleSha256 sha256 (pairMessage last last))).take (n + 1)
  else return hashes.take n

/-- The outer loop, for at most `fuel` rounds. -/
def mergeRounds : ℕ → List Uint256 → Option Uint256
  | 0, _ => none
  | fuel + 1, hashes =>
    if hashes.length ≠ 1 then mergeRound sha256 hashes >>= mergeRounds fuel else hashes[0]?

/-- `ComputeMerkleRoot` as it is written, with the list as its workspace. -/
def computeMerkleRootInPlace (fuel : ℕ) (hashes : List Uint256) : Option Uint256 :=
  if hashes.length = 0 then some Uint256.empty else mergeRounds sha256 fuel hashes

variable {sha256} {hashes : List Uint256}

theorem merkleRound_append {l : List Uint256} (h : l.length % 2 = 0) (rest : List Uint256) :
    merkleRound sha256 (l ++ rest) = merkleRound sha256 l ++ merkleRound sha256 rest := by
  fun_induction merkleRound sha256 l with
  | case1 => rfl
  | case2 => cases h
  | case3 a b l ih =>
    rw [cons_append, cons_append, merkleRound, ih (Nat.add_mod_right l.length 2 ▸ h), cons_append]

variable (sha256 hashes) in
/-- The list after `n` pairs: their hashes, and behind them what was there before. -/
def merged (n : ℕ) : List Uint256 :=
  merkleRound sha256 (hashes.take (2 * n)) ++ hashes.drop n

variable (sha256) in
theorem length_front {n : ℕ} (h : 2 * n ≤ hashes.length) :
    (merkleRound sha256 (hashes.take (2 * n))).length = n := by
  rw [merkleRound_length, length_take]
  omega

theorem getElem?_merged {n j : ℕ} (h : 2 * n ≤ hashes.length) (hj : n ≤ j) :
    (merged sha256 hashes n)[j]? = hashes[j]? := by
  have hlen := length_front sha256 h
  rw [merged, getElem?_append_right (by omega), getElem?_drop, hlen, Nat.add_sub_cancel' hj]

theorem set_merged {n : ℕ} (h : 2 * n < hashes.length) (x : Uint256) :
    (merged sha256 hashes n).set n x =
      merkleRound sha256 (hashes.take (2 * n)) ++ x :: hashes.drop (n + 1) := by
  have hlen := length_front sha256 h.le
  rw [merged, set_append_right _ _ hlen.le, hlen, Nat.sub_self,
    drop_eq_getElem_cons (by omega), set_cons_zero]

theorem mergePairs_eq {n : ℕ} (h : 2 * n ≤ hashes.length) :
    (range n).foldlM (mergePair sha256) hashes = some (merged sha256 hashes n) := by
  induction n with
  | zero => rfl
  | succ n ih =>
    have hle : 2 * n ≤ hashes.length := by omega
    have hleft : hashes[2 * n]? = some hashes[2 * n] := getElem?_eq_getElem (by omega)
    have hright : hashes[2 * n + 1]? = some hashes[2 * n + 1] := getElem?_eq_getElem (by omega)
    have hstep : mergePair sha256 (merged sha256 hashes n) n =
        some (merged sha256 hashes (n + 1)) := by
      rw [mergePair, getElem?_merged hle (by omega), getElem?_merged hle (by omega),
        merged.eq_def _ _ (n + 1), show 2 * (n + 1) = 2 * n + 1 + 1 by omega, take_add_one,
        take_add_one, hleft, hright, append_assoc, merkleRound_append (by rw [length_take]; omega),
        append_assoc]
      exact congrArg some (set_merged (by omega) _)
    rw [range_succ, foldlM_append, ih hle]
    simp [hstep]

/-- One round over the workspace is one round of the recursion. -/
theorem mergeRound_eq : mergeRound sha256 hashes = some (merkleRound sha256 hashes) := by
  have hle : 2 * (hashes.length / 2) ≤ hashes.length := by omega
  have hlen := length_front sha256 hle
  have hsame : (merged sha256 hashes (hashes.length / 2)).length = hashes.length := by
    rw [merged, length_append, length_drop]
    omega
  unfold mergeRound
  simp only [mergePairs_eq hle, Option.bind_eq_bind, Option.bind_some, hsame]
  split_ifs with hodd
  · have hlast : hashes[2 * (hashes.length / 2)]? = some hashes[2 * (hashes.length / 2)] :=
      getElem?_eq_getElem (by omega)
    have hall := take_add_one (l := hashes) (i := 2 * (hashes.length / 2))
    rw [take_of_length_le hodd.le, hlast] at hall
    rw [getElem?_merged hle (by omega), hlast, Option.bind_some, set_merged (by omega),
      take_append, hlen, take_of_length_le (by omega)]
    conv_rhs => rw [hall, merkleRound_append (by rw [length_take]; omega)]
    simp
    rfl
  · rw [merged, take_left' hlen, take_of_length_le (by omega)]
    rfl

theorem mergeRounds_eq {fuel : ℕ} (hne : hashes ≠ []) (h : hashes.length ≤ fuel) :
    mergeRounds sha256 fuel hashes = some (computeMerkleRoot sha256 hashes) := by
  induction fuel generalizing hashes with
  | zero => exact absurd (length_eq_zero_iff.mp (Nat.le_zero.mp h)) hne
  | succ fuel ih =>
    match hashes with
    | [a] => 
      rw [computeMerkleRoot]
      rfl
    | a :: b :: l =>
      have hlen := merkleRound_length sha256 (a :: b :: l)
      simp only [length_cons] at hlen h
      rw [mergeRounds, mergeRound_eq, computeMerkleRoot]
      exact ih (ne_nil_of_length_pos (by omega)) (by omega)

/-- The loop computes the root that is defined by rounds, and that root binds lists of one length
unless two of the pairs hashed on the way to it collide. -/
theorem computeMerkleRootInPlace_spec (hashes : List Uint256) :
    (∀ fuel ≥ hashes.length,
      computeMerkleRootInPlace sha256 fuel hashes = some (computeMerkleRoot sha256 hashes)) ∧
    ∀ other : List Uint256, other.length = hashes.length →
      computeMerkleRoot sha256 other = computeMerkleRoot sha256 hashes →
      other = hashes ∨ Collision (doubleSha256 sha256)
        (PairRounds.rootMessages (doubleSha256 sha256) pairMessage other ++
          PairRounds.rootMessages (doubleSha256 sha256) pairMessage hashes) := by
  constructor
  · intro fuel hfuel
    unfold computeMerkleRootInPlace
    split_ifs with hnil
    · rw [length_eq_zero_iff.mp hnil, computeMerkleRoot]
    · exact mergeRounds_eq (fun h => hnil (by rw [h]; rfl)) hfuel
  · intro other hlen h
    refine PairRounds.eq_of_root_length pairMessage_inj hlen ?_
    rw [computeMerkleRoot_eq, computeMerkleRoot_eq] at h
    by_cases hnil : hashes = []
    · rw [hnil, length_nil, length_eq_zero_iff] at hlen
      rw [hlen, hnil]
    · have hnil' : other ≠ [] := by rwa [← length_pos_iff, hlen, length_pos_iff]
      obtain ⟨d, hd⟩ := PairRounds.root_isSome (doubleSha256 sha256) pairMessage hnil
      obtain ⟨c, hc⟩ := PairRounds.root_isSome (doubleSha256 sha256) pairMessage hnil'
      rw [hd, hc] at h ⊢
      exact congrArg some h

theorem computeMerkleRootInPlace_spec_constant :
    let hash := fun _ : Bytes => Uint256.empty
    Collision (doubleSha256 hash)
      (PairRounds.rootMessages (doubleSha256 hash) pairMessage
          [Uint256.empty, ⟨replicate 32 1, rfl⟩] ++
        PairRounds.rootMessages (doubleSha256 hash) pairMessage [Uint256.empty, Uint256.empty]) :=
  ((computeMerkleRootInPlace_spec [Uint256.empty, Uint256.empty]).2
    [Uint256.empty, ⟨replicate 32 1, rfl⟩] rfl
    (by simp [computeMerkleRoot, merkleRound])).resolve_left (by decide)

end Poly
