import Poly.Common.ZeroCopy
import Poly.Lib.MerkleTree
import Mathlib

/-! The Merkle hasher: full-tree root, audit path of a leaf and the verification of a path. -/
namespace Poly.Merkle

open Lib Lib.MerkleTree List

variable (sha256 : Bytes → Uint256)

def LEFT : UInt8 := 0

def RIGHT : UInt8 := 1

def MAX_SIZE : ℕ := 1024 * 1024

/-- The number of one bits. -/
def countBit (num : ℕ) : ℕ :=
  if num = 0 then 0 else countBit (num &&& (num - 1)) + 1
termination_by num
decreasing_by
  have : num &&& (num - 1) ≤ num - 1 := Nat.and_le_right
  omega

/-- The position of the highest one bit, counted from one. -/
def highBit (num : ℕ) : ℕ :=
  if num = 0 then 0 else highBit (num >>> 1) + 1
termination_by num
decreasing_by
  rw [Nat.shiftRight_eq_div_pow]
  omega

def hashEmpty : Uint256 := sha256 []

variable (data : Bytes)

def leafMessage : Bytes := 0 :: data

def childrenMessage (left right : Uint256) : Bytes := 1 :: (left.val ++ right.val)

def hashLeaf : Uint256 := sha256 (leafMessage data)

def hashChildren (left right : Uint256) : Uint256 := sha256 (childrenMessage left right)

theorem highBit_eq {num : ℕ} (h : num ≠ 0) : highBit num = Nat.log 2 num + 1 := by
  induction num using Nat.strong_induction_on with
  | _ num ih =>
    rw [highBit, if_neg h, Nat.shiftRight_eq_div_pow]
    by_cases h2 : num < 2
    · obtain rfl : num = 1 := by omega
      simp [highBit]
    · rw [ih _ (by omega) (by omega), Nat.log_div_base]
      have := Nat.log_pos (b := 2) (by decide) (not_lt.mp h2)
      omega

/-- The width of the left subtree. -/
def leftWidth (width : ℕ) : ℕ := 1 <<< (highBit (width - 1) - 1)

theorem leftWidth_eq {width : ℕ} (h : 2 ≤ width) : leftWidth width = splitWidth width := by
  rw [leftWidth, highBit_eq (by omega), Nat.one_shiftLeft, splitWidth, Nat.add_sub_cancel]

/-- `_hash_full`: the root over `leaves[l_idx:r_idx]` and the roots of its full subtrees. -/
def hashFull (leaves : List Uint256) (lIdx rIdx : ℕ) : Result (Uint256 × List Uint256) :=
  if _ : rIdx - lIdx = 0 then
    .ok (hashEmpty sha256, [])
  else if _ : rIdx - lIdx = 1 then do
    let leafHash ← goIndex leaves lIdx
    return (leafHash, [leafHash])
  else do
    let (lRoot, lHashes) ← hashFull leaves lIdx (lIdx + leftWidth (rIdx - lIdx))
    failIf (lHashes.length ≠ 1) (.panic "left tree always full")
    let (rRoot, rHashes) ← hashFull leaves (lIdx + leftWidth (rIdx - lIdx)) rIdx
    let rootHash := hashChildren sha256 lRoot rRoot
    if leftWidth (rIdx - lIdx) * 2 = rIdx - lIdx then
      return (rootHash, [rootHash])
    else
      return (rootHash, lHashes ++ rHashes)
termination_by rIdx - lIdx
decreasing_by all_goals
  rw [leftWidth_eq (by omega)]
  have := splitWidth_pos (rIdx - lIdx)
  have := splitWidth_lt (n := rIdx - lIdx) (by omega)
  omega

variable (leaves : List Uint256)

/-- The leaf count goes through a `uint32`. -/
def hashFullTreeWithLeafHash : Result Uint256 := do
  let length := leaves.length % 2 ^ 32
  let (rootHash, hashes) ← hashFull sha256 leaves 0 length
  failIf (hashes.length ≠ countBit length) (.panic "hashes length mismatch")
  return rootHash

/-- The level above, as the loop over pairs in `MerkleHashes` builds it. -/
def nextLevel (level : List Uint256) : List Uint256 := pairUp (hashChildren sha256) level

/-- `levels[0..depth]`, the leaves last. -/
def merkleHashes (preLeaves : List Uint256) : ℕ → List (List Uint256)
  | 0 => [preLeaves]
  | depth + 1 => merkleHashes (nextLevel sha256 preLeaves) depth ++ [preLeaves]

def depth (n : ℕ) : ℕ := Nat.clog 2 n

def getIndex (leaf : Uint256) (hashes : List Uint256) : Option ℕ :=
  hashes.findIdx? (· = leaf)

/-- The loop of `MerkleLeafPath` from level `i` up, with `sink` written so far. -/
def leafPathLoop (merkleTree : List (List Uint256)) : ℕ → ℕ → Bytes → Result Bytes
  | 0, _, sink => .ok sink
  | i + 1, index, sink => do
    let subTree ← goIndex merkleTree (i + 1)
    if index + 1 = subTree.length ∧ subTree.length % 2 ≠ 0 then
      leafPathLoop merkleTree i (index / 2) sink
    else if index % 2 ≠ 0 then
      let h ← goIndex subTree (index - 1)
      leafPathLoop merkleTree i (index / 2) (sink ++ LEFT :: h.val)
    else
      let h ← goIndex subTree (index + 1)
      leafPathLoop merkleTree i (index / 2) (sink ++ RIGHT :: h.val)

def merkleLeafPath (hashes : List Uint256) : Result Bytes := do
  let size := hashes.length * (32 + 1) + data.length + 8
  failIf (size > MAX_SIZE) (.error s!"data length over max value:{MAX_SIZE}")
  let index ← orFail (getIndex (hashLeaf sha256 data) hashes) (.error "values doesn't exist!")
  let d := depth hashes.length
  leafPathLoop (merkleHashes sha256 hashes d) d index (Sink.writeVarBytes data)

/-- The loop of `MerkleProve`: `n` siblings, each after the byte that gives its side. -/
def merkleProveLoop : ℕ → Uint256 → Reader Failure Uint256
  | 0, hash => pure hash
  | n + 1, hash => do
    let f ← Source.nextByte (.error "read byte error")
    let v ← Source.nextHash (.error "read hash error")
    merkleProveLoop n (if f = LEFT then hashChildren sha256 v hash else hashChildren sha256 hash v)

def merkleProve (path root : Bytes) : Result Bytes := do
  let (value, rest) ← (Source.nextVarBytes (.error "read bytes error")).run path
  let (hash, _) ← (merkleProveLoop sha256 (rest.length / (32 + 1)) (hashLeaf sha256 value)).run rest
  failIf (hash.val ≠ root) (.error ("expect root is not equal actual root, " ++
    s!"expect:{toHex hash.val}, actual:{toHex root}"))
  return value

theorem countBit_zero : countBit 0 = 0 := by rw [countBit]; rfl

theorem countBit_of_ne {n : ℕ} (h : n ≠ 0) : countBit n = countBit (n &&& (n - 1)) + 1 := by
  rw [countBit, if_neg h]

theorem countBit_two_mul (n : ℕ) : countBit (2 * n) = countBit n := by
  induction n using Nat.strong_induction_on with
  | _ n ih =>
    by_cases h : n = 0
    · simp [h]
    · have hand : 2 * n &&& (2 * n - 1) = 2 * (n &&& (n - 1)) := by
        apply Nat.eq_of_testBit_eq
        intro i
        cases i with
        | zero => simp
        | succ i =>
          rw [Nat.testBit_and, Nat.testBit_succ, Nat.testBit_succ, Nat.testBit_succ,
            Nat.mul_div_cancel_left _ (by decide), Nat.mul_div_cancel_left _ (by decide),
            Nat.testBit_and, show (2 * n - 1) / 2 = n - 1 by omega]
      have hlt : n &&& (n - 1) ≤ n - 1 := Nat.and_le_right
      rw [countBit_of_ne (n := 2 * n) (by omega), hand, ih _ (by omega), ← countBit_of_ne h]

theorem countBit_two_mul_add_one (n : ℕ) : countBit (2 * n + 1) = countBit n + 1 := by
  have hand : (2 * n + 1) &&& (2 * n + 1 - 1) = 2 * n := by
    apply Nat.eq_of_testBit_eq
    intro i
    cases i with
    | zero => simp
    | succ i =>
      rw [Nat.add_sub_cancel, Nat.testBit_and, Nat.testBit_succ, Nat.testBit_succ,
        show (2 * n + 1) / 2 = n by omega, show 2 * n / 2 = n by omega, Bool.and_self]
  rw [countBit_of_ne (by omega), hand, countBit_two_mul]

theorem countBit_pow_add {k r : ℕ} (h : r < 2 ^ k) : countBit (2 ^ k + r) = countBit r + 1 := by
  induction k generalizing r with
  | zero =>
    obtain rfl : r = 0 := by simpa using h
    simpa using countBit_two_mul_add_one 0
  | succ k ih =>
    rw [pow_succ] at h ⊢
    obtain ⟨q, rfl | rfl⟩ := Nat.even_or_odd' r
    · rw [show 2 ^ k * 2 + 2 * q = 2 * (2 ^ k + q) by ring, countBit_two_mul, countBit_two_mul,
        ih (by omega)]
    · rw [show 2 ^ k * 2 + (2 * q + 1) = 2 * (2 ^ k + q) + 1 by ring, countBit_two_mul_add_one,
        countBit_two_mul_add_one, ih (by omega)]

theorem countBit_pow (k : ℕ) : countBit (2 ^ k) = 1 := by
  have h := countBit_pow_add (k := k) (r := 0) (Nat.pow_pos (by decide))
  rwa [countBit_zero] at h

/-- `_hash_full` never panics: it returns the root of the slice, and as many full subtrees as the
width has one bits. -/
theorem hashFull_ok {l r : ℕ} (hr : r ≤ leaves.length) :
    ∃ hashes, hashes.length = countBit (r - l) ∧ hashFull sha256 leaves l r =
      .ok (root (hashChildren sha256) (hashEmpty sha256) ((leaves.drop l).take (r - l)), hashes) := by
  induction hw : r - l using Nat.strong_induction_on generalizing l r with
  | _ w ih =>
    rw [hashFull]
    by_cases h₀ : w = 0
    · exact ⟨[], by simp [h₀, countBit_zero], by simp [hw, h₀, root]⟩
    by_cases h₁ : w = 1
    · have hl : l < leaves.length := by omega
      refine ⟨[leaves[l]], by simpa [h₁] using (countBit_pow 0).symm, ?_⟩
      rw [dif_neg (by omega), dif_pos (by omega), goIndex_ok.mpr (List.getElem?_eq_getElem hl),
        h₁, take_one_drop_eq_of_lt_length hl, root]
      rfl
    · have hlt := splitWidth_lt (n := w) (by omega)
      have hle := le_two_mul_splitWidth (n := w) (by omega)
      obtain ⟨ls, hls, hL⟩ := ih (splitWidth w) hlt (l := l) (r := l + splitWidth w)
        (by omega) (by omega)
      obtain ⟨rs, hrs, hR⟩ := ih (w - splitWidth w) (by omega) (l := l + splitWidth w) (r := r)
        hr (by omega)
      have hlen : ((leaves.drop l).take w).length = w := by simp; omega
      have hroot := root_split (hashChildren sha256) (hashEmpty sha256)
        (l := (leaves.drop l).take w) (by omega)
      rw [hlen, take_take, drop_take, drop_drop, min_eq_left hlt.le] at hroot
      have hone : ls.length = 1 := by rw [hls, splitWidth, countBit_pow]
      simp only [hw, h₀, h₁, dite_false, leftWidth_eq (show 2 ≤ w by omega), hL, hR, ok_bind,
        failIf_of_not (not_not.mpr hone), hroot]
      split_ifs with h₂
      · refine ⟨_, ?_, rfl⟩
        have hcount := countBit_pow (Nat.log 2 (w - 1) + 1)
        rw [pow_succ, ← splitWidth, h₂] at hcount
        rw [hcount, length_singleton]
      · refine ⟨_, ?_, rfl⟩
        have hcount := countBit_pow_add (k := Nat.log 2 (w - 1)) (r := w - splitWidth w)
          (by rw [← splitWidth]; omega)
        rw [← splitWidth, Nat.add_sub_cancel' hlt.le] at hcount
        rw [hcount, length_append, hone, hrs, Nat.add_comm]

/-- The full-tree hash always returns the root over the leaves that its counter can hold. -/
theorem hashFullTreeWithLeafHash_eq :
    hashFullTreeWithLeafHash sha256 leaves = .ok (root (hashChildren sha256) (hashEmpty sha256)
      (leaves.take (leaves.length % 2 ^ 32))) := by
  obtain ⟨hashes, hlen, hfull⟩ :=
    hashFull_ok sha256 leaves (l := 0) (r := leaves.length % 2 ^ 32) (Nat.mod_le _ _)
  rw [Nat.sub_zero] at hlen hfull
  simp only [hashFullTreeWithLeafHash, hfull, ok_bind, failIf_of_not (not_not.mpr hlen)]
  rfl

end Poly.Merkle
