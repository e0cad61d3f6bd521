import Poly.Common.ZeroCopy
import Poly.Lib.MerkleTree

/-! The proofs of Starcoin's accumulator: an accepted one fixes the leaf at its index. -/
namespace Poly.CrossChain.Starcoin

open Lib List

structure AccumulatorProof where
  siblings : List Bytes

variable (sha3 : Bytes → Uint256)

def parentHash (left right : Bytes) : Bytes := (sha3 (left ++ right)).val

def internalHash (index : ℤ) (elements sibling : Bytes) : Bytes :=
  if index.tmod 2 = 0 then parentHash sha3 elements sibling else parentHash sha3 sibling elements

/-- The loop of `verifyAccumulator` over the siblings. -/
def elementLoop : ℤ → Bytes → List Bytes → Bytes
  | _, elementHash, [] => elementHash
  | elementIndex, elementHash, sibling :: siblings =>
    elementLoop (elementIndex.tdiv 2) (internalHash sha3 elementIndex elementHash sibling) siblings

def verifyAccumulator (proof : AccumulatorProof) (expectedRoot hash : Bytes) (index : ℤ) :
    Result Bool := do
  let length := proof.siblings.length
  failIf (length > 63) (.error ("verifyAccumulator, Accumulator proof has more than (" ++
    toString length ++ ") siblings."))
  let elementHash := elementLoop sha3 index hash proof.siblings
  if expectedRoot = elementHash then
    return true
  else
    throw (.error ("verifyAccumulator, root hash not expected: except: " ++
      printBytes expectedRoot ++ ", actual: " ++ printBytes elementHash))

section Tree

variable (leaf : ℕ → Uint256)

/-- The nodes of the perfect binary tree over the leaves, by height and position. -/
def node : ℕ → ℕ → Uint256
  | 0, i => leaf i
  | k + 1, i => sha3 ((node k (2 * i)).val ++ (node k (2 * i + 1)).val)

/-- The messages that the loop and the tree hash on the way up from a node. -/
def pathMessages : ℕ → ℕ → Bytes → List Bytes → List Bytes
  | _, _, _, [] => []
  | k, i, element, sibling :: siblings =>
    (if i % 2 = 0 then element ++ sibling else sibling ++ element) ::
      ((node sha3 leaf k (2 * (i / 2))).val ++ (node sha3 leaf k (2 * (i / 2) + 1)).val) ::
      pathMessages (k + 1) (i / 2) (internalHash sha3 i element sibling) siblings

theorem internalHash_eq (i : ℕ) (element sibling : Bytes) : internalHash sha3 i element sibling =
    (sha3 (if i % 2 = 0 then element ++ sibling else sibling ++ element)).val := by
  have hmod : (i : ℤ).tmod 2 = 0 ↔ i % 2 = 0 := Int.natCast_eq_zero
  rw [internalHash, apply_ite sha3, apply_ite Subtype.val]
  simp only [hmod, parentHash]

variable {sha3 leaf}

/-- The halves of two equal messages are equal where the element stands. -/
theorem element_eq {k i} {element sibling : Bytes} (hlen : element.length = 32)
    (h : (if i % 2 = 0 then element ++ sibling else sibling ++ element) =
      (node sha3 leaf k (2 * (i / 2))).val ++ (node sha3 leaf k (2 * (i / 2) + 1)).val) :
    element = (node sha3 leaf k i).val := by
  split_ifs at h with heven
  · rw [show 2 * (i / 2) = i by omega] at h
    exact (append_inj h (hlen.trans (node sha3 leaf k i).2.symm)).1
  · rw [show 2 * (i / 2) + 1 = i by omega] at h
    exact (append_inj' h (hlen.trans (node sha3 leaf k i).2.symm)).2

/-- A loop that ends at the node above has begun at the node below it, or two messages collide. -/
theorem elementLoop_sound {k i : ℕ} {element siblings} (hlen : element.length = 32)
    (h : elementLoop sha3 i element siblings =
      (node sha3 leaf (k + siblings.length) (i / 2 ^ siblings.length)).val) :
    element = (node sha3 leaf k i).val ∨
      Collision sha3 (pathMessages sha3 leaf k i element siblings) := by
  induction siblings generalizing k i element with
  | nil =>
    rw [length_nil, pow_zero, Nat.div_one] at h
    exact .inl h
  | cons sibling siblings ih =>
    have hup := internalHash_eq sha3 i element sibling
    rw [length_cons, Nat.add_comm siblings.length, ← Nat.add_assoc, pow_add,
      ← Nat.div_div_eq_div_mul] at h
    rcases ih (by rw [hup]; exact (sha3 _).2) h with hnode | hcol
    · rw [hup] at hnode
      rcases eq_or_collision (Subtype.val_injective hnode) with hsame | hcol
      · exact .inl (element_eq hlen hsame)
      · exact .inr (hcol.mono (cons_subset_cons _ (cons_subset_cons _ (nil_subset _))))
    · exact .inr (hcol.mono fun _ hm => mem_cons_of_mem _ (mem_cons_of_mem _ hm))

/-- A hash that is accepted at an index against the root is the leaf there, or two of the messages
collide that were hashed for the proof and for the nodes above the leaf. -/
theorem verifyAccumulator_sound {d i : ℕ} {proof : AccumulatorProof} {hash : Bytes}
    (hsiblings : proof.siblings.length = d) (hi : i < 2 ^ d) (hlen : hash.length = 32)
    (h : verifyAccumulator sha3 proof (node sha3 leaf d 0).val hash i = .ok true) :
    hash = (leaf i).val ∨ Collision sha3 (pathMessages sha3 leaf 0 i hash proof.siblings) := by
  obtain ⟨-, -, h⟩ := bind_ok.mp h
  dsimp only at h
  split at h
  next hroot =>
    refine elementLoop_sound (k := 0) hlen ?_
    rw [hsiblings, Nat.zero_add, Nat.div_eq_of_lt hi]
    exact hroot.symm
  · cases h

def sampleLeaf (i : ℕ) : Uint256 := zeroPad 32 [UInt8.ofNat i]

theorem verifyAccumulator_sound_pair : (zeroPad 32 [1]).val = (sampleLeaf 1).val ∨
    Collision (zeroPad 32) (pathMessages (zeroPad 32) sampleLeaf 0 1 (zeroPad 32 [1]).val
      [(sampleLeaf 0).val]) := by
  have haccepted : verifyAccumulator (zeroPad 32) ⟨[(sampleLeaf 0).val]⟩
      (node (zeroPad 32) sampleLeaf 1 0).val (zeroPad 32 [1]).val (1 : ℕ) = .ok true := by
    decide +kernel
  exact verifyAccumulator_sound rfl (by decide) (by decide) haccepted

end Tree

end Poly.CrossChain.Starcoin
