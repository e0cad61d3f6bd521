import Poly.Merkle.Hasher

/-! The compact Merkle tree: only the roots of the full subtrees are kept. -/
namespace Poly.Merkle

open Lib

variable (sha256 : Bytes → Uint256)

/-- `_hash_fold`, from the last hash to the first. -/
def hashFold (hashes : List Uint256) : Result Uint256 :=
  match hashes.reverse with
  | [] => .error (.panic "index out of range")
  | last :: rest => .ok (rest.foldl (fun accum h => hashChildren sha256 h accum) last)

/-- The roots of the full subtrees, the largest first, and the number of leaves. -/
structure CompactMerkleTree where
  hashes : List Uint256
  treeSize : UInt32
  deriving DecidableEq

namespace CompactMerkleTree

def empty : CompactMerkleTree := ⟨[], 0⟩

/-- `NewTree`. -/
def newTree (treeSize : UInt32) (hashes : List Uint256) : Result CompactMerkleTree := do
  failIf (hashes.length ≠ countBit treeSize.toNat)
    (.panic "number of hashes != num bit in tree_size")
  return ⟨hashes, treeSize⟩

/-- The loop of `appendHash`: one full subtree is merged for each low one bit of the size. -/
def appendLoop (s : ℕ) (hashes : List Uint256) (leaf : Uint256) :
    Result (List Uint256 × Uint256) :=
  if _ : s % 2 = 1 then do
    let last ← goIndex hashes (hashes.length - 1)
    appendLoop (s / 2) hashes.dropLast (hashChildren sha256 last leaf)
  else .ok (hashes, leaf)
termination_by s

variable (t : CompactMerkleTree)

def append (leafv : Bytes) : Result CompactMerkleTree := do
  let (hashes, leaf) ← appendLoop sha256 t.treeSize.toNat t.hashes (hashLeaf sha256 leafv)
  return ⟨hashes ++ [leaf], t.treeSize + 1⟩

theorem append_treeSize {t t' leafv} (h : append sha256 t leafv = .ok t') :
    t'.treeSize = t.treeSize + 1 := by
  obtain ⟨x, -, h⟩ := bind_ok.mp h
  exact congrArg treeSize (Except.ok.inj h).symm

def root : Result Uint256 :=
  if t.hashes.length ≠ 0 then hashFold sha256 t.hashes else .ok (hashEmpty sha256)

def getRootWithNewLeaf (newLeaf : Uint256) : Result Uint256 :=
  hashFold sha256 (t.hashes ++ [hashLeaf sha256 newLeaf.val])

def getRootWithNewLeaves (newLeaves : List Uint256) : Result Uint256 := do
  let tree ← newLeaves.foldlM (fun tree h => append sha256 tree h.val) t
  root sha256 tree

/-- The stored form of a tree. -/
def bytes : Bytes :=
  Sink.writeUint32 t.treeSize ++ t.hashes.flatMap Subtype.val

/-- `getMerkleTree` on a stored form. -/
def ofBytes (data : Bytes) : Result (UInt32 × List Uint256) := do
  let (treeSize, rest) ← (Source.nextUint32 (.error "EOF")).run data
  let (hashes, _) ← (Reader.replicate (Source.nextHash (.error "deserialize Uint256 error"))
    ((data.length - 4) / 32)).run rest
  return (treeSize, hashes)

theorem ofBytes_bytes : ofBytes t.bytes = .ok (t.treeSize, t.hashes) := by
  have hlen : (t.bytes.length - 4) / 32 = t.hashes.length := by
    rw [bytes, List.length_append, length_flatMap_val, Sink.writeUint32, leBytes_length]
    omega
  have hhashes := nextHashes_run (Failure.error "deserialize Uint256 error") t.hashes []
  rw [List.append_nil] at hhashes
  refine bind_ok.mpr ⟨_, nextUint32_run _ t.treeSize _, ?_⟩
  rw [hlen]
  exact bind_ok.mpr ⟨_, hhashes, rfl⟩

end CompactMerkleTree

end Poly.Merkle
