import Poly.Lib.MerkleStore
import Poly.Merkle.Incremental

/-! The compact Merkle tree with a store for the hashes of its full subtrees, in memory or in a file:
what the store holds while leaves are appended and after the file is opened again at an earlier
size. -/
namespace Poly.Merkle

open Lib Lib.MerkleTree List UInt32 Nat Function

variable (sha256 : Bytes → Uint256)

/-- The loop that fills in the sizes of the full subtrees from the last one. -/
def subTreeLoop (n : ℕ) (id : UInt32) (subtreesize : List UInt32) : List UInt32 :=
  if n = 0 then subtreesize
  else subTreeLoop (n / 2) (id * 2)
    (if n % 2 = 1 then (id * 2 - 1) :: subtreesize else subtreesize)
termination_by n

variable (n : UInt32)

def getSubTreeSize : List UInt32 := subTreeLoop n.toNat 1 []

/-- Positions count from one. -/
def getSubTreePos : List UInt32 := runningSums 0 (getSubTreeSize n)

/-- The sum is an `int64`. -/
def getStoredHashNum (treeSize : UInt32) : ℕ := ((getSubTreeSize treeSize).map UInt32.toNat).sum

/-- A file with the position where its writer stands, or a slice. -/
inductive HashStore where
  | file (content : Bytes) (offset : ℕ)
  | mem (hashes : List Uint256)
  deriving DecidableEq

namespace HashStore

/-- `NewFileHashStore` on a file with this content; a new file is empty. -/
def newFileHashStore (content : Bytes) (treeSize : UInt32) : Result HashStore := do
  let numHashes := getStoredHashNum treeSize
  failIf (content.length < numHashes * 32) (.error "stored hashes are less than expected")
  return .file content (numHashes * 32)

def newMemHashStore : HashStore := .mem []

/-- A write over the content from a position on; a gap before the position reads as zeros. -/
def writeAt (content : Bytes) (offset : ℕ) (buf : Bytes) : Bytes :=
  (content ++ List.replicate (offset - content.length) 0).take offset ++ buf ++
    content.drop (offset + buf.length)

def append : HashStore → List Uint256 → HashStore
  | .file content offset, hash =>
    let buf := hash.flatMap Subtype.val
    .file (writeAt content offset buf) (offset + buf.length)
  | .mem hashes, hash => .mem (hashes ++ hash)

/-- Behind the end a file reports an error and a slice panics. -/
def getHash : HashStore → UInt32 → Result Uint256
  | .file content _, pos =>
    let hash := (content.drop (pos.toNat * 32)).take 32
    if h : hash.length = 32 then .ok ⟨hash, h⟩ else .error (.error "EOF")
  | .mem hashes, pos => goIndex hashes pos.toNat

end HashStore

variable (hashStore : Option HashStore)

/-- What `hash, _ = hashStore.GetHash(pos)` assigns: with an error the empty hash comes back. -/
def hashAt (pos : UInt32) : Result Uint256 := do
  let store ← orFail hashStore (.panic "invalid memory address or nil pointer dereference")
  match store.getHash pos with
  | .error (.error _) => .ok Uint256.empty
  | r => r

/-- The root over the `n - k` leaves behind the first `k` of a subtree that is stored from `offset`
on. -/
def rootk2n (offset : UInt32) (k n : ℕ) : Result Uint256 := do
  let pos := getSubTreePos (UInt32.ofNat (n - k))
  let subhashes ← pos.mapM fun p => hashAt hashStore (p + (offset + UInt32.ofNat k * 2 - 1) - 1)
  hashFold sha256 subhashes

/-- A compact tree and its hash store, if it has one. -/
structure StoredTree where
  tree : CompactMerkleTree
  hashStore : Option HashStore
  deriving DecidableEq

namespace StoredTree

def newTree (treeSize : UInt32) (hashes : List Uint256) (store : Option HashStore) :
    Result StoredTree := do
  let tree ← CompactMerkleTree.newTree treeSize hashes
  return ⟨tree, store⟩

/-- The loop of `appendHash`, with the hashes for the store. -/
def appendHashLoop (s : ℕ) (hashes : List Uint256) (leaf : Uint256) (storehashes : List Uint256) :
    Result ((List Uint256 × Uint256) × List Uint256) :=
  if _ : s % 2 = 1 then do
    let last ← goIndex hashes (hashes.length - 1)
    let leaf := hashChildren sha256 last leaf
    appendHashLoop (s / 2) hashes.dropLast leaf (storehashes ++ [leaf])
  else .ok ((hashes, leaf), storehashes)
termination_by s

variable (t : StoredTree)

/-- The audit path of the new leaf and the tree with it. -/
def append (leafv : Bytes) : Result (List Uint256 × StoredTree) := do
  let leaf := hashLeaf sha256 leafv
  let auditPath := t.tree.hashes.reverse
  let ((hashes, leaf), storehashes) ←
    appendHashLoop sha256 t.tree.treeSize.toNat t.tree.hashes leaf [leaf]
  let hashStore := t.hashStore.map (·.append storehashes)
  return (auditPath, ⟨⟨hashes ++ [leaf], t.tree.treeSize + 1⟩, hashStore⟩)

/-- A caller's loop over `Append`. -/
def appendAll (leaves : List Bytes) : Result StoredTree :=
  leaves.foldlM (fun t leafv => do
    let (_, t) ← append sha256 t leafv
    return t) t

def root : Result Uint256 := t.tree.root sha256

def merkleRoot (n : UInt32) : Result Uint256 := do
  let hashes ← (getSubTreePos n).mapM fun p => hashAt t.hashStore (p - 1)
  hashFold sha256 hashes

/-- The loop of both path builders: the side and the hash of each sibling, the topmost first. `n` ends
at 1, as `m < n` throughout. -/
def inclusionLoop (hashStore : Option HashStore) (m n : ℕ) (offset : UInt32)
    (hashes : List (UInt8 × Uint256)) : Result (List (UInt8 × Uint256)) :=
  if _ : n ≤ 1 then .ok hashes
  else
    let k := leftWidth n
    if m < k then do
      let rootk2n ← rootk2n sha256 hashStore offset k n
      inclusionLoop hashStore m k offset (hashes ++ [(RIGHT, rootk2n)])
    else do
      let offset := offset + (UInt32.ofNat k * 2 - 1)
      let root02k ← hashAt hashStore (offset - 1)
      inclusionLoop hashStore (m - k) (n - k) offset (hashes ++ [(LEFT, root02k)])
termination_by n
decreasing_by all_goals
  rw [leftWidth_eq (by omega)]
  have := splitWidth_pos n
  have := splitWidth_lt (n := n) (by omega)
  omega

/-- The checks of both path builders and their loop. -/
def inclusionPath (m n : UInt32) : Result (List (UInt8 × Uint256)) := do
  failIf (m ≥ n) (.error "wrong parameters")
  failIf (t.tree.treeSize < n) (.error "not available yet")
  failIf (t.hashStore = none) (.error "hash store not available")
  let hashes ← inclusionLoop sha256 t.hashStore m.toNat n.toNat 0 []
  return hashes.reverse

def inclusionProof (m n : UInt32) : Result (List Uint256) := do
  let path ← inclusionPath sha256 t m n
  return path.map Prod.snd

def merkleInclusionLeafPath (data : Bytes) (m n : UInt32) : Result Bytes := do
  let path ← inclusionPath sha256 t m n
  return Sink.writeVarBytes data ++ path.flatMap fun x => x.1 :: x.2.val

/-- For `n = 1` the shift count `highBit(0) - 1` wraps around and no bit is left. -/
def subproofWidth (n : ℕ) : ℕ := if n ≤ 1 then 0 else leftWidth n

theorem subproofWidth_lt {n : ℕ} (h : 0 < n) : subproofWidth n < n := by
  rw [subproofWidth]
  split_ifs with hone
  · exact h
  · rw [leftWidth_eq (by omega)]
    exact splitWidth_lt (by omega)

theorem subproofWidth_eq {n : ℕ} (h : 2 ≤ n) : subproofWidth n = splitWidth n := by
  rw [subproofWidth, if_neg (by omega), leftWidth_eq h]

/-- The loop of `subproof`: the size and the offset where it ends, and the hashes, the topmost first. -/
def subproofLoop (hashStore : Option HashStore) (m n : ℕ) (offset : UInt32) (b : Bool)
    (hashes : List Uint256) : Result (ℕ × UInt32 × Bool × List Uint256) :=
  if _ : m < n then
    let k := subproofWidth n
    if _ : m ≤ k then do
      let rootk2n ← rootk2n sha256 hashStore offset k n
      subproofLoop hashStore m k offset b (hashes ++ [rootk2n])
    else do
      let offset := offset + (UInt32.ofNat k * 2 - 1)
      let root02k ← hashAt hashStore (offset - 1)
      subproofLoop hashStore (m - k) (n - k) offset false (hashes ++ [root02k])
  else .ok (n, offset, b, hashes)
termination_by n
decreasing_by
  · exact subproofWidth_lt (by omega)
  · rw [subproofWidth_eq (by omega)]
    have := splitWidth_pos n
    omega

def subproof (hashStore : Option HashStore) (m n : UInt32) (b : Bool) : Result (List Uint256) := do
  let (n, offset, b, hashes) ← subproofLoop sha256 hashStore m.toNat n.toNat 0 b []
  if b then
    return hashes.reverse
  else
    match getSubTreePos (UInt32.ofNat n) with
    | [pos] =>
      let root02n ← hashAt hashStore (pos + offset - 1)
      return (hashes ++ [root02n]).reverse
    | _ => throw (.panic "assert error")

/-- Outside of its domain the proof is `nil`. -/
def consistencyProof (m n : UInt32) : Result (List Uint256) :=
  if m > n ∨ t.tree.treeSize < n ∨ t.hashStore = none then .ok []
  else subproof sha256 t.hashStore m n true

end StoredTree

theorem subTreeLoop_eq (n j : ℕ) (subtreesize : List UInt32) :
    subTreeLoop n (UInt32.ofNat (2 ^ j)) subtreesize =
      (subtreeSizes n).map (fun s => UInt32.ofNat ((s + 1) * 2 ^ j - 1)) ++ subtreesize := by
  induction n using Nat.strong_induction_on generalizing j subtreesize with
  | _ n ih =>
    rw [subTreeLoop, subtreeSizes]
    by_cases hzero : n = 0
    · rw [if_pos hzero, if_pos hzero]
      rfl
    · have hpos : 0 < 2 ^ j := Nat.two_pow_pos j
      have hdouble : UInt32.ofNat (2 ^ j) * 2 = UInt32.ofNat (2 ^ (j + 1)) := by
        rw [pow_succ, ofNat_mul]
        rfl
      have hlast : UInt32.ofNat (2 ^ (j + 1)) - 1 = UInt32.ofNat ((1 + 1) * 2 ^ j - 1) := by
        rw [ofNat_sub (by omega), Nat.mul_comm]
        rfl
      have hsize : ∀ s, (2 * s + 1 + 1) * 2 ^ j - 1 = (s + 1) * 2 ^ (j + 1) - 1 := by
        intro s
        rw [pow_succ, ← Nat.mul_assoc, Nat.mul_right_comm, show (s + 1) * 2 = 2 * s + 1 + 1 by omega]
      rw [if_neg hzero, if_neg hzero, hdouble, ih (n / 2) (by omega), hlast]
      by_cases hodd : n % 2 = 1
      · simp [if_pos hodd, hsize]
      · simp [if_neg hodd, hsize]

theorem getSubTreeSize_eq :
    getSubTreeSize n = (subtreeSizes n.toNat).map UInt32.ofNat := by
  have h := subTreeLoop_eq n.toNat 0 []
  simp only [pow_zero, Nat.mul_one, Nat.add_sub_cancel, append_nil] at h
  exact h

/-- The positions are those of the store, up to a wrap of the counter. -/
theorem getSubTreePos_eq :
    getSubTreePos n = (runningSums 0 (subtreeSizes n.toNat)).map UInt32.ofNat := by
  rw [getSubTreePos, getSubTreeSize_eq]
  exact runningSums_map (f := UInt32.ofNat) (ofNat_add) 0 _

theorem getStoredHashNum_eq : getStoredHashNum n = storedNum n.toNat := by
  rw [getStoredHashNum, getSubTreeSize_eq, map_map]
  congr 1
  refine (map_congr_left ?_).trans (map_id _)
  intro s hs
  have hlt := lt_of_mem_subtreeSizes (k := 32) n.toNat_lt hs
  rw [comp_apply, toNat_ofNat', mod_eq_of_lt hlt]
  rfl

/-- The index of a position `p` behind the first `k` leaves of a subtree. -/
theorem rootk2n_index {off k p : ℕ} (hk : 1 ≤ k) (hp : 1 ≤ p) :
    UInt32.ofNat p + (UInt32.ofNat off + UInt32.ofNat k * 2 - 1) - 1 =
      UInt32.ofNat (off + (2 * k - 1) + p - 1) := by
  obtain ⟨k, rfl⟩ := Nat.exists_eq_add_of_le hk
  obtain ⟨p, rfl⟩ := Nat.exists_eq_add_of_le hp
  rw [show off + (2 * (1 + k) - 1) + (1 + p) - 1 = off + 2 * k + 1 + p by omega]
  simp only [ofNat_add, ofNat_mul]
  grind

theorem root02k_offset {off k : ℕ} (hk : 1 ≤ k) :
    UInt32.ofNat off + (UInt32.ofNat k * 2 - 1) = UInt32.ofNat (off + (2 * k - 1)) := by
  rw [ofNat_add, ofNat_sub (by omega), ofNat_mul]
  grind

variable {S S' : List Uint256} {store : HashStore}

namespace HashStore

/-- The store begins with these hashes, and its writer stands behind them. -/
def Front (S : List Uint256) : HashStore → Prop
  | .file content offset =>
    S.flatMap Subtype.val <+: content ∧ S.length * 32 ≤ offset ∧ offset ≤ content.length
  | .mem hashes => S <+: hashes

/-- The store begins with these hashes, and the next one is written right behind them. -/
def Ends (S : List Uint256) : HashStore → Prop
  | .file content offset => S.flatMap Subtype.val <+: content ∧ offset = S.length * 32
  | .mem hashes => S = hashes

theorem flatMap_val_length (S : List Uint256) : (S.flatMap Subtype.val).length = S.length * 32 := by
  rw [length_flatMap_val, mul_comm]

theorem Ends.front (h : store.Ends S) (hS : S' <+: S) : store.Front S' := by
  cases store with
  | file content offset =>
    obtain ⟨hcontent, rfl⟩ := h
    have hlen := hcontent.length_le
    rw [flatMap_val_length] at hlen
    exact ⟨(hS.flatMap _).trans hcontent, mul_le_mul_right 32 hS.length_le, hlen⟩
  | mem hashes =>
    obtain rfl : S = hashes := h
    exact hS

theorem Front.mono (h : store.Front S) (hS : S' <+: S) : store.Front S' := by
  cases store with
  | file content offset =>
    obtain ⟨hcontent, hle, hlen⟩ := h
    have hshort := mul_le_mul_right 32 hS.length_le
    exact ⟨(hS.flatMap _).trans hcontent, hshort.trans hle, hlen⟩
  | mem hashes => exact hS.trans h

theorem take_writeAt {content offset} (h : offset ≤ content.length) (buf : Bytes) :
    (writeAt content offset buf).take offset = content.take offset := by
  rw [writeAt, append_assoc, take_left']
  · rw [Nat.sub_eq_zero_of_le h, replicate_zero, append_nil]
  · rw [length_take, length_append]
    omega

theorem Front.append (h : store.Front S) (hash : List Uint256) : (store.append hash).Front S := by
  cases store with
  | file content offset =>
    obtain ⟨hcontent, hle, hlen⟩ := h
    refine ⟨?_, by omega, by simp [writeAt]; omega⟩
    have htake : S.flatMap Subtype.val <+: content.take offset :=
      prefix_take_iff.mpr ⟨hcontent, by rw [flatMap_val_length]; exact hle⟩
    rw [← take_writeAt hlen (hash.flatMap Subtype.val)] at htake
    exact htake.trans (List.take_prefix _ _)
  | mem hashes => exact List.IsPrefix.trans h (prefix_append _ _)

/-- A write at the end continues the stored hashes, whatever was there before. -/
theorem Ends.append (h : store.Ends S) (hash : List Uint256) : (store.append hash).Ends (S ++ hash) := by
  cases store with
  | file content offset =>
    obtain ⟨⟨rest, rfl⟩, rfl⟩ := h
    have hlen := flatMap_val_length S
    constructor
    · rw [flatMap_append, writeAt, append_assoc, append_assoc (S.flatMap _) rest,
        take_left' hlen]
      exact ⟨_, append_assoc _ _ _⟩
    · rw [flatMap_val_length, length_append]
      omega
  | mem hashes =>
    obtain rfl : S = hashes := h
    rfl

theorem Front.getHash {pos h} (hfront : store.Front S) (hget : S[pos.toNat]? = some h) :
    store.getHash pos = .ok h := by
  cases store with
  | file content offset =>
    obtain ⟨⟨rest, rfl⟩, -, -⟩ := hfront
    obtain ⟨hlt, rfl⟩ := List.getElem?_eq_some_iff.mp hget
    have hread : ((S.flatMap Subtype.val ++ rest).drop (pos.toNat * 32)).take 32 =
        S[pos.toNat].val := by
      have hsplit : S = S.take pos.toNat ++ S[pos.toNat] :: S.drop (pos.toNat + 1) := by
        rw [← drop_eq_getElem_cons hlt, take_append_drop]
      have hlen : ((S.take pos.toNat).flatMap Subtype.val).length = pos.toNat * 32 := by
        rw [flatMap_val_length, length_take_of_le hlt.le]
      generalize S[pos.toNat] = x at hsplit ⊢
      rw [hsplit, flatMap_append, append_assoc, drop_left' hlen, flatMap_cons,
        append_assoc, take_left' x.2]
    simp only [HashStore.getHash, hread, S[pos.toNat].2, dite_true]
  | mem hashes =>
    obtain ⟨rest, rfl⟩ := hfront
    have hlt := (List.getElem?_eq_some_iff.mp hget).1
    exact goIndex_ok.mpr ((getElem?_append_left hlt).trans hget)

/-- A file that holds the hashes of a tree is opened behind them. -/
theorem newFileHashStore_ok {content k} (hlen : S.length = storedNum k.toNat)
    (h : S.flatMap Subtype.val <+: content) :
    ∃ store, newFileHashStore content k = .ok store ∧ store.Ends S := by
  have hle := h.length_le
  rw [flatMap_val_length] at hle
  have hnum : getStoredHashNum k = S.length := by rw [getStoredHashNum_eq, hlen]
  refine ⟨.file content (S.length * 32), ?_, h, rfl⟩
  rw [newFileHashStore, hnum, failIf_of_not (by omega)]
  rfl

end HashStore

theorem hashAt_front {p h} (hfront : store.Front S) (hp : p < 2 ^ 32) (hget : S[p]? = some h) :
    hashAt (some store) (UInt32.ofNat p) = .ok h := by
  have htoNat : (UInt32.ofNat p).toNat = p := by rw [toNat_ofNat', mod_eq_of_lt hp]
  have hread := hfront.getHash (by rw [htoNat, hget])
  rw [hashAt, orFail, pure_bind, hread]

/-- Two stores that begin alike answer alike, also where the counter has wrapped around. -/
theorem hashAt_congr {store' p} (h : store.Front S) (h' : store'.Front S) (hp : p < S.length) :
    hashAt (some store) (UInt32.ofNat p) = hashAt (some store') (UInt32.ofNat p) := by
  have hmod : p % 2 ^ 32 < S.length := lt_of_le_of_lt (mod_le _ _) hp
  have hlt : p % 2 ^ 32 < 2 ^ 32 := mod_lt _ (by decide)
  have hwrap : UInt32.ofNat p = UInt32.ofNat (p % 2 ^ 32) := (ofNat_mod_size).symm
  have hget := getElem?_eq_getElem hmod
  rw [hwrap, hashAt_front h hlt hget, hashAt_front h' hlt hget]

theorem hashFold_peaks {l} (h : l ≠ []) :
    hashFold sha256 (peaks (hashChildren sha256) l) =
      .ok (root (hashChildren sha256) (hashEmpty sha256) l) := by
  rcases eq_nil_or_concat' (peaks (hashChildren sha256) l) with hnil | ⟨hs, z, hpeaks⟩
  · exact absurd (eq_nil_of_peaks _ hnil) h
  · rw [hpeaks, hashFold_concat, root_of_peaks _ _ hpeaks]

/-- The fold of the hashes at the positions of the full subtrees over `len` leaves that are stored
behind the first `off` hashes. -/
def segmentRoot (off len : ℕ) : Result Uint256 := do
  let hashes ← (runningSums off (subtreeSizes len)).mapM
    fun p => hashAt hashStore (UInt32.ofNat (p - 1))
  hashFold sha256 hashes

theorem pos_of_mem_positions {off len p : ℕ} (h : p ∈ runningSums off (subtreeSizes len)) : 1 ≤ p :=
  pos_of_mem_runningSums (fun _ hs => pos_of_mem_subtreeSizes hs) h

theorem getSubTreePos_mapM :
    (getSubTreePos n).mapM (fun p => hashAt hashStore (p - 1)) =
      (runningSums 0 (subtreeSizes n.toNat)).mapM
        fun p => hashAt hashStore (UInt32.ofNat (p - 1)) := by
  rw [getSubTreePos_eq, mapM_map]
  refine mapM_congr_of_mem fun p hp => ?_
  rw [ofNat_sub (pos_of_mem_positions hp)]
  rfl

theorem merkleRoot_eq_segmentRoot (t : StoredTree) (n : UInt32) :
    t.merkleRoot sha256 n = segmentRoot sha256 t.hashStore 0 n.toNat := by
  rw [StoredTree.merkleRoot, getSubTreePos_mapM, segmentRoot]

theorem rootk2n_eq_segmentRoot {off k n : ℕ} (hk : 1 ≤ k) (hn : n - k < 2 ^ 32) :
    rootk2n sha256 hashStore (UInt32.ofNat off) k n =
      segmentRoot sha256 hashStore (off + (2 * k - 1)) (n - k) := by
  have hsums := runningSums_add (off + (2 * k - 1)) 0 (subtreeSizes (n - k))
  rw [add_zero] at hsums
  rw [rootk2n, getSubTreePos_eq, toNat_ofNat', mod_eq_of_lt hn, mapM_map, segmentRoot,
    hsums, mapM_map]
  congr 1
  refine mapM_congr_of_mem fun p hp => ?_
  rw [comp_apply, comp_apply, rootk2n_index hk (pos_of_mem_positions hp)]

variable {l : List Uint256} {off : ℕ}

theorem segmentRoot_eq (hfront : store.Front S) (hS : S.length ≤ 2 ^ 32) (hne : l ≠ [])
    (hseg : Segment (hashChildren sha256) (hashEmpty sha256) S off l) :
    segmentRoot sha256 (some store) off l.length =
      .ok (root (hashChildren sha256) (hashEmpty sha256) l) := by
  refine bind_ok.mpr ⟨_, mapM_ok.mpr ?_, hashFold_peaks sha256 hne⟩
  refine hseg.peaks.imp ?_
  rintro p x ⟨-, hget⟩
  have hlt := (List.getElem?_eq_some_iff.mp hget).1
  exact hashAt_front hfront (by omega) hget

theorem segmentRoot_congr {store' len} (h : store.Front S) (h' : store'.Front S)
    (hlen : off + storedNum len ≤ S.length) :
    segmentRoot sha256 (some store) off len = segmentRoot sha256 (some store') off len := by
  rw [segmentRoot]
  congr 1
  refine mapM_congr_of_mem fun p hp => hashAt_congr h h' ?_
  have hpos := pos_of_mem_positions hp
  have hle := runningSums_le hp
  rw [storedNum] at hlen
  omega

end Poly.Merkle
