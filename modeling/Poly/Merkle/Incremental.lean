import Poly.Lib.MerkleFrontier
import Poly.Lib.Slice
import Poly.Merkle.CompactTree

/-! The compact tree as an object whose hashes lie in a shared backing array: appending leaves one by
one gives the root over all of them, and the queries leave the object alone. -/
namespace Poly.Merkle

open Lib Lib.MerkleTree List CompactMerkleTree

variable (sha256 : Bytes → Uint256)

theorem countBit_eq_count (n : ℕ) : countBit n = n.bits.count true := by
  induction n using Nat.strong_induction_on with
  | _ n ih =>
    obtain ⟨q, rfl | rfl⟩ := Nat.even_or_odd' n
    · by_cases h : q = 0
      · simp [h, countBit_zero]
      · rw [countBit_two_mul, ih q (by omega), Nat.bit0_bits q h]
        simp
    · rw [countBit_two_mul_add_one, ih q (by omega)]
      simp

theorem hashFold_concat (hs : List Uint256) (z : Uint256) :
    hashFold sha256 (hs ++ [z]) = .ok (hs.foldr (hashChildren sha256) z) := by
  simp [hashFold]

/-- The root over all leaves as `HashFullTreeWithLeafHash` computes it. -/
def fullRoot (leaves : List Bytes) : Result Uint256 :=
  hashFullTreeWithLeafHash sha256 (leaves.map (hashLeaf sha256))

theorem fullRoot_eq {leaves} (h : leaves.length < 2 ^ 32) :
    fullRoot sha256 leaves =
      .ok (root (hashChildren sha256) (hashEmpty sha256) (leaves.map (hashLeaf sha256))) := by
  rw [fullRoot, hashFullTreeWithLeafHash_eq, length_map, Nat.mod_eq_of_lt h,
    take_of_length_le (by simp)]

namespace CompactMerkleTree

/-- The tree over a list of leaves: its size and the roots of its full subtrees. -/
def ofLeaves (leaves : List Bytes) : CompactMerkleTree :=
  ⟨peaks (hashChildren sha256) (leaves.map (hashLeaf sha256)), UInt32.ofNat leaves.length⟩

theorem ofLeaves_nil : ofLeaves sha256 [] = empty := by simp [ofLeaves, empty]

/-- The carry loop keeps the subtrees above the last zero bit and hashes the others into the leaf. -/
theorem appendLoop_peaks (l : List Uint256) (x : Uint256) : ∃ kept leaf,
    appendLoop sha256 l.length (peaks (hashChildren sha256) l) x = .ok (kept, leaf) ∧
    kept ++ [leaf] = peaks (hashChildren sha256) (l ++ [x]) := by
  induction l using level_induction (hashChildren sha256) generalizing x with
  | nil =>
    rw [appendLoop]
    exact ⟨_, _, rfl, (peaks_concat_even _ rfl x).symm⟩
  | even l hne he =>
    rw [appendLoop, dif_neg (by omega), peaks_concat_even _ he]
    exact ⟨_, _, rfl, rfl⟩
  | odd m a he ih =>
    obtain ⟨kept, leaf, hloop, happend⟩ := ih (hashChildren sha256 a x)
    rw [pairUp_length] at hloop
    have hlast : goIndex (peaks (hashChildren sha256) m ++ [a])
        ((peaks (hashChildren sha256) m ++ [a]).length - 1) = .ok a := by simp
    rw [length_append, length_singleton, appendLoop, dif_pos (by omega), peaks_concat_even _ he,
      hlast, dropLast_concat, peaks_concat_odd _ he, peaks_even _ he]
    exact ⟨kept, leaf, hloop, happend⟩

theorem appendLoop_kept {s hashes kept x leaf}
    (h : appendLoop sha256 s hashes x = .ok (kept, leaf)) : kept <+: hashes := by
  fun_induction appendLoop sha256 s hashes x with
  | case1 s hashes x hs ih =>
    obtain ⟨last, -, h⟩ := bind_ok.mp h
    exact (ih last h).trans (List.dropLast_prefix hashes)
  | case2 s hashes x hs =>
    cases h
    exact prefix_rfl

variable {leaves : List Bytes}

theorem append_ofLeaves (h : leaves.length < 2 ^ 32) (leafv : Bytes) :
    append sha256 (ofLeaves sha256 leaves) leafv = .ok (ofLeaves sha256 (leaves ++ [leafv])) := by
  obtain ⟨kept, leaf, hloop, happend⟩ :=
    appendLoop_peaks sha256 (leaves.map (hashLeaf sha256)) (hashLeaf sha256 leafv)
  have hsize : (UInt32.ofNat leaves.length).toNat = leaves.length := by
    rw [UInt32.toNat_ofNat', Nat.mod_eq_of_lt h]
  rw [length_map] at hloop
  refine bind_ok.mpr ⟨(kept, leaf), by simpa only [ofLeaves, hsize] using hloop, ?_⟩
  simp [ofLeaves, happend, pure, Except.pure]

theorem root_ofLeaves (h : leaves.length < 2 ^ 32) :
    root sha256 (ofLeaves sha256 leaves) = fullRoot sha256 leaves := by
  rw [fullRoot_eq sha256 h, root]
  rcases eq_nil_or_concat' (ofLeaves sha256 leaves).hashes with hnil | ⟨hs, z, hpeaks⟩
  · rw [if_neg (by simp [hnil]), eq_nil_of_peaks _ hnil, MerkleTree.root]
  · rw [if_pos (by simp [hpeaks]), hpeaks, hashFold_concat]
    exact congrArg _ (root_of_peaks _ _ hpeaks).symm

/-- The root with one more leaf, as the fold of the subtrees and that leaf. -/
theorem hashFold_ofLeaves (leafv : Bytes) (h : leaves.length + 1 < 2 ^ 32) :
    hashFold sha256 ((ofLeaves sha256 leaves).hashes ++ [hashLeaf sha256 leafv]) =
      fullRoot sha256 (leaves ++ [leafv]) := by
  rw [fullRoot_eq sha256 (by simpa using h), hashFold_concat, map_append, map_singleton,
    root_concat]
  rfl

/-- The root after some more leaves. -/
def rootAfter (t : CompactMerkleTree) (more : List Bytes) : Result Uint256 := do
  let t ← more.foldlM (append sha256) t
  root sha256 t

theorem rootAfter_cons (t : CompactMerkleTree) (leafv : Bytes) (more : List Bytes) :
    rootAfter sha256 t (leafv :: more) =
      append sha256 t leafv >>= fun t => rootAfter sha256 t more := by
  rw [rootAfter, foldlM_cons, bind_assoc]
  rfl

end CompactMerkleTree

/-- A tree in memory: `hashes` is a slice, and the root is kept once it is computed. -/
structure TreeObject where
  hashes : Slice
  treeSize : UInt32
  rootHash : Uint256
  deriving DecidableEq

abbrev HashMemory := SliceMemory Uint256

namespace TreeObject

def EMPTY_HASH : Uint256 := Uint256.empty

/-- `_update`, on a tree or in `NewTree`. -/
def update (treeSize : UInt32) (hashes : Slice) : Result TreeObject := do
  failIf (hashes.len ≠ countBit treeSize.toNat)
    (.panic "number of hashes != num bit in tree_size")
  return ⟨hashes, treeSize, EMPTY_HASH⟩

/-- `NewTree` without leaves. -/
def newTree (m : HashMemory) : Result (TreeObject × HashMemory) := do
  let (hashes, m) := Slice.ofList [] m
  let t ← update 0 hashes
  return (t, m)

/-- What `Root` returns, and the tree with the root kept. -/
def root (t : TreeObject) (m : HashMemory) : Result (Uint256 × TreeObject) :=
  if t.rootHash = EMPTY_HASH then do
    let rootHash ← CompactMerkleTree.root sha256 ⟨t.hashes.values m, t.treeSize⟩
    return (rootHash, { t with rootHash := rootHash })
  else
    return (t.rootHash, t)

variable (spare : ℕ → ℕ)

/-- `Append`. The loop reads `hashes` up to the subtrees it keeps, and the new subtree then goes over
the first of the others. -/
def append (t : TreeObject) (leafv : Bytes) (m : HashMemory) : Result (TreeObject × HashMemory) := do
  let (kept, leaf) ← CompactMerkleTree.appendLoop sha256 t.treeSize.toNat (t.hashes.values m)
    (hashLeaf sha256 leafv)
  let (hashes, m) := (t.hashes.upTo kept.length).push spare EMPTY_HASH leaf m
  return (⟨hashes, t.treeSize + 1, EMPTY_HASH⟩, m)

/-- The loop over leaves that `GetRootWithNewLeaves` and the callers of `Append` run. -/
def appendAll (t : TreeObject) (leaves : List Bytes) (m : HashMemory) :
    Result (TreeObject × HashMemory) :=
  leaves.foldlM (fun (t, m) leafv => append sha256 spare t leafv m) (t, m)

/-- The new leaf's hash may go into spare capacity behind the tree's own hashes. -/
def getRootWithNewLeaf (t : TreeObject) (newLeaf : Uint256) (m : HashMemory) :
    Result (Uint256 × HashMemory) := do
  let (hashes, m) := t.hashes.push spare EMPTY_HASH (hashLeaf sha256 newLeaf.val) m
  let rootHash ← hashFold sha256 (hashes.values m)
  return (rootHash, m)

def cloneMem (t : TreeObject) (m : HashMemory) : TreeObject × HashMemory :=
  let (hashes, m) := Slice.ofList (t.hashes.values m) m
  ({ t with hashes := hashes }, m)

def getRootWithNewLeaves (t : TreeObject) (newLeaf : List Uint256) (m : HashMemory) :
    Result (Uint256 × HashMemory) := do
  let (tree, m) := cloneMem t m
  let (tree, m) ← appendAll sha256 spare tree (newLeaf.map Subtype.val) m
  let (rootHash, _) ← root sha256 tree m
  return (rootHash, m)

/-- The size in big-endian order and then the hashes. -/
def marshal (t : TreeObject) (m : HashMemory) : Bytes :=
  (leBytes 4 t.treeSize.toNat).reverse ++ (t.hashes.values m).flatMap Subtype.val

def unMarshal (buf : Bytes) (m : HashMemory) : Result (TreeObject × HashMemory) := do
  failIf (buf.length < 4) (.panic "slice bounds out of range")
  let treeSize := UInt32.ofNat (leNat (buf.take 4).reverse)
  let nhashes := countBit treeSize.toNat
  failIf (buf.length < 4 + nhashes * 32) (.error "Too short input buf length")
  let (hashes, m) := Slice.ofList
    ((List.range nhashes).map fun i => zeroPad 32 ((buf.drop (4 + i * 32)).take 32)) m
  let t ← update treeSize hashes
  return (t, m)

/-- The root after some more leaves. -/
def rootAfter (t : TreeObject) (more : List Bytes) (m : HashMemory) : Result Uint256 := do
  let (t, m) ← appendAll sha256 spare t more m
  let (rootHash, _) ← root sha256 t m
  return rootHash

theorem rootAfter_cons (t : TreeObject) (leafv : Bytes) (more : List Bytes) (m : HashMemory) :
    rootAfter sha256 spare t (leafv :: more) m =
      append sha256 spare t leafv m >>= fun x => rootAfter sha256 spare x.1 more x.2 := by
  rw [rootAfter, appendAll, foldlM_cons, bind_assoc]
  rfl

/-- The object holds this tree; a root that it keeps is the tree's. -/
structure Represents (m : HashMemory) (t : TreeObject) (T : CompactMerkleTree) : Prop where
  valid : t.hashes.Valid m
  hashes : t.hashes.values m = T.hashes
  treeSize : t.treeSize = T.treeSize
  kept : t.rootHash ≠ EMPTY_HASH → T.root sha256 = .ok t.rootHash

section Simulation

variable {sha256 spare} {m m' : HashMemory} {t t' : TreeObject} {T T' : CompactMerkleTree}
  {leafv : Bytes} {more : List Bytes} {s : Slice}

section

variable (h : Represents sha256 m t T)
include h

theorem Represents.root :
    t.root sha256 m >>= (fun x => .ok x.1) = T.root sha256 := by
  obtain ⟨hashes, treeSize⟩ := T
  obtain ⟨-, rfl, rfl, hkept⟩ := h
  rw [TreeObject.root]
  split_ifs with he
  · cases CompactMerkleTree.root sha256 ⟨t.hashes.values m, t.treeSize⟩ <;> rfl
  · rw [hkept he]
    rfl

/-- An append of the object goes as the append of the tree it holds. -/
theorem Represents.append (hT : T.append sha256 leafv = .ok T') :
    ∃ t' m', t.append sha256 spare leafv m = .ok (t', m') ∧ Represents sha256 m' t' T' := by
  obtain ⟨⟨kept, leaf⟩, hloop, hT⟩ := bind_ok.mp hT
  cases hT
  have hprefix := appendLoop_kept sha256 hloop
  rw [← h.hashes] at hprefix
  have hlen : kept.length ≤ t.hashes.len := Slice.length_values h.valid ▸ hprefix.length_le
  have hvalid := h.valid.upTo hlen
  let pushed := (t.hashes.upTo kept.length).push spare EMPTY_HASH leaf m
  refine ⟨⟨pushed.1, t.treeSize + 1, EMPTY_HASH⟩, pushed.2, bind_ok.mpr ⟨(kept, leaf), ?_, rfl⟩,
    Slice.push_valid hvalid, ?_, ?_, ?_⟩
  · rw [h.hashes, h.treeSize, hloop]
  · have hpushed : pushed.1.values pushed.2 = _ := Slice.push_values hvalid
    rwa [Slice.values_upTo hlen, ← prefix_iff_eq_take.mp hprefix] at hpushed
  · rw [h.treeSize]
  · exact absurd rfl

theorem Represents.append_error {e : Failure}
    (hT : T.append sha256 leafv = .error e) : t.append sha256 spare leafv m = .error e := by
  rw [CompactMerkleTree.append] at hT
  rw [TreeObject.append, h.hashes, h.treeSize]
  cases hloop : CompactMerkleTree.appendLoop sha256 T.treeSize.toNat T.hashes
      (hashLeaf sha256 leafv) with
  | error e' =>
    rw [hloop] at hT
    rw [error_bind, Except.error.inj hT]
  | ok x =>
    rw [hloop] at hT
    cases hT

end

/-- An append of one tree does not touch the hashes of an object that shares no array with it. -/
theorem append_frame (hs : s.Valid m) (hne : s.array ≠ t.hashes.array)
    (h : t.append sha256 spare leafv m = .ok (t', m')) :
    s.values m' = s.values m ∧ s.Valid m' ∧ s.array ≠ t'.hashes.array := by
  obtain ⟨⟨kept, leaf⟩, -, h⟩ := bind_ok.mp h
  cases h
  exact ⟨Slice.push_values_of_le hs fun he => absurd he hne, hs.push, Slice.push_array_ne hs hne⟩

theorem appendAll_frame (hs : s.Valid m) (hne : s.array ≠ t.hashes.array)
    (h : t.appendAll sha256 spare more m = .ok (t', m')) : s.values m' = s.values m := by
  induction more generalizing t m with
  | nil =>
    cases h
    rfl
  | cons leafv more ih =>
    obtain ⟨⟨t₁, m₁⟩, happend, h⟩ := bind_ok.mp h
    obtain ⟨hvalues, hs₁, hne₁⟩ := append_frame hs hne happend
    rw [ih hs₁ hne₁ h, hvalues]

theorem Represents.rootAfter (h : Represents sha256 m t T) :
    t.rootAfter sha256 spare more m = T.rootAfter sha256 more := by
  induction more generalizing t T m with
  | nil => exact h.root
  | cons leafv more ih =>
    rw [rootAfter_cons, CompactMerkleTree.rootAfter_cons]
    cases hT : T.append sha256 leafv with
    | error e => rw [h.append_error hT, error_bind, error_bind]
    | ok T' =>
      obtain ⟨t', m', happend, h'⟩ := h.append hT
      rw [happend]
      exact ih h'

variable (spare more) in
theorem Represents.appendAll {pre}
    (h : Represents sha256 m t (CompactMerkleTree.ofLeaves sha256 pre))
    (hn : pre.length + more.length < 2 ^ 32) : ∃ t' m',
      t.appendAll sha256 spare more m = .ok (t', m') ∧
      Represents sha256 m' t' (CompactMerkleTree.ofLeaves sha256 (pre ++ more)) := by
  induction more generalizing t m pre with
  | nil => exact ⟨t, m, rfl, by rwa [append_nil]⟩
  | cons leafv more ih =>
    rw [length_cons] at hn
    have hT := append_ofLeaves sha256 (show pre.length < 2 ^ 32 by omega) leafv
    obtain ⟨t₁, m₁, happend, h₁⟩ := h.append hT
    obtain ⟨t', m', hall, h'⟩ := ih h₁ (by simp only [length_append, length_singleton]; omega)
    rw [append_assoc] at h'
    exact ⟨t', m', bind_ok.mpr ⟨(t₁, m₁), happend, hall⟩, h'⟩

theorem Represents.root_ofLeaves {leaves}
    (h : Represents sha256 m t (CompactMerkleTree.ofLeaves sha256 leaves))
    (hn : leaves.length < 2 ^ 32) : ∃ rootHash t',
      t.root sha256 m = .ok (rootHash, t') ∧ fullRoot sha256 leaves = .ok rootHash := by
  have hroot := h.root
  rw [CompactMerkleTree.root_ofLeaves sha256 hn, fullRoot_eq sha256 hn] at hroot
  obtain ⟨⟨rootHash, t'⟩, ht, hr⟩ := bind_ok.mp hroot
  exact ⟨rootHash, t', ht, by rw [fullRoot_eq sha256 hn, ← hr]⟩

theorem newTree_represents (m : HashMemory) : ∃ t m', newTree m = .ok (t, m') ∧
    Represents sha256 m' t (CompactMerkleTree.ofLeaves sha256 []) := by
  refine ⟨⟨(Slice.ofList [] m).1, 0, EMPTY_HASH⟩, (Slice.ofList [] m).2, ?_, Slice.ofList_valid, ?_,
    rfl, absurd rfl⟩
  · simp [newTree, update, Slice.ofList, countBit_zero, failIf_of_not]
  · rw [ofLeaves_nil]
    rfl

theorem cloneMem_represents (h : Represents sha256 m t T) :
    Represents sha256 (t.cloneMem m).2 (t.cloneMem m).1 T :=
  ⟨Slice.ofList_valid, Slice.ofList_values.trans h.hashes, h.treeSize, h.kept⟩

/-- The hashes that `UnMarshal` copies out of the buffer, one after the other. -/
theorem copied_hashes (hashes : List Uint256) :
    ((List.range hashes.length).map fun i =>
      zeroPad 32 (((hashes.flatMap Subtype.val).drop (i * 32)).take 32)) = hashes := by
  induction hashes with
  | nil => rfl
  | cons x hashes ih =>
    have hx : zeroPad 32 x.val = x := by
      apply Subtype.ext
      have hbytes := leBytes_leNat x.val
      rwa [x.2] at hbytes
    rw [length_cons, range_succ_eq_map, map_cons, map_map]
    congr 1
    · simp [x.2, hx]
    · refine Eq.trans (map_congr_left fun i _ => ?_) ih
      have hi : i.succ * 32 = x.val.length + i * 32 := by
        omega
      simp only [Function.comp, flatMap_cons, hi, drop_length_add_append]

theorem unMarshal_marshal (h : Represents sha256 m t T) (hcount : T.hashes.length =
    countBit T.treeSize.toNat) : ∃ t' m', unMarshal (t.marshal m) m = .ok (t', m') ∧
      Represents sha256 m' t' T := by
  have hsize : (leBytes 4 t.treeSize.toNat).reverse.length = 4 := by simp
  have hcopied := copied_hashes (t.hashes.values m)
  rw [h.hashes, hcount] at hcopied
  let loaded := Slice.ofList T.hashes m
  refine ⟨⟨loaded.1, T.treeSize, EMPTY_HASH⟩, loaded.2, ?_, Slice.ofList_valid, Slice.ofList_values,
    rfl, absurd rfl⟩
  have hlen : (t.marshal m).length = 4 + countBit T.treeSize.toNat * 32 := by
    rw [marshal, length_append, hsize, length_flatMap_val, h.hashes, hcount, Nat.mul_comm]
  have hread : UInt32.ofNat (leNat ((t.marshal m).take 4).reverse) = T.treeSize := by
    rw [marshal, take_left' hsize, reverse_reverse,
      leNat_leBytes _ _ (by exact t.treeSize.toNat_lt), UInt32.ofNat_toNat, h.treeSize]
  have hdrop : ∀ i, (t.marshal m).drop (4 + i * 32) =
      ((t.hashes.values m).flatMap Subtype.val).drop (i * 32) := by
    intro i
    have hlength : (t.marshal m).drop ((leBytes 4 t.treeSize.toNat).reverse.length + i * 32) = _ :=
      drop_length_add_append _
    rwa [hsize] at hlength
  rw [unMarshal, failIf_of_not (by omega)]
  simp only [hread, hdrop, h.hashes, hcopied, failIf_of_not (show ¬ (t.marshal m).length <
    4 + countBit T.treeSize.toNat * 32 by omega), ok_bind]
  have hupdate : update T.treeSize loaded.1 = .ok ⟨loaded.1, T.treeSize, EMPTY_HASH⟩ :=
    bind_ok.mpr ⟨(), failIf_ok.mpr (not_not.mpr hcount), rfl⟩
  exact bind_ok.mpr ⟨_, hupdate, rfl⟩

end Simulation

/-- What a tree object answers when it stands for the tree over `leaves`. -/
structure AnswersFor (leaves : List Bytes) (t : TreeObject) (m : HashMemory) : Prop where
  length_hashes : (t.hashes.values m).length = leaves.length.bits.count true
  root : ∃ rootHash t', t.root sha256 m = .ok (rootHash, t') ∧ fullRoot sha256 leaves = .ok rootHash
  newLeaves : ∀ newLeaf : List Uint256, leaves.length + newLeaf.length < 2 ^ 31 → ∃ rootHash m',
    t.getRootWithNewLeaves sha256 spare newLeaf m = .ok (rootHash, m') ∧
    fullRoot sha256 (leaves ++ newLeaf.map Subtype.val) = .ok rootHash ∧
    t.hashes.values m' = t.hashes.values m
  newLeaf : ∀ newLeaf : Uint256, leaves.length + 1 < 2 ^ 31 → ∃ rootHash m',
    t.getRootWithNewLeaf sha256 spare newLeaf m = .ok (rootHash, m') ∧
    fullRoot sha256 (leaves ++ [newLeaf.val]) = .ok rootHash ∧
    t.hashes.values m' = t.hashes.values m
  reload : ∃ t' m', unMarshal (t.marshal m) m = .ok (t', m') ∧
    ∀ more, t'.rootAfter sha256 spare more m' = t.rootAfter sha256 spare more m

theorem answersFor_of_represents {leaves t m} (hn : leaves.length < 2 ^ 31)
    (h : Represents sha256 m t (CompactMerkleTree.ofLeaves sha256 leaves)) :
    AnswersFor sha256 spare leaves t m where
  length_hashes := by
    rw [h.hashes, CompactMerkleTree.ofLeaves, peaks_length, length_map]
  root := h.root_ofLeaves (by omega)
  newLeaves := by
    intro newLeaf hlen
    have hlen' : (newLeaf.map Subtype.val).length = newLeaf.length := length_map _
    -- the clone has an array of its own, so its appends are not seen by the tree
    obtain ⟨t', m', hall, h'⟩ := (cloneMem_represents h).appendAll spare (newLeaf.map Subtype.val)
      (by omega)
    obtain ⟨rootHash, _, hroot, hfull⟩ :=
      h'.root_ofLeaves (by rw [length_append]; omega)
    have hne : t.hashes.array ≠ (t.cloneMem m).1.hashes.array := Nat.ne_of_lt h.valid.allocated
    refine ⟨rootHash, m', bind_ok.mpr ⟨_, hall, bind_ok.mpr ⟨_, hroot, rfl⟩⟩, hfull, ?_⟩
    rw [appendAll_frame h.valid.ofList hne hall]
    exact Slice.ofList_values_of_valid h.valid
  newLeaf := by
    intro newLeaf hlen
    have hfold := hashFold_ofLeaves sha256 newLeaf.val
      (show leaves.length + 1 < 2 ^ 32 by omega)
    have hlen' : (leaves ++ [newLeaf.val]).length < 2 ^ 32 := by
      rw [length_append, length_singleton]
      omega
    rw [fullRoot_eq sha256 hlen', ← h.hashes, ← Slice.push_values h.valid] at hfold
    refine ⟨_, _, bind_ok.mpr ⟨_, hfold, rfl⟩, fullRoot_eq sha256 hlen', ?_⟩
    exact Slice.push_values_of_le h.valid fun _ => le_rfl
  reload := by
    have hsize : (UInt32.ofNat leaves.length).toNat = leaves.length := by
      rw [UInt32.toNat_ofNat', Nat.mod_eq_of_lt (by omega)]
    obtain ⟨t', m', hload, h'⟩ := unMarshal_marshal h (by
      rw [CompactMerkleTree.ofLeaves, peaks_length, length_map, hsize, countBit_eq_count])
    refine ⟨t', m', hload, fun more => ?_⟩
    rw [h'.rootAfter, h.rootAfter]

/-- Leaves appended one by one to an empty tree give an object that answers with the root over all
leaves, also for the leaves still to come and after it is stored and loaded. -/
theorem appendAll_answersFor (m₀ : HashMemory) (leaves : List Bytes)
    (hn : leaves.length < 2 ^ 31) : ∃ t₀ m₁ t m, newTree m₀ = .ok (t₀, m₁) ∧
      t₀.appendAll sha256 spare leaves m₁ = .ok (t, m) ∧ AnswersFor sha256 spare leaves t m := by
  obtain ⟨t₀, m₁, hnew, h₀⟩ := newTree_represents m₀
  obtain ⟨t, m, hall, h⟩ := h₀.appendAll spare leaves (by rw [length_nil]; omega)
  exact ⟨t₀, m₁, t, m, hnew, hall, answersFor_of_represents sha256 spare hn h⟩

theorem appendAll_answersFor_three : [[1], [2], [3]].length < 2 ^ 31 ∧
    ∃ t₀ m₁ t m, newTree [] = .ok (t₀, m₁) ∧
      t₀.appendAll (zeroPad 32) id [[1], [2], [3]] m₁ = .ok (t, m) ∧
      AnswersFor (zeroPad 32) id [[1], [2], [3]] t m :=
  ⟨by decide, appendAll_answersFor (zeroPad 32) id [] [[1], [2], [3]] (by decide)⟩

end TreeObject

end Poly.Merkle
