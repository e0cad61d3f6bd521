import Poly.Merkle.HashStore
import Poly.Merkle.Verifier

/-! Trees whose hash store is filled by appends and by opening the file again at an earlier size: the
store gives the root of every earlier tree, and the stale end of a file is never read. -/
namespace Poly.Merkle

open Lib Lib.MerkleTree List UInt32 Nat

variable (sha256 : Bytes → Uint256)

section Trees

/-- The hashes that the store of a tree over these leaves begins with. -/
def storedHashes (leaves : List Bytes) : List Uint256 :=
  stored (hashChildren sha256) (hashEmpty sha256) (leaves.map (hashLeaf sha256))

/-- The compact tree after appends of the leaves, as it is committed with a block. -/
def committedTree (leaves : List Bytes) : Result CompactMerkleTree :=
  leaves.foldlM (CompactMerkleTree.append sha256) .empty

/-- The tree that is set up from a hash file and a committed tree. -/
def StoredTree.reopen (content : Bytes) (treeSize : UInt32) (hashes : List Uint256) :
    Result StoredTree := do
  let store ← HashStore.newFileHashStore content treeSize
  StoredTree.newTree treeSize hashes (some store)

/-- The trees over a list of leaves that have a hash store: new ones, in memory or on a file with any
content, those with one leaf more, and those whose file is opened again at an earlier size. -/
inductive Built : List Bytes → StoredTree → Prop
  | mem {t : StoredTree}
      (h : StoredTree.newTree 0 [] (some HashStore.newMemHashStore) = .ok t) : Built [] t
  | file {t : StoredTree} {content : Bytes} (h : StoredTree.reopen content 0 [] = .ok t) : Built [] t
  | append {leaves : List Bytes} {t t' : StoredTree} {leafv : Bytes} {auditPath : List Uint256}
      (hb : Built leaves t) (h : t.append sha256 leafv = .ok (auditPath, t')) :
      Built (leaves ++ [leafv]) t'
  | reopen {leaves : List Bytes} {t t' : StoredTree} {content : Bytes} {offset : ℕ} {k : UInt32}
      {committed : CompactMerkleTree} (hb : Built leaves t)
      (hfile : t.hashStore = some (.file content offset)) (hk : k.toNat ≤ leaves.length)
      (hc : committedTree sha256 (leaves.take k.toNat) = .ok committed)
      (h : StoredTree.reopen content k committed.hashes = .ok t') : Built (leaves.take k.toNat) t'

variable {sha256} {leaves : List Bytes} {t t' : StoredTree} {leafv : Bytes}

variable (sha256) in
theorem storedHashes_take (leaves : List Bytes) (n : ℕ) : storedHashes sha256 (leaves.take n) <+: storedHashes sha256 leaves := by
  rw [storedHashes, map_take]
  exact stored_take _ _ _ n

theorem storedHashes_length : (storedHashes sha256 leaves).length = storedNum leaves.length := by
  rw [storedHashes, stored_length, length_map]

variable (sha256) in
theorem appendHashLoop_fst (s : ℕ) (hashes : List Uint256) (leaf : Uint256)
    (storehashes : List Uint256) :
    (StoredTree.appendHashLoop sha256 s hashes leaf storehashes).map Prod.fst =
      CompactMerkleTree.appendLoop sha256 s hashes leaf := by
  fun_induction StoredTree.appendHashLoop sha256 s hashes leaf storehashes with
  | case1 s hashes leaf storehashes hodd ih =>
    rw [CompactMerkleTree.appendLoop, dif_pos hodd]
    cases goIndex hashes (hashes.length - 1) with
    | error e => rfl
    | ok last => exact ih last
  | case2 s hashes leaf storehashes hodd =>
    rw [CompactMerkleTree.appendLoop, dif_neg hodd]
    rfl

variable (sha256) in
/-- The hashes for the store are those of the subtrees that become full. -/
theorem appendHashLoop_carry (l : List Uint256) (x : Uint256) (storehashes : List Uint256) : ∃ r,
    StoredTree.appendHashLoop sha256 l.length (peaks (hashChildren sha256) l) x (storehashes ++ [x]) =
      .ok (r, storehashes ++ carry (hashChildren sha256) l x) := by
  induction l using level_induction (hashChildren sha256) generalizing x storehashes with
  | nil =>
    rw [StoredTree.appendHashLoop, carry_even _ rfl]
    exact ⟨_, rfl⟩
  | even l hne he =>
    rw [StoredTree.appendHashLoop, dif_neg (by omega), carry_even _ he]
    exact ⟨_, rfl⟩
  | odd m a he ih =>
    obtain ⟨r, hloop⟩ := ih (hashChildren sha256 a x) (storehashes ++ [x])
    rw [pairUp_length] at hloop
    have hlast : goIndex (peaks (hashChildren sha256) m ++ [a])
        ((peaks (hashChildren sha256) m ++ [a]).length - 1) = .ok a := by simp
    rw [length_append, length_singleton, StoredTree.appendHashLoop, dif_pos (by omega),
      peaks_concat_even _ he, hlast, dropLast_concat, peaks_even _ he, carry_odd _ he]
    refine ⟨r, hloop.trans ?_⟩
    rw [append_assoc, singleton_append]

variable (sha256) in
/-- The loop finds a subtree for each low bit of the size, and leaves one for each bit of the next. -/
theorem appendLoop_isOk {s hashes} (h : countBit s ≤ hashes.length) (leaf : Uint256) :
    ∃ kept x, CompactMerkleTree.appendLoop sha256 s hashes leaf = .ok (kept, x) ∧
      countBit (s + 1) ≤ kept.length + 1 := by
  induction s using Nat.strong_induction_on generalizing hashes leaf with
  | _ s ih =>
    rw [CompactMerkleTree.appendLoop]
    obtain ⟨q, rfl | rfl⟩ := Nat.even_or_odd' s
    · rw [countBit_two_mul] at h
      rw [dif_neg (by omega), countBit_two_mul_add_one]
      exact ⟨hashes, leaf, rfl, by omega⟩
    · rw [countBit_two_mul_add_one] at h
      obtain ⟨last, hlast⟩ : ∃ last, goIndex hashes (hashes.length - 1) = .ok last :=
        ⟨_, goIndex_ok.mpr (getElem?_eq_getElem (by omega))⟩
      rw [dif_pos (by omega), hlast, show 2 * q + 1 + 1 = 2 * (q + 1) by omega,
        countBit_two_mul, show (2 * q + 1) / 2 = q by omega]
      refine ih q (by omega) ?_ _
      rw [length_dropLast]
      omega

variable (sha256) in
/-- A committed tree exists, has the number of its leaves as size and a hash for each bit of it. -/
theorem committedTree_isOk (leaves : List Bytes) : ∃ T, committedTree sha256 leaves = .ok T ∧
    T.treeSize = UInt32.ofNat leaves.length ∧ countBit T.treeSize.toNat ≤ T.hashes.length := by
  induction leaves using List.reverseRecOn with
  | nil => exact ⟨.empty, rfl, rfl, by rw [CompactMerkleTree.empty]; exact countBit_zero.le⟩
  | append_singleton leaves leafv ih =>
    obtain ⟨T, hT, hsize, hcount⟩ := ih
    obtain ⟨kept, x, hloop, hnext⟩ :=
      appendLoop_isOk sha256 hcount (hashLeaf sha256 leafv)
    have happend : T.append sha256 leafv = .ok ⟨kept ++ [x], T.treeSize + 1⟩ :=
      bind_ok.mpr ⟨_, hloop, rfl⟩
    refine ⟨⟨kept ++ [x], T.treeSize + 1⟩, ?_, ?_, ?_⟩
    · rw [committedTree, foldlM_append]
      refine bind_ok.mpr ⟨T, hT, ?_⟩
      rw [foldlM_cons, happend]
      rfl
    · rw [length_append, UInt32.ofNat_add, hsize]
      rfl
    · -- after `2 ^ 32` leaves the size starts again at 0, which needs no hash
      rw [length_append, UInt32.toNat_add]
      have hlt := T.treeSize.toNat_lt
      by_cases hwrap : T.treeSize.toNat + 1 = 2 ^ 32
      · rw [show (1 : UInt32).toNat = 1 from rfl, hwrap, mod_self, countBit_zero]
        omega
      · rw [show (1 : UInt32).toNat = 1 from rfl, mod_eq_of_lt (by omega)]
        exact hnext

variable (sha256) in
theorem committedTree_eq (h : leaves.length < 2 ^ 32) :
    committedTree sha256 leaves = .ok (CompactMerkleTree.ofLeaves sha256 leaves) := by
  induction leaves using List.reverseRecOn with
  | nil => rw [CompactMerkleTree.ofLeaves_nil]; rfl
  | append_singleton leaves leafv ih =>
    rw [length_append] at h
    rw [committedTree, foldlM_append]
    refine bind_ok.mpr ⟨_, ih (by omega), ?_⟩
    rw [foldlM_cons, CompactMerkleTree.append_ofLeaves sha256 (by omega)]
    rfl

variable (sha256) in
/-- What a tree with a hash store keeps: the compact tree over its leaves, and a store that begins with
the hashes of all subtrees that its size can count. -/
structure Kept (leaves : List Bytes) (t : StoredTree) : Prop where
  tree : committedTree sha256 leaves = .ok t.tree
  store : ∃ store, t.hashStore = some store ∧
    store.Front (storedHashes sha256 (leaves.take (2 ^ 32 - 1))) ∧
    (leaves.length < 2 ^ 32 → store.Ends (storedHashes sha256 leaves))

theorem Kept.treeSize (h : Kept sha256 leaves t) :
    t.tree.treeSize = UInt32.ofNat leaves.length := by
  obtain ⟨T, hT, hsize, -⟩ := committedTree_isOk sha256 leaves
  cases ok_unique hT h.tree
  exact hsize

theorem Kept.le_length {n : UInt32} (h : Kept sha256 leaves t) (hn : n ≤ t.tree.treeSize) :
    n.toNat ≤ leaves.length := by
  rw [h.treeSize, le_iff_toNat_le] at hn
  exact hn.trans (mod_le _ _)

/-- The store begins with the hashes of the tree over the first leaves. -/
theorem Kept.front (h : Kept sha256 leaves t) (n : UInt32) : ∃ store, t.hashStore = some store ∧
    store.Front (storedHashes sha256 (leaves.take n.toNat)) := by
  obtain ⟨store, hstore, hfront, -⟩ := h.store
  refine ⟨store, hstore, hfront.mono ?_⟩
  have hle : n.toNat ≤ 2 ^ 32 - 1 := le_sub_one_of_lt n.toNat_lt
  have htake := storedHashes_take sha256 (leaves.take (2 ^ 32 - 1)) n.toNat
  rwa [take_take, min_eq_left hle] at htake

theorem newTree_nil (store : HashStore) :
    StoredTree.newTree 0 [] (some store) = .ok ⟨.empty, some store⟩ := by
  have hcount : ([] : List Uint256).length = countBit (0 : UInt32).toNat := countBit_zero.symm
  rw [StoredTree.newTree, CompactMerkleTree.newTree, failIf_of_not (not_not.mpr hcount)]
  rfl

theorem kept_nil {store} (h : store.Ends []) (ht : StoredTree.newTree 0 [] (some store) = .ok t) :
    Kept sha256 [] t := by
  cases ok_unique (newTree_nil store) ht
  have hnil : storedHashes sha256 [] = [] := stored_nil _ _
  refine ⟨rfl, store, rfl, ?_, fun _ => ?_⟩
  · rw [take_nil, hnil]
    exact h.front prefix_rfl
  · rw [hnil]
    exact h

/-- An append never fails. It writes the hashes of the subtrees that become full. -/
theorem Kept.append (h : Kept sha256 leaves t) (leafv : Bytes) : ∃ auditPath t',
    t.append sha256 leafv = .ok (auditPath, t') ∧ Kept sha256 (leaves ++ [leafv]) t' := by
  obtain ⟨store, hstore, hfront, hends⟩ := h.store
  obtain ⟨T, hT, -, hcount⟩ := committedTree_isOk sha256 leaves
  cases ok_unique hT h.tree
  obtain ⟨kept, x, hloop, -⟩ := appendLoop_isOk sha256 hcount (hashLeaf sha256 leafv)
  have hfst := appendHashLoop_fst sha256 t.tree.treeSize.toNat t.tree.hashes (hashLeaf sha256 leafv)
    [hashLeaf sha256 leafv]
  rw [hloop] at hfst
  cases hboth : StoredTree.appendHashLoop sha256 t.tree.treeSize.toNat t.tree.hashes
      (hashLeaf sha256 leafv) [hashLeaf sha256 leafv] with
  | error e =>
    rw [hboth] at hfst
    cases hfst
  | ok r =>
    rw [hboth] at hfst
    obtain ⟨r, storehashes⟩ := r
    obtain rfl : r = (kept, x) := Except.ok.inj hfst
    refine ⟨t.tree.hashes.reverse, ⟨⟨kept ++ [x], t.tree.treeSize + 1⟩,
      t.hashStore.map (·.append storehashes)⟩, bind_ok.mpr ⟨_, hboth, rfl⟩, ?_, ?_⟩
    · rw [committedTree, foldlM_append]
      refine bind_ok.mpr ⟨t.tree, hT, ?_⟩
      exact bind_ok.mpr ⟨_, bind_ok.mpr ⟨_, hloop, rfl⟩, rfl⟩
    · refine ⟨store.append storehashes, by rw [hstore]; rfl, ?_⟩
      by_cases hlen : leaves.length < 2 ^ 32
      · have hnext : (store.append storehashes).Ends (storedHashes sha256 (leaves ++ [leafv])) := by
          have hpeaks := ok_unique hT (committedTree_eq sha256 hlen)
          obtain ⟨r, hcarry⟩ := appendHashLoop_carry sha256 (leaves.map (hashLeaf sha256))
            (hashLeaf sha256 leafv) []
          have hsize : t.tree.treeSize.toNat = (leaves.map (hashLeaf sha256)).length := by
            rw [h.treeSize, toNat_ofNat', mod_eq_of_lt hlen, length_map]
          rw [hsize, hpeaks] at hboth
          have hsame := ok_unique hboth hcarry
          rw [(Prod.mk.inj hsame).2, storedHashes, map_append,
            map_singleton, stored_concat]
          exact (hends hlen).append _
        exact ⟨hnext.front (storedHashes_take sha256 _ _), fun _ => hnext⟩
      · rw [take_append_of_le_length (by omega)]
        refine ⟨hfront.append _, fun hshort => ?_⟩
        rw [length_append] at hshort
        omega

/-- The file is opened again at any earlier size; what is behind that size is written over. -/
theorem Kept.reopen {content offset k} (h : Kept sha256 leaves t)
    (hfile : t.hashStore = some (.file content offset)) (hk : k.toNat ≤ leaves.length) :
    ∃ committed t', committedTree sha256 (leaves.take k.toNat) = .ok committed ∧
      StoredTree.reopen content k committed.hashes = .ok t' ∧
      Kept sha256 (leaves.take k.toNat) t' := by
  obtain ⟨store, hstore, hfront⟩ := h.front k
  cases hstore.symm.trans hfile
  have hlen : (leaves.take k.toNat).length = k.toNat := length_take_of_le hk
  have hshort : (leaves.take k.toNat).length < 2 ^ 32 := hlen.symm ▸ k.toNat_lt
  obtain ⟨store, hopen, hends⟩ := HashStore.newFileHashStore_ok (k := k)
    (by rw [storedHashes_length, hlen]) hfront.1
  have hcommitted := committedTree_eq sha256 hshort
  have hcount : (CompactMerkleTree.ofLeaves sha256 (leaves.take k.toNat)).hashes.length =
      countBit k.toNat := by
    rw [CompactMerkleTree.ofLeaves, peaks_length, length_map, hlen, countBit_eq_count]
  have hsize : UInt32.ofNat (leaves.take k.toNat).length = k := by rw [hlen, UInt32.ofNat_toNat]
  refine ⟨_, ⟨CompactMerkleTree.ofLeaves sha256 (leaves.take k.toNat), some store⟩, hcommitted, ?_,
    hcommitted, store, rfl, hends.front (storedHashes_take sha256 _ _), fun _ => hends⟩
  refine bind_ok.mpr ⟨store, hopen, bind_ok.mpr ⟨_, ?_, rfl⟩⟩
  rw [CompactMerkleTree.newTree, failIf_of_not (not_not.mpr hcount)]
  exact congrArg (fun n => Except.ok (CompactMerkleTree.mk _ n)) hsize.symm

/-- Every tree with a hash store keeps the hashes of its subtrees. -/
theorem Built.kept (h : Built sha256 leaves t) : Kept sha256 leaves t := by
  induction h with
  | mem h => exact kept_nil (show HashStore.newMemHashStore.Ends [] from rfl) h
  | file h =>
    obtain ⟨store, hopen, ht⟩ := bind_ok.mp h
    have hzero : ([] : List Uint256).length = storedNum (0 : UInt32).toNat := by
      rw [UInt32.toNat_zero, storedNum, subtreeSizes_zero]
      rfl
    obtain ⟨store', hopen', hends⟩ := HashStore.newFileHashStore_ok hzero nil_prefix
    cases ok_unique hopen hopen'
    exact kept_nil hends ht
  | append hb h ih =>
    obtain ⟨auditPath, t', happend, hkept⟩ := ih.append _
    cases ok_unique h happend
    exact hkept
  | reopen hb hfile hk hc h ih =>
    obtain ⟨committed, t', hc', h', hkept⟩ := ih.reopen hfile hk
    cases ok_unique hc hc'
    cases ok_unique h h'
    exact hkept

theorem Built.appendAll (h : Built sha256 leaves t) (more : List Bytes) :
    ∃ t', t.appendAll sha256 more = .ok t' ∧ Built sha256 (leaves ++ more) t' := by
  induction more generalizing leaves t with
  | nil => exact ⟨t, rfl, by rwa [append_nil]⟩
  | cons leafv more ih =>
    obtain ⟨auditPath, t₁, happend, -⟩ := h.kept.append leafv
    obtain ⟨t', hall, hbuilt⟩ := ih (h.append happend)
    refine ⟨t', ?_, by rwa [append_assoc] at hbuilt⟩
    rw [StoredTree.appendAll, foldlM_cons, happend]
    exact hall

variable (sha256) in
theorem exists_built (leaves : List Bytes) : ∃ t, Built sha256 leaves t := by
  obtain ⟨t, -, hbuilt⟩ := (Built.mem (newTree_nil _)).appendAll leaves
  exact ⟨t, hbuilt⟩

end Trees

variable {sha256} {leaves : List Bytes} {t t' : StoredTree}

theorem storedNum_le_range {n : ℕ} (h : n ≤ 2 ^ 31 + 1) : storedNum n ≤ 2 ^ 32 := by
  by_cases heq : n = 2 ^ 31 + 1
  · have hone : storedNum 1 = 1 := storedNum_pow 0
    rw [heq, storedNum_split (k := 31) (by omega) (by omega), Nat.add_sub_cancel_left, hone]
    norm_num
  · have := storedNum_le n
    omega

variable (sha256) in
theorem length_leafHashes {n : ℕ} (h : n ≤ leaves.length) :
    ((leaves.take n).map (hashLeaf sha256)).length = n := by
  rw [length_map, length_take_of_le h]

variable (sha256) in
theorem segment_storedHashes (leaves : List Bytes) : Segment (hashChildren sha256) (hashEmpty sha256)
    (storedHashes sha256 leaves) 0 (leaves.map (hashLeaf sha256)) := prefix_rfl

variable (sha256) in
theorem fullRoot_take {n : UInt32} (hn : n.toNat ≤ leaves.length) :
    fullRoot sha256 (leaves.take n.toNat) = .ok (root (hashChildren sha256)
      (hashEmpty sha256) ((leaves.take n.toNat).map (hashLeaf sha256))) := by
  refine fullRoot_eq sha256 ?_
  rw [length_take_of_le hn]
  exact n.toNat_lt

theorem Kept.storedHashes_length_le {n : UInt32} (h : Kept sha256 leaves t)
    (hn : n ≤ t.tree.treeSize) (hrange : n.toNat ≤ 2 ^ 31 + 1) :
    (storedHashes sha256 (leaves.take n.toNat)).length ≤ 2 ^ 32 := by
  rw [storedHashes_length, length_take_of_le (h.le_length hn)]
  exact storedNum_le_range hrange

theorem Kept.merkleRoot {n : UInt32} (h : Kept sha256 leaves t) (hpos : 1 ≤ n)
    (hn : n ≤ t.tree.treeSize) (hrange : n.toNat ≤ 2 ^ 31 + 1) :
    t.merkleRoot sha256 n = fullRoot sha256 (leaves.take n.toNat) := by
  obtain ⟨store, hstore, hfront⟩ := h.front n
  have hlen := length_leafHashes sha256 (h.le_length hn)
  have hne : (leaves.take n.toNat).map (hashLeaf sha256) ≠ [] := by
    intro hnil
    rw [hnil] at hlen
    have hlt := le_iff_toNat_le.mp hpos
    rw [← hlen] at hlt
    exact absurd hlt (by decide)
  have hroot := segmentRoot_eq sha256 hfront (h.storedHashes_length_le hn hrange) hne
    (segment_storedHashes sha256 _)
  rw [hlen] at hroot
  rw [merkleRoot_eq_segmentRoot, hstore, hroot, fullRoot_take sha256 (h.le_length hn)]

variable (sha256) in
theorem merkleRoot_zero (t : StoredTree) :
    t.merkleRoot sha256 0 = .error (.panic "index out of range") := by
  rw [merkleRoot_eq_segmentRoot, UInt32.toNat_zero, segmentRoot, subtreeSizes_zero]
  rfl

section Agreement

variable {S : List Uint256} {store store' : HashStore}

theorem inclusionLoop_congr (h : store.Front S) (h' : store'.Front S) {m n off : ℕ} (hmn : m < n)
    (hn : n < 2 ^ 32) (hoff : off + storedNum n ≤ S.length) (hashes : List (UInt8 × Uint256)) :
    StoredTree.inclusionLoop sha256 (some store) m n (UInt32.ofNat off) hashes =
      StoredTree.inclusionLoop sha256 (some store') m n (UInt32.ofNat off) hashes := by
  induction n using Nat.strong_induction_on generalizing m off hashes with
  | _ n ih =>
    rw [StoredTree.inclusionLoop, StoredTree.inclusionLoop]
    by_cases hone : n ≤ 1
    · rw [dif_pos hone, dif_pos hone]
    · have hpos := splitWidth_pos n
      have hlt := splitWidth_lt (n := n) (by omega)
      have hsides := storedNum_sides (n := n) (by omega)
      have hleft := storedNum_pow (Nat.log 2 (n - 1))
      rw [← splitWidth] at hleft
      rw [dif_neg hone, dif_neg hone, leftWidth_eq (by omega)]
      dsimp only
      by_cases hside : m < splitWidth n
      · rw [if_pos hside, if_pos hside, rootk2n_eq_segmentRoot _ _ hpos (by omega),
          rootk2n_eq_segmentRoot _ _ hpos (by omega),
          segmentRoot_congr sha256 h h' (by omega)]
        congr 1
        funext x
        exact ih _ hlt hside (by omega) (by omega) _
      · have hindex : UInt32.ofNat (off + (2 * splitWidth n - 1)) - 1 =
            UInt32.ofNat (off + (2 * splitWidth n - 1) - 1) := by
          rw [ofNat_sub (by omega : 1 ≤ off + (2 * splitWidth n - 1))]
          rfl
        rw [if_neg hside, if_neg hside, root02k_offset hpos, hindex,
          hashAt_congr h h' (by omega)]
        congr 1
        funext x
        exact ih _ (by omega) (by omega) (by omega) (by omega) _

theorem Kept.agree (h : Kept sha256 leaves t) (h' : Kept sha256 leaves t') :
    t.root sha256 = t'.root sha256 ∧
      (∀ n ≤ t.tree.treeSize, t.merkleRoot sha256 n = t'.merkleRoot sha256 n) ∧
      ∀ m n, t.inclusionPath sha256 m n = t'.inclusionPath sha256 m n := by
  have htree : t.tree = t'.tree := ok_unique h.tree h'.tree
  refine ⟨congrArg (CompactMerkleTree.root sha256) htree, ?_, ?_⟩
  · intro n hn
    obtain ⟨store, hstore, hfront⟩ := h.front n
    obtain ⟨store', hstore', hfront'⟩ := h'.front n
    rw [merkleRoot_eq_segmentRoot, merkleRoot_eq_segmentRoot, hstore, hstore']
    refine segmentRoot_congr sha256 hfront hfront' ?_
    rw [storedHashes_length, length_take_of_le (h.le_length hn), Nat.zero_add]
  · intro m n
    obtain ⟨store, hstore, hfront⟩ := h.front n
    obtain ⟨store', hstore', hfront'⟩ := h'.front n
    rw [StoredTree.inclusionPath, StoredTree.inclusionPath, htree, hstore, hstore']
    by_cases hmn : m ≥ n
    · rw [failIf, if_pos hmn]
      rfl
    by_cases hn : t'.tree.treeSize < n
    · rw [failIf_of_not hmn, ok_bind, ok_bind, failIf, if_pos hn]
      rfl
    rw [failIf_of_not hmn, failIf_of_not hn, failIf_of_not (Option.some_ne_none _),
      failIf_of_not (Option.some_ne_none _)]
    simp only [ok_bind]
    have hlt : m.toNat < n.toNat := lt_iff_toNat_lt.mp (not_le.mp hmn)
    have hle : n.toNat ≤ leaves.length := h'.le_length (not_lt.mp hn)
    congr 1
    refine inclusionLoop_congr hfront hfront' hlt n.toNat_lt ?_ []
    rw [storedHashes_length, length_take_of_le hle, Nat.zero_add]

end Agreement

section Wrapped

theorem hashFold_cons {hs x} (h : hashFold sha256 hs = .ok x) (a : Uint256) :
    hashFold sha256 (a :: hs) = .ok (hashChildren sha256 a x) := by
  rcases eq_nil_or_concat' hs with rfl | ⟨hs, z, rfl⟩
  · cases h
  · rw [hashFold_concat] at h
    cases h
    rw [← cons_append, hashFold_concat]
    rfl

variable (sha256) in
/-- The messages that a fold of hashes hashes. -/
def foldMessages : List Uint256 → List Bytes
  | [] => []
  | a :: hs =>
    match hashFold sha256 hs with
    | .ok x => childrenMessage a x :: foldMessages hs
    | .error _ => []

variable (sha256) in
/-- The messages that `merkleRoot` hashes. -/
def merkleRootMessages (t : StoredTree) (n : UInt32) : List Bytes :=
  match (getSubTreePos n).mapM fun p => hashAt t.hashStore (p - 1) with
  | .ok hashes => foldMessages sha256 hashes
  | .error _ => []

theorem foldMessages_cons {hs x} (h : hashFold sha256 hs = .ok x) (a : Uint256) :
    foldMessages sha256 (a :: hs) = childrenMessage a x :: foldMessages sha256 hs := by
  rw [foldMessages, h]

theorem reads_isOk {S} {store : HashStore} (hfront : store.Front S) {ps : List ℕ}
    (h : ∀ p ∈ ps, 1 ≤ p ∧ p ≤ S.length) :
    ∃ hs, ps.mapM (fun p => hashAt (some store) (UInt32.ofNat (p - 1))) = .ok hs ∧
      hs.length = ps.length := by
  refine ⟨ps.map fun p => S.getD ((p - 1) % 2 ^ 32) Uint256.empty,
    mapM_ok.mpr (forall₂_map_right_iff.mpr (forall₂_same.mpr fun p hp => ?_)), length_map _⟩
  obtain ⟨hpos, hle⟩ := h p hp
  have hmod : (p - 1) % 2 ^ 32 < S.length := lt_of_le_of_lt (mod_le _ _) (by omega)
  have hread := hashAt_front hfront (mod_lt _ (by decide)) (getElem?_eq_getElem hmod)
  rwa [ofNat_mod_size, ← getD_eq_getElem _ Uint256.empty hmod] at hread

variable (sha256) in
/-- The root over a list of values. -/
abbrev valuesRoot (vs : List Bytes) : Uint256 :=
  treeRoot sha256 leafMessage childrenMessage (hashEmpty sha256) vs

variable (sha256) in
/-- The messages hashed for the root over a list of values. -/
abbrev valuesMessages (vs : List Bytes) : List Bytes :=
  treeMessages sha256 leafMessage childrenMessage (hashEmpty sha256) vs

theorem root_eq_valuesRoot (vs : List Bytes) :
    root (hashChildren sha256) (hashEmpty sha256) (vs.map (hashLeaf sha256)) =
      valuesRoot sha256 vs := rfl

theorem valuesRoot_singleton (v : Bytes) : valuesRoot sha256 [v] = hashLeaf sha256 v := by
  rw [valuesRoot, treeRoot, map_singleton, root]
  rfl

variable {vs : List Bytes} {store : HashStore} {i : ℕ}

/-- The root of the first `2 ^ k` leaves is read where it is stored. -/
theorem hashAt_first {k : ℕ} (hfront : store.Front (storedHashes sha256 vs)) (hk : k ≤ 31)
    (hlen : 2 ^ k ≤ vs.length) :
    hashAt (some store) (UInt32.ofNat (2 * 2 ^ k - 1 - 1)) =
      .ok (valuesRoot sha256 (vs.take (2 ^ k))) := by
  have hseg := segment_zero (n := 2 ^ k) (segment_storedHashes sha256 vs)
  rw [← map_take] at hseg
  have hget := Segment.root (k := k) hseg (by rw [length_map, length_take_of_le hlen])
  rw [Nat.zero_add, root_eq_valuesRoot] at hget
  have hpow : 2 ^ k ≤ 2 ^ 31 := Nat.pow_le_pow_right (by decide) hk
  exact hashAt_front hfront (by omega) hget

/-- The second subtree is sought behind the end of the counter: what is found is the root of the
second half of as many leaves at the beginning. -/
theorem hashAt_second (hfront : store.Front (storedHashes sha256 vs)) (hi : i < 30)
    (hlen : 2 ^ (i + 1) ≤ vs.length) :
    hashAt (some store) (UInt32.ofNat (2 * 2 ^ 31 - 1 + (2 * 2 ^ (i + 1) - 1) - 1)) =
      .ok (valuesRoot sha256 ((vs.take (2 ^ (i + 1))).drop (2 ^ i))) := by
  have hpos := Nat.two_pow_pos i
  have hpow : 2 ^ i ≤ 2 ^ 30 := Nat.pow_le_pow_right (by decide) hi.le
  have hseg := segment_zero (n := 2 ^ (i + 1))
    (segment_storedHashes sha256 vs)
  have htake : ((vs.map (hashLeaf sha256)).take (2 ^ (i + 1))).length = 2 ^ (i + 1) := by
    rw [← map_take, length_map, length_take_of_le hlen]
  have hright := (hseg.split (by omega)).2
  rw [htake, splitWidth_pow, ← map_take, ← map_drop] at hright
  have hget := Segment.root (k := i) hright (by
    rw [length_map, length_drop, length_take_of_le hlen]
    omega)
  have hwrap : UInt32.ofNat (2 * 2 ^ 31 - 1 + (2 * 2 ^ (i + 1) - 1) - 1) =
      UInt32.ofNat (0 + (2 * 2 ^ i - 1) + (2 * 2 ^ i - 1) - 1) := by
    rw [← ofNat_mod_size, ← ofNat_mod_size (x := 0 + _ + _ - 1)]
    congr 1
    omega
  rw [hwrap]
  exact hashAt_front hfront (by omega) hget

variable (sha256) in
theorem hashFold_isOk (a : Uint256) (hs : List Uint256) : ∃ x, hashFold sha256 (a :: hs) = .ok x := by
  rcases eq_nil_or_concat' (a :: hs) with hnil | ⟨init, z, heq⟩
  · cases hnil
  · rw [heq]
    exact ⟨_, hashFold_concat sha256 init z⟩

/-- A fold that puts the second half of some first leaves in the place of the second subtree, which is
twice as large, gives the root only if two messages collide. -/
theorem wrapped_collision {r hs} (hlen : vs.length = 2 ^ 31 + r) (hi : i < 30)
    (hle : 2 ^ (i + 1) ≤ r) (hlt : r < 2 ^ (i + 1 + 1)) (hlast : hs = [] ↔ r = 2 ^ (i + 1))
    (heq : hashFold sha256 (valuesRoot sha256 (vs.take (2 ^ 31)) ::
      valuesRoot sha256 ((vs.take (2 ^ (i + 1))).drop (2 ^ i)) :: hs) = .ok (valuesRoot sha256 vs))
    :
    Collision sha256 (foldMessages sha256 (valuesRoot sha256 (vs.take (2 ^ 31)) ::
      valuesRoot sha256 ((vs.take (2 ^ (i + 1))).drop (2 ^ i)) :: hs) ++ valuesMessages sha256 vs) := by
  have hpow : 2 ^ (i + 1 + 1) ≤ 2 ^ 31 := Nat.pow_le_pow_right (by decide) (by omega)
  have hwidth : splitWidth vs.length = 2 ^ 31 := splitWidth_eq (by omega) (by omega)
  have hfirst : (vs.take (2 ^ (i + 1))).length = 2 ^ (i + 1) := length_take_of_le (by omega)
  obtain ⟨right, hright⟩ : ∃ right, vs.drop (2 ^ 31) = right := ⟨_, rfl⟩
  have hrightLen : right.length = r := by
    rw [← hright, length_drop]
    omega
  have hrightSub : valuesMessages sha256 right ⊆ valuesMessages sha256 vs := by
    rw [← hright, ← hwidth]
    exact treeMessages_drop_subset (by omega)
  obtain ⟨half, hhalf⟩ : ∃ half, (vs.take (2 ^ (i + 1))).drop (2 ^ i) = half := ⟨_, rfl⟩
  have hhalfLen : half.length = 2 ^ i := by
    rw [← hhalf, length_drop]
    omega
  have hhalfSub : valuesMessages sha256 half ⊆ valuesMessages sha256 vs := by
    have hdrop : valuesMessages sha256 half ⊆ valuesMessages sha256 (vs.take (2 ^ (i + 1))) := by
      have hsplit : splitWidth (vs.take (2 ^ (i + 1))).length = 2 ^ i := by rw [hfirst, splitWidth_pow]
      rw [← hhalf, ← hsplit]
      exact treeMessages_drop_subset (by omega)
    have htake : valuesMessages sha256 (vs.take (2 ^ 31)) ⊆ valuesMessages sha256 vs := by
      rw [← hwidth]
      exact treeMessages_take_subset (by omega)
    exact List.Subset.trans hdrop
      (List.Subset.trans (treeMessages_pow_subset (by omega) (by omega)) htake)
  obtain ⟨F, hF⟩ := hashFold_isOk sha256 (valuesRoot sha256 half) hs
  have hroot : valuesRoot sha256 vs =
      hashChildren sha256 (valuesRoot sha256 (vs.take (2 ^ 31))) (valuesRoot sha256 right) := by
    rw [← hright, ← hwidth]
    exact treeRoot_sides (by omega)
  rw [hhalf] at heq ⊢
  rw [hashFold_cons hF, hroot] at heq
  rw [foldMessages_cons hF]
  rcases children_eq_or_collision childrenMessage_injective (Except.ok.inj heq) with ⟨-, hsame⟩ | hcol
  · by_cases hnil : hs = []
    · -- the second subtree is the last one
      subst hnil
      cases hF
      have hcol := full_roots_collision separated_messages (Nat.lt_succ_self i) hhalfLen
        (hrightLen.trans (hlast.mp rfl)) hsame
      exact hcol.mono (List.Subset.trans (append_subset.mpr ⟨hhalfSub, hrightSub⟩)
        (subset_append_right _ _))
    · have hne : r ≠ 2 ^ (i + 1) := fun hr => hnil (hlast.mpr hr)
      have hsplit : splitWidth right.length = 2 ^ (i + 1) := splitWidth_eq (by omega) (by omega)
      have hsecond : valuesRoot sha256 right = hashChildren sha256
          (valuesRoot sha256 (right.take (2 ^ (i + 1))))
          (valuesRoot sha256 (right.drop (2 ^ (i + 1)))) := by
        rw [← hsplit]
        exact treeRoot_sides (by omega)
      obtain ⟨b, rest, rfl⟩ := exists_cons_of_ne_nil hnil
      obtain ⟨G, hG⟩ := hashFold_isOk sha256 b rest
      rw [hashFold_cons hG] at hF
      rw [← Except.ok.inj hF, hsecond] at hsame
      rw [foldMessages_cons hG]
      rcases children_eq_or_collision childrenMessage_injective hsame with ⟨hleft, -⟩ | hcol
      · have hpart : valuesMessages sha256 (right.take (2 ^ (i + 1))) ⊆
            valuesMessages sha256 right := by
          rw [← hsplit]
          exact treeMessages_take_subset (by omega)
        have hcol := full_roots_collision separated_messages (Nat.lt_succ_self i) hhalfLen
          (length_take_of_le (by omega)) hleft
        exact hcol.mono (List.Subset.trans
          (append_subset.mpr ⟨hhalfSub, List.Subset.trans hpart hrightSub⟩)
          (subset_append_right _ _))
      · refine hcol.mono (cons_subset.mpr ⟨?_, cons_subset.mpr ⟨?_, nil_subset _⟩⟩)
        · exact mem_append_left _ (mem_cons_of_mem _ mem_cons_self)
        · rw [← hsplit]
          exact mem_append_right _ (hrightSub (mem_treeMessages_root (by omega)))
  · refine hcol.mono (cons_subset.mpr ⟨?_, cons_subset.mpr ⟨?_, nil_subset _⟩⟩)
    · exact mem_append_left _ mem_cons_self
    · rw [← hright, ← hwidth]
      exact mem_append_right _ (mem_treeMessages_root (by omega))

/-- Past the range of the counter a right answer shows two messages that collide. -/
theorem Kept.merkleRoot_wrapped {n : UInt32} (h : Kept sha256 leaves t) (hn : n ≤ t.tree.treeSize)
    (hbig : 2 ^ 31 + 2 ≤ n.toNat)
    (heq : t.merkleRoot sha256 n = fullRoot sha256 (leaves.take n.toNat)) :
    Collision sha256 (merkleRootMessages sha256 t n ++
      valuesMessages sha256 (leaves.take n.toNat)) := by
  obtain ⟨store, hstore, hfront⟩ := h.front n
  have hlt := n.toNat_lt
  have hlen : (leaves.take n.toNat).length = n.toNat := length_take_of_le (h.le_length hn)
  rw [fullRoot_take sha256 (h.le_length hn), root_eq_valuesRoot] at heq
  -- the sizes of the first two full subtrees
  obtain ⟨r, hr⟩ : ∃ r, n.toNat - 2 ^ 31 = r := ⟨_, rfl⟩
  obtain ⟨hle, hnext⟩ := pow_log_bounds (n := r) (by omega)
  have hlog := Nat.log_pos (b := 2) (n := r) (by decide) (by omega)
  obtain ⟨i, hi⟩ : ∃ i, Nat.log 2 r = i + 1 := ⟨Nat.log 2 r - 1, by omega⟩
  rw [hi] at hle hnext
  have hi30 : i < 30 := by
    by_contra hbad
    have : 2 ^ 31 ≤ 2 ^ (i + 1) := Nat.pow_le_pow_right (by decide) (by omega)
    omega
  have hsizes : subtreeSizes n.toNat =
      (2 * 2 ^ 31 - 1) :: (2 * 2 ^ (i + 1) - 1) :: subtreeSizes (r - 2 ^ (i + 1)) := by
    rw [subtreeSizes_split (k := 31) (by omega) (by omega), hr, subtreeSizes_split hle hnext]
  generalize leaves.take n.toNat = vs at hlen hfront heq ⊢
  have hfirst := hashAt_first (k := 31) hfront le_rfl (by omega)
  have hsecond := hashAt_second hfront hi30 (by omega)
  have hpositions : ∀ p ∈ runningSums (2 * 2 ^ 31 - 1 + (2 * 2 ^ (i + 1) - 1))
      (subtreeSizes (r - 2 ^ (i + 1))), 1 ≤ p ∧ p ≤ (storedHashes sha256 vs).length := by
    intro p hp
    refine ⟨pos_of_mem_positions hp, (runningSums_le hp).trans (le_of_eq ?_)⟩
    rw [storedHashes_length, hlen, storedNum, hsizes, sum_cons, sum_cons, Nat.add_assoc]
  obtain ⟨hs, hrest, hcount⟩ := reads_isOk hfront hpositions
  have hreads : (getSubTreePos n).mapM (fun p => hashAt t.hashStore (p - 1)) =
      .ok (valuesRoot sha256 (vs.take (2 ^ 31)) ::
        valuesRoot sha256 ((vs.take (2 ^ (i + 1))).drop (2 ^ i)) :: hs) := by
    rw [getSubTreePos_mapM, hstore, hsizes, runningSums, runningSums, mapM_cons, mapM_cons,
      Nat.zero_add, hfirst, ok_bind, hsecond, ok_bind, hrest]
    rfl
  have hlast : hs = [] ↔ r = 2 ^ (i + 1) := by
    rw [← length_eq_zero_iff, hcount, runningSums_length, length_eq_zero_iff,
      subtreeSizes_eq_nil]
    omega
  rw [StoredTree.merkleRoot, hreads] at heq
  rw [merkleRootMessages, hreads]
  exact wrapped_collision (by omega) hi30 hle hnext hlast heq

end Wrapped

/-- The store gives the root over the first `n` leaves for `n` from 1 to `2 ^ 31 + 1` and, unless two
messages collide, for no other `n`; and a tree whose file is opened again at an earlier size goes on
as a new tree over the leaves of that size would. -/
theorem hashStore_history (h : Built sha256 leaves t) :
    (∀ n ≤ t.tree.treeSize,
      (1 ≤ n ∧ n.toNat ≤ 2 ^ 31 + 1 →
        t.merkleRoot sha256 n = fullRoot sha256 (leaves.take n.toNat)) ∧
      (t.merkleRoot sha256 n = fullRoot sha256 (leaves.take n.toNat) →
        1 ≤ n ∧ n.toNat ≤ 2 ^ 31 + 1 ∨
          Collision sha256 (merkleRootMessages sha256 t n ++
            valuesMessages sha256 (leaves.take n.toNat)))) ∧
    ∀ (content : Bytes) (offset : ℕ) (k : UInt32),
      t.hashStore = some (.file content offset) → k.toNat ≤ leaves.length →
      ∃ committed reopened, committedTree sha256 (leaves.take k.toNat) = .ok committed ∧
        StoredTree.reopen content k committed.hashes = .ok reopened ∧
        ∀ (more : List Bytes) (fresh : StoredTree),
          Built sha256 (leaves.take k.toNat ++ more) fresh →
          ∃ t', reopened.appendAll sha256 more = .ok t' ∧
            t'.root sha256 = fresh.root sha256 ∧
            (∀ n ≤ t'.tree.treeSize, t'.merkleRoot sha256 n = fresh.merkleRoot sha256 n) ∧
            ∀ m n, t'.inclusionProof sha256 m n = fresh.inclusionProof sha256 m n := by
  have hkept := h.kept
  constructor
  · intro n hn
    refine ⟨fun hrange => hkept.merkleRoot hrange.1 hn hrange.2, fun heq => ?_⟩
    by_cases hbig : 2 ^ 31 + 2 ≤ n.toNat
    · exact .inr (hkept.merkleRoot_wrapped hn hbig heq)
    · refine .inl ⟨?_, by omega⟩
      by_contra hzero
      obtain rfl : n = 0 := by
        exact UInt32.toNat_inj.mp (lt_one_iff.mp (not_le.mp hzero))
      rw [merkleRoot_zero, fullRoot_take sha256 (hkept.le_length hn)] at heq
      cases heq
  · intro content offset k hfile hk
    obtain ⟨committed, reopened, hcommitted, hreopen, -⟩ := hkept.reopen hfile hk
    refine ⟨committed, reopened, hcommitted, hreopen, ?_⟩
    intro more fresh hfresh
    obtain ⟨t', happend, hbuilt⟩ := (h.reopen hfile hk hcommitted hreopen).appendAll more
    obtain ⟨hroot, hroots, hpaths⟩ := hbuilt.kept.agree hfresh.kept
    refine ⟨t', happend, hroot, hroots, ?_⟩
    intro m n
    rw [StoredTree.inclusionProof, StoredTree.inclusionProof, hpaths]

theorem hashStore_history_pair : ∃ t, Built (zeroPad 32) [[1], [2]] t ∧
    t.merkleRoot (zeroPad 32) 1 = fullRoot (zeroPad 32) [[1]] := by
  obtain ⟨t, hbuilt⟩ := exists_built (zeroPad 32) [[1], [2]]
  have hsize : (1 : UInt32) ≤ t.tree.treeSize := by
    rw [hbuilt.kept.treeSize]
    decide
  exact ⟨t, hbuilt, ((hashStore_history hbuilt).1 1 hsize).1 ⟨le_rfl, by decide⟩⟩

/-- A hash that keeps the last bytes of a message: the hash of two children is the second one. -/
def tailHash (m : Bytes) : Uint256 := zeroPad 32 (m.drop (m.length - 32))

theorem hashChildren_tailHash (a b : Uint256) : hashChildren tailHash a b = b := by
  have hdrop : (childrenMessage a b).drop ((childrenMessage a b).length - 32) = b.val := by
    rw [childrenMessage, length_cons, length_append, a.2, b.2]
    exact drop_left' a.2
  have hsame := leBytes_leNat b.val
  rw [b.2] at hsame
  rw [hashChildren, tailHash, hdrop]
  exact Subtype.ext hsame

theorem root_tailHash (l : List Uint256) (z e : Uint256) :
    root (hashChildren tailHash) e (l ++ [z]) = z := by
  rw [root_concat]
  induction peaks (hashChildren tailHash) l with
  | nil => rfl
  | cons a hs ih => rw [foldr_cons, ih, hashChildren_tailHash]

/-- Two leaves more than the positions can count, with another last one. -/
def hugeLeaves : List Bytes := List.replicate (2 ^ 31 + 1) [1] ++ [[2]]

theorem hugeLeaves_length : hugeLeaves.length = 2 ^ 31 + 2 := by
  rw [hugeLeaves, length_append, length_replicate, length_singleton]

theorem hugeLeaves_take : hugeLeaves.take (2147483650 : UInt32).toNat = hugeLeaves :=
  take_of_length_le (le_of_eq hugeLeaves_length)

theorem fullRoot_hugeLeaves : fullRoot tailHash hugeLeaves = .ok (hashLeaf tailHash [2]) := by
  rw [fullRoot_eq tailHash (by rw [hugeLeaves_length]; omega), hugeLeaves, map_append]
  exact congrArg _ (root_tailHash _ _ _)

theorem hashLeaf_tailHash_ne : hashLeaf tailHash [1] ≠ hashLeaf tailHash [2] := by decide +kernel

theorem hugeLeaves_size {t} (h : Built tailHash hugeLeaves t) :
    (2147483650 : UInt32) ≤ t.tree.treeSize := by
  rw [h.kept.treeSize, hugeLeaves_length]
  decide

theorem hugeLeaves_second : (hugeLeaves.take 2).drop 1 = [[1]] := by
  rw [hugeLeaves, take_append_of_le_length (by rw [length_replicate]; omega),
    take_replicate]
  rfl

/-- The empty tree makes `merkleRoot` panic, and with `2 ^ 31 + 2` leaves it gives another root. -/
theorem merkleRoot_wrong :
    (∃ t, Built (zeroPad 32) [] t ∧ t.merkleRoot (zeroPad 32) 0 ≠ fullRoot (zeroPad 32) []) ∧
      ∃ t, Built tailHash hugeLeaves t ∧ (2147483650 : UInt32) ≤ t.tree.treeSize ∧
        t.merkleRoot tailHash 2147483650 ≠ fullRoot tailHash (hugeLeaves.take (2147483650 : UInt32).toNat) := by
  constructor
  · obtain ⟨t, hbuilt⟩ := exists_built (zeroPad 32) []
    refine ⟨t, hbuilt, fun heq => ?_⟩
    rw [merkleRoot_zero, fullRoot_eq (zeroPad 32) (by decide)] at heq
    cases heq
  · obtain ⟨t, hbuilt⟩ := exists_built tailHash hugeLeaves
    obtain ⟨store, hstore, hfront⟩ := hbuilt.kept.front 2147483650
    have hlen := hugeLeaves_length
    refine ⟨t, hbuilt, hugeLeaves_size hbuilt, fun heq => ?_⟩
    rw [hugeLeaves_take] at hfront
    have hsizes : subtreeSizes (2147483650 : UInt32).toNat =
        [2 * 2 ^ 31 - 1, 2 * 2 ^ (0 + 1) - 1] := by
      have htoNat : (2147483650 : UInt32).toNat = 2 ^ 31 + 2 := rfl
      have hrest : 2 - 2 ^ (0 + 1) = 0 := rfl
      rw [htoNat, subtreeSizes_split (k := 31) (by omega) (by omega), Nat.add_sub_cancel_left,
        subtreeSizes_split (k := 0 + 1) (by omega) (by omega), hrest, subtreeSizes_zero]
    have hfirst := hashAt_first (k := 31) hfront le_rfl (by omega)
    have hsecond := hashAt_second (i := 0) hfront (by omega) (by omega)
    rw [pow_one, pow_zero, hugeLeaves_second, valuesRoot_singleton] at hsecond
    rw [merkleRoot_eq_segmentRoot, hstore, segmentRoot, hsizes, runningSums, runningSums,
      mapM_cons, mapM_cons, Nat.zero_add, Nat.zero_add, pow_one, hfirst, hsecond,
      hugeLeaves_take, fullRoot_hugeLeaves] at heq
    have hfold : hashFold tailHash [valuesRoot tailHash (hugeLeaves.take (2 ^ 31)),
        hashLeaf tailHash [1]] = .ok (hashLeaf tailHash [1]) := by
      rw [hashFold_cons (x := hashLeaf tailHash [1]) rfl, hashChildren_tailHash]
    exact hashLeaf_tailHash_ne (ok_unique hfold heq)

end Poly.Merkle
