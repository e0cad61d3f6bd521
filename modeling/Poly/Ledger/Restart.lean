import Poly.Ledger.FailedSubmit
import Poly.Ledger.HeaderIndex
import Poly.Merkle.Incremental

/-! Runs of block submissions, and what a restart on the stores then finds: the whole header index,
unless a submission with which a list was due failed before the commit of the block store. -/
namespace Poly.Ledger

open Lib Lib.Persist Native Merkle List OrderedMap UInt32 CompactMerkleTree

variable {C : Crypto} {contracts : Contracts}

section Runs

variable (contracts)

/-- Nothing is stored and nothing is in memory about the chain. -/
structure Fresh (s : LedgerStore C) : Prop where
  count : s.storedIndexCount = 0
  height : s.currBlockHeight = 0
  index : s.headerIndex = OrderedMap.empty
  lists : s.headerIndexList = OrderedMap.empty
  hashes : s.blockStore.blockHash = OrderedMap.empty

/-- The ledgers that block submissions lead to. A submission may fail; a panic ends the process. -/
inductive SubmitRun (allowed : LedgerStore C → LedgerBlock C → Option Fault → Prop) :
    LedgerStore C → Prop
  | genesis {s₀ s : LedgerStore C} {block : LedgerBlock C} {result : ExecuteResult}
      {fault : Option Fault} (hfresh : Fresh s₀) (hzero : block.header.height = 0)
      (ha : allowed s₀ block fault)
      (hrun : runFrom (submitBlock block result fault) s₀ = (.ok (), s)) : SubmitRun allowed s
  | submit {s t : LedgerStore C} {env : NodeEnv C} {block : LedgerBlock C}
      {result : ExecuteResult} {fault : Option Fault} {r : Result Unit} (hs : SubmitRun allowed s)
      (ha : allowed s block fault) (hrun : runFrom (SubmitBlock env block result fault) s = (r, t))
      (hpanic : ∀ msg, r ≠ .error (.panic msg)) : SubmitRun allowed t
  | add {s t : LedgerStore C} {env : NodeEnv C} {block : LedgerBlock C} {stateMerkleRoot : Uint256}
      {busy : Bool} {fault : Option Fault} {r : Result Unit} (hs : SubmitRun allowed s)
      (ha : allowed s block fault)
      (hrun : runFrom (AddBlock contracts env block stateMerkleRoot busy fault) s = (r, t))
      (hpanic : ∀ msg, r ≠ .error (.panic msg)) : SubmitRun allowed t

/-- A submission with which a list of the header index is due gets past the commit of the block
store, and no hash of a block is all zeros. -/
def Careful (s : LedgerStore C) (block : LedgerBlock C) (fault : Option Fault) : Prop :=
  (s.BatchDue → ¬ FailsAt fault .saveNotify ∧ ¬ FailsAt fault .blockCommit) ∧
    ∀ hash, block.header.hash C.sha256 = .ok hash → hash ≠ Uint256.empty

variable {contracts}
variable {s t : LedgerStore C} {env : NodeEnv C} {block : LedgerBlock C} {result : ExecuteResult}
  {fault : Option Fault} {a k : ℕ}

theorem genesis_inv (hfresh : Fresh s) (hzero : block.header.height = 0)
    (hempty : ∀ hash, block.header.hash C.sha256 = .ok hash → hash ≠ Uint256.empty)
    (hrun : runFrom (submitBlock block result fault) s = (.ok (), t)) : IndexInv t.view 0 0 := by
  obtain ⟨blockHash, t', hsaving, rfl⟩ := submitBlock_ok hrun
  cases hsaving with
  | @saved _ stateStore batch hhash hroot htrees =>
    have hdue : ¬ s.BatchDue := by
      unfold LedgerStore.BatchDue
      rw [hfresh.count, hfresh.height]
      decide
    have hlists : (s.blockStored block blockHash stateStore).headerIndexList = OrderedMap.empty := by
      rw [← hfresh.lists]
      simp only [LedgerStore.blockStored, BlockBatch.commitTo, LedgerStore.blockBatch, if_neg hdue]
      rfl
    have hstored : ∀ i : UInt32, i.toNat ≤ block.header.height.toNat →
        BlockStored (s.blockStored block blockHash stateStore).blockStore i := by
      intro i hi
      have hi : i = block.header.height := by
        apply UInt32.toNat_inj.mp
        rw [hzero, UInt32.toNat_zero] at hi ⊢
        omega
      subst hi
      exact ⟨blockHash, block, get_insert_self _ _ _, hempty _ hhash,
        get_insert_self _ _ _, hhash⟩
    refine ⟨?_, Nat.zero_le _, ⟨blockHash, block.header.height, rfl, le_rfl, Nat.le_succ _, hstored⟩,
      ?_, ?_⟩
    · change (if s.BatchDue then _ else s.storedIndexCount).toNat = 0
      rw [if_neg hdue, hfresh.count]
      rfl
    · intro i _
      change (s.headerIndex.insert block.header.height blockHash).get i =
        (s.blockStore.blockHash.insert block.header.height blockHash).get i
      rw [hfresh.index, hfresh.hashes]
    · change ListsInv (s.blockStored block blockHash stateStore).headerIndexList _ 0 0
      rw [hlists]
      refine ⟨le_rfl, List.forall_mem_nil _, fun i => ?_, rfl⟩
      rfl

/-- The invariant over a method, given that its way of saving keeps it. -/
theorem IndexInv.storeNext (h : IndexInv s.view a k) {save r}
    (hsave : ∀ peers r' u, block.header.height = s.currBlockHeight + 1 →
      block.header.height.toNat = s.currBlockHeight.toNat + 1 →
      runFrom save (s.withPeers peers) = (r', u) → (∀ msg, r' ≠ .error (.panic msg)) →
      ∃ k', IndexInv u.view a k') (hrun : runFrom (storeNext env block save) s = (r, t))
    (hpanic : ∀ msg, r ≠ .error (.panic msg)) : ∃ k', IndexInv t.view a k' := by
  cases storeNext_cases hrun with
  | old | gap | refused => exact ⟨k, h⟩
  | panicked => exact absurd rfl (hpanic _)
  | failed hold hnext hverdict hfail hwrap =>
    refine hsave _ _ _ hnext (next_toNat hold hnext) hfail ?_
    intro msg he
    cases he
    cases hwrap
    exact hpanic msg rfl
  | @stored _ u _ hold hnext hverdict hdone hhash =>
    have hkept : ∃ k', IndexInv u.view a k' := by
      refine hsave _ (.ok ()) u hnext (next_toNat hold hnext) hdone ?_
      intro msg he
      cases he
    exact hkept

theorem IndexInv.submitBlock (h : IndexInv s.view a k) {r}
    (hnext : block.header.height.toNat = s.currBlockHeight.toNat + 1)
    (hcareful : Careful s block fault) (hrun : runFrom (submitBlock block result fault) s = (r, t))
    (hpanic : ∀ msg, r ≠ .error (.panic msg)) : ∃ k', IndexInv t.view a k' := by
  cases r with
  | ok u =>
    obtain ⟨blockHash, t', hsaving, rfl⟩ := submitBlock_ok hrun
    exact ⟨_, h.saved hnext hcareful.2 hsaving⟩
  | error e =>
    refine h.saving_error hnext hcareful.2 hcareful.1 ?_ (submitBlock_error hrun)
    rintro msg rfl
    exact hpanic msg rfl

theorem SubmitRun.inv (h : SubmitRun contracts Careful s) : ∃ k, IndexInv s.view 0 k := by
  induction h with
  | genesis hfresh hzero ha hrun => exact ⟨0, genesis_inv hfresh hzero ha.2 hrun⟩
  | submit _ ha hrun hpanic ih =>
    obtain ⟨k, ih⟩ := ih
    refine ih.storeNext ?_ hrun hpanic
    intro peers r' u _ hnext hsub hpanic'
    exact IndexInv.submitBlock (s := LedgerStore.withPeers _ peers) ih hnext ha hsub hpanic'
  | add _ ha hrun hpanic ih =>
    obtain ⟨k, ih⟩ := ih
    refine ih.storeNext ?_ hrun hpanic
    intro peers r' u hheight hnext hadd hpanic'
    rcases saveBlock_cases (s := LedgerStore.withPeers _ peers) hheight hadd with
      ⟨-, -, rfl⟩ | ⟨-, rfl, -⟩ | ⟨result, -, -, hsub⟩
    · exact ⟨k, ih⟩
    · exact ⟨k, ih⟩
    · exact IndexInv.submitBlock (s := LedgerStore.withPeers _ peers) ih hnext ha hsub hpanic'

/-- What a restart finds: the hashes of all stored blocks but those of missing lists that the number
of the others hides. -/
theorem IndexInv.restart (h : IndexInv s.view a k) {blockHash height}
    (hcurrent : s.blockStore.currentBlock = some (blockHash, height))
    (hmax : height.toNat + 1 < 2 ^ 32) :
    ∃ headerIndex, s.restart = .ok (height, headerIndex) ∧
      ∀ i : UInt32, i.toNat ≤ height.toNat → headerIndex.get i =
        if 2000 * (k - a) ≤ i.toNat ∨ 2000 * a ≤ i.toNat ∧ i.toNat < 2000 * k then
          s.blockStore.blockHash.get i
        else none := by
  obtain ⟨_, height', hcurrent', hlo, hhi, hstored⟩ := h.current
  have hsame : s.blockStore.currentBlock = some (_, height') := hcurrent'
  cases hcurrent.symm.trans hsame
  have hbehind := h.behind
  have hsize : (getHeaderIndexList s.headerIndexList).size = 2000 * (k - a) := h.lists.size
  have hstart : (UInt32.ofNat (getHeaderIndexList s.headerIndexList).size).toNat = 2000 * (k - a) := by
    rw [toNat_ofNat']
    omega
  generalize hcount : UInt32.ofNat (getHeaderIndexList s.headerIndexList).size = start at hstart
  have hbound : start.toNat + (height.toNat + 1 - start.toNat) < 2 ^ 32 := by omega
  obtain ⟨headerIndex, hload, hget⟩ := loadBlockHashes_ok (getHeaderIndexList s.headerIndexList)
    hbound fun i _ hi => hstored i (by omega)
  refine ⟨headerIndex, ?_, ?_⟩
  · refine bind_ok.mpr ⟨(blockHash, height), ?_, bind_ok.mpr
      ⟨(headerIndex, start), ?_, rfl⟩⟩
    · rw [wrapError_ok, orFail_ok]
      exact hcurrent
    · rw [wrapError_ok, loadHeaderIndexList, hcount]
      exact bind_ok.mpr ⟨headerIndex, hload, rfl⟩
  · intro i hi
    rw [hget i]
    by_cases hloop : 2000 * (k - a) ≤ i.toNat
    · rw [if_pos (by omega), if_pos (.inl hloop)]
      rfl
    · rw [if_neg (by omega), show (getHeaderIndexList s.headerIndexList).get i = _ from h.lists.decoded i]
      by_cases hin : 2000 * a ≤ i.toNat ∧ i.toNat < 2000 * k
      · rw [if_pos hin, if_pos (.inr hin)]
        rfl
      · rw [if_neg hin, if_neg (by omega)]

/-- After any careful run a restart finds the hash of the stored block at every height. -/
theorem headerIndex_survives_restart (h : SubmitRun contracts Careful s) {blockHash : Uint256}
    {height : UInt32} (hcurrent : s.blockStore.currentBlock = some (blockHash, height))
    (hmax : height.toNat + 1 < 2 ^ 32) :
    ∃ headerIndex, s.restart = .ok (height, headerIndex) ∧
      ∀ i : UInt32, i.toNat ≤ height.toNat → ∃ hash block, headerIndex.get i = some hash ∧
        s.blockStore.blockHash.get i = some hash ∧ s.blockStore.blocks.get hash = some block ∧
        block.header.hash C.sha256 = .ok hash := by
  obtain ⟨k, hinv⟩ := h.inv
  obtain ⟨headerIndex, hrestart, hget⟩ := hinv.restart hcurrent hmax
  refine ⟨headerIndex, hrestart, ?_⟩
  intro i hi
  obtain ⟨_, height', hcurrent', -, -, hstored⟩ := hinv.current
  cases hcurrent.symm.trans hcurrent'
  obtain ⟨hash, block, hhash, -, hblock, hid⟩ := hstored i hi
  have hhash : s.blockStore.blockHash.get i = some hash := hhash
  refine ⟨hash, block, ?_, hhash, hblock, hid⟩
  rw [hget i hi, if_pos (by omega), hhash]

end Runs

/-- A ledger of one peer in good order: its last block is stored and its trees are whole. -/
structure Good (s : LedgerStore openCrypto) : Prop where
  peers : s.vbftPeerInfoblock = samplePeers
  cache : s.headerCache = OrderedMap.empty
  log : s.enableEventLog = true
  last : ∃ block, s.blockStore.blocks.get s.currBlockHash = some block ∧
    block.header.height = s.currBlockHeight ∧ block.header.timestamp = s.currBlockHeight
  tree : ∃ leaves, leaves.length = s.currBlockHeight.toNat + 1 ∧
    s.stateStore.merkleTree = .ofLeaves openCrypto.sha256 leaves
  delta : ∃ leaves, leaves.length = s.currBlockHeight.toNat + 1 ∧
    s.stateStore.deltaMerkleTree = .ofLeaves openCrypto.sha256 leaves

variable {s t : LedgerStore openCrypto} {result : ExecuteResult} {fault : Option Fault} {a k : ℕ}

theorem hash_take {header : UnsignedHeader} {hash} (h : header.hash openCrypto.sha256 = .ok hash) :
    hash.val.take 12 = Sink.writeUint32 header.version ++ Sink.writeUint64 header.chainID := by
  have hfirst : (Sink.writeUint32 header.version ++ Sink.writeUint64 header.chainID).length = 12 := by
    simp [Sink.writeUint32, Sink.writeUint64]
  obtain ⟨rest, hrest⟩ : ∃ rest, header.bytes =
      Sink.writeUint32 header.version ++ Sink.writeUint64 header.chainID ++ rest := by
    simp only [UnsignedHeader.bytes, append_assoc]
    exact ⟨_, rfl⟩
  have hlong : 12 ≤ header.bytes.length := by
    rw [hrest, length_append]
    omega
  obtain rfl : openCrypto.sha256 (openCrypto.sha256 header.bytes).val = hash := by
    obtain ⟨data, hdata, h⟩ := bind_ok.mp h
    obtain ⟨-, -, hdata⟩ := bind_ok.mp hdata
    cases hdata
    exact Except.ok.inj h
  change (leBytes 32 (leNat (leBytes 32 (leNat header.bytes)))).take 12 = _
  rw [take_leBytes_leNat (by omega) (by rw [leBytes_length]; omega),
    take_leBytes_leNat (by omega) hlong, hrest, take_left' hfirst]

theorem emptyBlock_hash (height : UInt32) (prevBlockHash blockRoot : Uint256) :
    ∃ hash, (emptyBlock height prevBlockHash blockRoot).header.hash openCrypto.sha256 = .ok hash ∧
      hash ≠ Uint256.empty := by
  obtain ⟨hash, hhash⟩ : ∃ hash,
      (emptyBlock height prevBlockHash blockRoot).header.hash openCrypto.sha256 = .ok hash := ⟨_, rfl⟩
  refine ⟨hash, hhash, ?_⟩
  rintro rfl
  have hzeros : Uint256.empty.val.take 12 ≠ Sink.writeUint32 0 ++ Sink.writeUint64 1 := by decide
  exact hzeros (hash_take hhash)

theorem emptyBlock_hash_ne (height : UInt32) (prevBlockHash blockRoot : Uint256) (hash : Uint256)
    (h : (emptyBlock height prevBlockHash blockRoot).header.hash openCrypto.sha256 = .ok hash) :
    hash ≠ Uint256.empty := by
  obtain ⟨hash', hhash', hne⟩ := emptyBlock_hash height prevBlockHash blockRoot
  cases ok_unique hhash' h
  exact hne

theorem Good.height_toNat (hlt : s.currBlockHeight.toNat + 2 < 2 ^ 32) :
    (nextBlock s).header.height.toNat = s.currBlockHeight.toNat + 1 :=
  toNat_succ s.currBlockHeight (by omega)

theorem Good.height_ne_zero (hlt : s.currBlockHeight.toNat + 2 < 2 ^ 32) :
    (nextBlock s).header.height ≠ 0 := by
  intro h
  have hsucc := Good.height_toNat hlt
  rw [h] at hsucc
  cases hsucc

theorem Good.verdict (hg : Good s) (hlt : s.currBlockHeight.toNat + 2 < 2 ^ 32) :
    s.headerVerdict sampleNode (nextBlock s).header = .ok samplePeers := by
  obtain ⟨block, hblock, hheight, htime⟩ := hg.last
  have hfound : s.getHeaderByHash sampleNode s.currBlockHash = some block.header := by
    rw [LedgerStore.getHeaderByHash, hg.cache, hblock]
    rfl
  have hsucc := Good.height_toNat hlt
  have hnext : ¬ block.header.height + 1 ≠ (nextBlock s).header.height := by
    rw [hheight]
    exact not_not.mpr rfl
  have hlater : ¬ block.header.timestamp ≥ (nextBlock s).header.timestamp := by
    rw [htime, ge_iff_le, le_iff_toNat_le]
    change ¬ (nextBlock s).header.height.toNat ≤ _
    omega
  unfold LedgerStore.headerVerdict verifyHeader
  rw [if_neg (Good.height_ne_zero hlt), hg.peers]
  refine bind_ok.mpr ⟨some block.header, by rw [wrapError_ok]; exact congrArg _ hfound, ?_⟩
  refine bind_ok.mpr ⟨block.header, rfl, ?_⟩
  refine bind_ok.mpr ⟨(), failIf_of_not hnext, ?_⟩
  refine bind_ok.mpr ⟨(), failIf_of_not hlater, ?_⟩
  obtain ⟨hash, hhash, -⟩ := emptyBlock_hash (s.currBlockHeight + 1) s.currBlockHash
    ((s.getBlockRootWithPreBlockHashes (s.currBlockHeight + 1) [s.currBlockHash]).toOption.getD
      Uint256.empty)
  have hnet : NETWORK_ID_MAIN_NET ≠ sampleNode.networkId := by decide
  have hvbft : sampleNode.consensusType.toLower = "vbft" := by decide +kernel
  have hmany : ¬ (([[1]] : List Bytes).length : ℤ) < quorum false samplePeers.size := by decide
  have hkeys : checkBookkeepers (K := openKeys) samplePeers [[1]] [] = .ok () := by decide +kernel
  have hstrict : decide (strictRule (s.headerEnv sampleNode)) = false :=
    decide_eq_false fun h => h (.inl hnet)
  rw [if_pos (show (s.headerEnv sampleNode).consensusType.toLower = "vbft" from hvbft), hstrict]
  refine bind_ok.mpr ⟨(), failIf_of_not hmany, ?_⟩
  refine bind_ok.mpr ⟨(), hkeys, ?_⟩
  refine bind_ok.mpr ⟨hash, hhash, ?_⟩
  refine bind_ok.mpr ⟨(), rfl, rfl⟩

/-- A whole tree takes another leaf, and the new tree has a root. -/
theorem ofLeaves_next {leaves} (h : leaves.length + 1 < 2 ^ 32) (leafv : Bytes) :
    CompactMerkleTree.append openCrypto.sha256 (.ofLeaves openCrypto.sha256 leaves) leafv =
        .ok (.ofLeaves openCrypto.sha256 (leaves ++ [leafv])) ∧
      ∃ root, CompactMerkleTree.root openCrypto.sha256
        (.ofLeaves openCrypto.sha256 (leaves ++ [leafv])) = .ok root := by
  have hlen : (leaves ++ [leafv]).length < 2 ^ 32 := by
    rw [length_append, length_singleton]
    exact h
  exact ⟨append_ofLeaves _ (by omega) leafv, _,
    (root_ofLeaves _ hlen).trans (fullRoot_eq _ hlen)⟩

theorem Good.rootAgrees (hg : Good s) (hlt : s.currBlockHeight.toNat + 2 < 2 ^ 32) :
    RootAgrees s (nextBlock s) := by
  obtain ⟨leaves, hlen, htree⟩ := hg.tree
  have hsucc := toNat_succ s.currBlockHeight (by omega)
  obtain ⟨happend, blockRoot, hroot⟩ := ofLeaves_next (by omega : leaves.length + 1 < 2 ^ 32)
    s.currBlockHash.val
  have hnot : ¬ s.currBlockHeight > s.currBlockHeight + 1 + UInt32.ofNat 1 - 1 := by
    rw [show UInt32.ofNat 1 = 1 from rfl, UInt32.add_sub_cancel, gt_iff_lt, UInt32.lt_iff_toNat_lt]
    omega
  have hblockRoot : s.getBlockRootWithPreBlockHashes (s.currBlockHeight + 1) [s.currBlockHash] =
      .ok blockRoot := by
    unfold LedgerStore.getBlockRootWithPreBlockHashes
    rw [length_singleton, if_neg hnot, UInt32.sub_self]
    refine bind_ok.mpr ⟨(), failIf_of_not (by decide), ?_⟩
    rw [StateStore.getBlockRootWithPreBlockHashes, htree]
    exact bind_ok.mpr ⟨_, bind_ok.mpr ⟨_, happend, rfl⟩, hroot⟩
  refine .inr ?_
  change s.getBlockRootWithPreBlockHashes (s.currBlockHeight + 1) [s.currBlockHash] =
    .ok ((s.getBlockRootWithPreBlockHashes (s.currBlockHeight + 1) [s.currBlockHash]).toOption.getD
      Uint256.empty)
  rw [hblockRoot]
  rfl

theorem nextBlock_hash (s : LedgerStore openCrypto) :
    ∃ hash, (nextBlock s).header.hash openCrypto.sha256 = .ok hash ∧ hash ≠ Uint256.empty :=
  emptyBlock_hash _ _ _

section

variable (hg : Good s)
include hg

section

variable (hlt : s.currBlockHeight.toNat + 2 < 2 ^ 32)
include hlt

theorem Good.trees (result : ExecuteResult) : ∃ stateStore batch,
    saveBlockToStateStore openCrypto s.stateStore (nextBlock s) result = .ok (stateStore, batch) ∧
    (∃ leaves, leaves.length = s.currBlockHeight.toNat + 2 ∧
      stateStore.merkleTree = .ofLeaves openCrypto.sha256 leaves) ∧
    ∃ leaves, leaves.length = s.currBlockHeight.toNat + 2 ∧
      stateStore.deltaMerkleTree = .ofLeaves openCrypto.sha256 leaves := by
  obtain ⟨leaves, hlen, htree⟩ := hg.tree
  obtain ⟨dleaves, hdlen, hdelta⟩ := hg.delta
  obtain ⟨hash, hhash, -⟩ := nextBlock_hash s
  obtain ⟨happend, -⟩ := ofLeaves_next (by omega : leaves.length + 1 < 2 ^ 32)
    (nextBlock s).header.prevBlockHash.val
  obtain ⟨hdappend, root, hroot⟩ := ofLeaves_next (by omega : dleaves.length + 1 < 2 ^ 32)
    result.hash.val
  have hpos : (nextBlock s).header.height ≠ StateStore.stateHashCheckHeight :=
    Good.height_ne_zero hlt
  have hlow : ¬ (nextBlock s).header.height < StateStore.stateHashCheckHeight := by
    simp [StateStore.stateHashCheckHeight, lt_iff_toNat_lt]
  obtain ⟨stateOps, hstate⟩ : ∃ ops, s.stateStore.addStateMerkleTreeRoot openCrypto.sha256
      (nextBlock s).header.height result.hash = .ok ({ s.stateStore with
        deltaMerkleTree := .ofLeaves openCrypto.sha256 (dleaves ++ [result.hash.val]) }, ops) := by
    rw [StateStore.addStateMerkleTreeRoot, if_neg hlow, if_neg hpos, hdelta]
    exact ⟨_, bind_ok.mpr ⟨_, hdappend, bind_ok.mpr ⟨root, hroot, rfl⟩⟩⟩
  obtain ⟨blockOps, hblock⟩ : ∃ ops, StateStore.addBlockMerkleTreeRoot openCrypto.sha256
      { s.stateStore with
        deltaMerkleTree := .ofLeaves openCrypto.sha256 (dleaves ++ [result.hash.val]) }
      (nextBlock s).header.prevBlockHash =
        .ok (⟨s.stateStore.store,
          .ofLeaves openCrypto.sha256 (leaves ++ [(nextBlock s).header.prevBlockHash.val]),
          .ofLeaves openCrypto.sha256 (dleaves ++ [result.hash.val])⟩, ops) := by
    refine ⟨_, bind_ok.mpr ⟨_, ?_, rfl⟩⟩
    rw [htree]
    exact happend
  refine ⟨_, _, bind_ok.mpr ⟨hash, hhash, bind_ok.mpr ⟨_, hstate, bind_ok.mpr
    ⟨_, hblock, rfl⟩⟩⟩, ⟨_, ?_, rfl⟩, ⟨_, ?_, rfl⟩⟩
  · rw [length_append, length_singleton, hlen]
  · rw [length_append, length_singleton, hdlen]

/-- On a ledger in good order the next block fails only where a store does. -/
theorem Good.saving_error {peers e}
    (hsaving : Saving (s.withPeers peers) (nextBlock s) result fault (.error e) t) :
    (NotifyFails s result.notify fault ∧ (∃ msg, e = .error msg) ∧
        ∃ hash, t = (s.withPeers peers).indexed (nextBlock s) hash) ∨
      ∃ point ≠ .saveNotify, FailsAt fault point := by
  have hroot : RootAgrees (s.withPeers peers) (nextBlock s) := hg.rootAgrees hlt
  obtain ⟨hash, hhash, -⟩ := nextBlock_hash s
  obtain ⟨stateStore, batch, htrees, -, -⟩ := hg.trees hlt result
  cases hsaving with
  | headerPanic hcheck =>
    cases hcheck.symm.trans (bind_ok.mpr ⟨hash, hhash, bind_ok.mpr
      ⟨_, hroot.resolve_left (Good.height_ne_zero hlt), bind_ok.mpr
        ⟨(), failIf_ok.mpr fun h => h.2 rfl, rfl⟩⟩⟩)
  | refused hwrong => exact absurd hroot hwrong
  | notify _ _ hfault => exact .inl ⟨hfault, ⟨_, rfl⟩, _, rfl⟩
  | treePanic _ _ hpanic =>
    rw [show saveBlockToStateStore openCrypto (s.withPeers peers).stateStore (nextBlock s) result = _
      from htrees] at hpanic
    cases hpanic
  | commit point _ _ _ hfault hpoint => exact .inr ⟨point, hpoint, hfault⟩

/-- What is stored of the next block leaves the ledger in good order. -/
theorem Good.saved {blockHash}
    (hsaving : Saving (s.withPeers samplePeers) (nextBlock s) result fault (.ok blockHash) t)
    (hash : Uint256) :
    Good ((t.setCurrentBlock (nextBlock s).header.height blockHash).delHeaderCache hash) := by
  have hsucc := Good.height_toNat hlt
  obtain ⟨stateStore, batch, htrees, ⟨leaves, hlen, htree⟩, dleaves, hdlen, hdelta⟩ :=
    hg.trees hlt result
  cases hsaving with
  | saved hhash hroot htrees' =>
    cases ok_unique htrees htrees'
    refine ⟨rfl, ?_, hg.log, ⟨nextBlock s, get_insert_self _ _ _, rfl, rfl⟩,
      ⟨leaves, ?_, htree⟩, ⟨dleaves, ?_, hdelta⟩⟩
    · change s.headerCache.erase hash = OrderedMap.empty
      rw [hg.cache]
      rfl
    · change leaves.length = (nextBlock s).header.height.toNat + 1
      omega
    · change dleaves.length = (nextBlock s).header.height.toNat + 1
      omega

theorem Good.storeNext {save r}
    (hrun : runFrom (storeNext sampleNode (nextBlock s) save) s = (r, t)) :
    (∃ e, runFrom save (s.withPeers samplePeers) = (.error e, t) ∧
        wrapError "saveBlock error " (.error e) = r) ∨
      ∃ u hash, runFrom save (s.withPeers samplePeers) = (.ok (), u) ∧ r = .ok () ∧
        t = u.delHeaderCache hash := by
  have hsucc := Good.height_toNat hlt
  cases storeNext_cases hrun with
  | old h =>
    have hle := le_iff_toNat_le.mp h
    omega
  | gap hnext => exact absurd rfl hnext
  | refused hnext hverdict =>
    rw [hg.verdict hlt] at hverdict
    cases hverdict
  | panicked hpanic =>
    cases hpanic
  | failed hold hnext hverdict hsave hwrap =>
    cases ok_unique (hg.verdict hlt) hverdict
    exact .inl ⟨_, hsave, hwrap⟩
  | stored hold hnext hverdict hsave hhash' =>
    cases ok_unique (hg.verdict hlt) hverdict
    exact .inr ⟨_, _, hsave, rfl, rfl⟩

end

/-- A ledger in good order stores the next block, and with it a list that is due. -/
theorem Good.submit (hinv : IndexInv s.view a k) (hlt : s.currBlockHeight.toNat + 2 < 2 ^ 32) :
    ∃ t, runFrom (SubmitBlock sampleNode (nextBlock s) (idleResult []) none) s = (.ok (), t) ∧
      Good t ∧ IndexInv t.view a (if s.BatchDue then k + 1 else k) ∧
      t.currBlockHeight.toNat = s.currBlockHeight.toNat + 1 := by
  cases hrun : runFrom (SubmitBlock sampleNode (nextBlock s) (idleResult []) none) s with
  | mk r t =>
    rcases hg.storeNext hlt hrun with ⟨e, hsave, -⟩ | ⟨u, hash, hsave, rfl, rfl⟩
    · rcases hg.saving_error hlt (submitBlock_error hsave) with ⟨⟨-, f, hf, -⟩, -⟩ | ⟨_, -, f, hf, -⟩
      · cases hf
      · cases hf
    · obtain ⟨blockHash, t', hsaving, rfl⟩ := submitBlock_ok hsave
      have hnew := IndexInv.saved (s := s.withPeers samplePeers) hinv (Good.height_toNat hlt)
        (emptyBlock_hash_ne _ _ _) hsaving
      exact ⟨_, rfl, hg.saved hlt hsaving hash, hnew, Good.height_toNat hlt⟩

/-- If its events cannot be saved, the next block is left in the header index. -/
theorem Good.submit_notify (hlt : s.currBlockHeight.toNat + 2 < 2 ^ 32)
    (notify : ExecuteNotify) (msg : String) :
    ∃ e hash, runFrom (SubmitBlock sampleNode (nextBlock s) (idleResult [notify])
      (some ⟨.saveNotify, msg⟩)) s =
        (.error (.error e), (s.withPeers samplePeers).indexed (nextBlock s) hash) := by
  have hnotify : NotifyFails s [notify] (some ⟨.saveNotify, msg⟩) :=
    ⟨⟨hg.log, cons_ne_nil _ _⟩, _, rfl, rfl⟩
  cases hrun : runFrom (SubmitBlock sampleNode (nextBlock s) (idleResult [notify])
      (some ⟨.saveNotify, msg⟩)) s with
  | mk r t =>
    rcases hg.storeNext hlt hrun with ⟨e, hsave, hwrap⟩ | ⟨u, hash, hsave, -, -⟩
    · rcases hg.saving_error hlt (submitBlock_error hsave) with
        ⟨-, ⟨msg', rfl⟩, hash, rfl⟩ | ⟨point, hpoint, f, hf, rfl⟩
      · subst hwrap
        exact ⟨_, hash, rfl⟩
      · cases hf
        exact absurd rfl hpoint
    · obtain ⟨blockHash, t', hsaving, -⟩ := submitBlock_ok hsave
      cases hsaving with
      | saved _ _ _ hpassed => exact absurd hnotify hpassed

/-- Blocks that are submitted without a fault move the ledger on; no list is due before its time. -/
theorem Good.run (hs : SubmitRun (fun _ => none) (fun _ _ _ => True) s)
    (hinv : IndexInv s.view a k) (n : ℕ) (hlt : s.currBlockHeight.toNat + n + 2 < 2 ^ 32)
    (hlists : s.currBlockHeight.toNat + n ≤ 2000 * (k + 1)) :
    ∃ t, SubmitRun (fun _ => none) (fun _ _ _ => True) t ∧ Good t ∧ IndexInv t.view a k ∧
      t.currBlockHeight.toNat = s.currBlockHeight.toNat + n := by
  induction n with
  | zero => exact ⟨s, hs, hg, hinv, rfl⟩
  | succ n ih =>
    obtain ⟨t, ht, hgt, hinvt, hheight⟩ := ih (by omega) (by omega)
    obtain ⟨u, hrun, hgu, hinvu, hnext⟩ := hgt.submit hinvt (by omega)
    have hdue : ¬ t.BatchDue := by
      intro hdue
      have hfull := hinvt.batchDue_iff.mp hdue
      omega
    rw [if_neg hdue] at hinvu
    refine ⟨u, ht.submit trivial hrun ?_, hgu, hinvu, by omega⟩
    intro msg h
    cases h

end

/-- A list whose block is not stored counts as stored all the same. -/
theorem IndexInv.lost {block} (h : IndexInv s.view k k)
    (hnext : block.header.height.toNat = s.currBlockHeight.toNat + 1) (hdue : s.BatchDue)
    (blockHash : Uint256) : IndexInv (s.indexed block blockHash).view (k + 1) (k + 1) := by
  have hcount : s.storedIndexCount.toNat = 2000 * k := h.count
  have hfull := h.batchDue_iff.mp hdue
  have hlt : block.header.height.toNat < 2 ^ 32 := block.header.height.toNat_lt
  have hsize : HEADER_INDEX_BATCH_SIZE.toNat = 2000 := by decide
  refine ⟨?_, hfull, h.current, ?_, le_rfl, ?_, ?_, ?_⟩
  · change (if s.BatchDue then s.storedIndexCount + HEADER_INDEX_BATCH_SIZE else _).toNat = _
    rw [if_pos hdue, UInt32.toNat_add]
    omega
  · intro i hi
    change i.toNat ≤ s.currBlockHeight.toNat at hi
    have hne : i ≠ block.header.height := by
      rintro rfl
      omega
    exact (get_insert_of_ne _ _ hne).trans (h.index i hi)
  · intro x hx
    have hold := h.lists.starts x hx
    omega
  · intro i
    have hnone := h.lists.decoded i
    rw [if_neg (by omega)] at hnone
    rw [if_neg (by omega)]
    exact hnone
  · have hnone := h.lists.size
    rw [Nat.sub_self] at hnone ⊢
    exact hnone

theorem genesisLedger_run : runFrom (submitBlock (emptyBlock 0 Uint256.empty Uint256.empty)
    (idleResult []) none) emptyLedger = (.ok (), genesisLedger) :=
  Prod.ext (by decide +kernel) rfl

theorem emptyLedger_fresh : Fresh emptyLedger := ⟨rfl, rfl, rfl, rfl, rfl⟩

theorem ofLeaves_of_append {tree leafv}
    (h : CompactMerkleTree.append openCrypto.sha256 .empty leafv = .ok tree) :
    tree = .ofLeaves openCrypto.sha256 [leafv] := by
  rw [← ofLeaves_nil openCrypto.sha256,
    append_ofLeaves _ (by decide)] at h
  exact (Except.ok.inj h).symm

theorem genesisLedger_good : Good genesisLedger := by
  have hheight : genesisLedger.currBlockHeight.toNat = 0 := by decide +kernel
  have htree : CompactMerkleTree.append openCrypto.sha256 .empty Uint256.empty.val =
      .ok genesisLedger.stateStore.merkleTree := by decide +kernel
  have hdelta : CompactMerkleTree.append openCrypto.sha256 .empty Uint256.empty.val =
      .ok genesisLedger.stateStore.deltaMerkleTree := by decide +kernel
  obtain ⟨blockHash, t, hsaving, heq⟩ := submitBlock_ok genesisLedger_run
  cases hsaving with
  | saved =>
    refine ⟨?_, ?_, ?_, ?_, ⟨[Uint256.empty.val], ?_, ofLeaves_of_append htree⟩,
      ⟨[Uint256.empty.val], ?_, ofLeaves_of_append hdelta⟩⟩
    · rw [heq]
      rfl
    · rw [heq]
      rfl
    · rw [heq]
      rfl
    · rw [heq]
      exact ⟨_, get_insert_self _ _ _, rfl, rfl⟩
    · rw [hheight]
      rfl
    · rw [hheight]
      rfl

/-- Block 2001 fails at first and is then stored like all others; the list of the first 2000 hashes is
never stored, the next one is. A restart finds as many hashes as are missing. -/
theorem restart_loses_first_list : ∃ s : LedgerStore openCrypto,
    SubmitRun (fun _ => none) (fun _ _ _ => True) s ∧ ∃ height headerIndex,
      s.restart = .ok (height, headerIndex) ∧ 4001 ≤ height.toNat ∧
      ∀ i : UInt32, i.toNat < 2000 →
        headerIndex.get i = none ∧ ∃ hash, s.blockStore.blockHash.get i = some hash := by
  have hstart : SubmitRun (fun _ => none) (fun _ _ _ => True) genesisLedger :=
    .genesis emptyLedger_fresh rfl trivial genesisLedger_run
  have hinv : IndexInv genesisLedger.view 0 0 :=
    genesis_inv emptyLedger_fresh rfl (emptyBlock_hash_ne _ _ _) genesisLedger_run
  have hzero : genesisLedger.currBlockHeight.toNat = 0 := by decide +kernel
  obtain ⟨s₁, hs₁, hg₁, hinv₁, hheight₁⟩ := genesisLedger_good.run hstart hinv 2000 (by omega) (by omega)
  have hdue₁ : s₁.BatchDue := hinv₁.batchDue_iff.mpr (by omega)
  obtain ⟨e, hash, hfail⟩ := hg₁.submit_notify (by omega) ⟨Uint256.empty, 0, []⟩ "unsupported value"
  have hs₂ := hs₁.submit trivial hfail (by rintro msg ⟨⟩)
  have hinv₂ := IndexInv.lost (s := s₁.withPeers samplePeers) hinv₁
    (Good.height_toNat (s := s₁) (by omega)) hdue₁ hash
  have hg₂ : Good ((s₁.withPeers samplePeers).indexed (nextBlock s₁) hash) :=
    ⟨rfl, hg₁.cache, hg₁.log, hg₁.last, hg₁.tree, hg₁.delta⟩
  have hheight₂ : ((s₁.withPeers samplePeers).indexed (nextBlock s₁) hash).currBlockHeight.toNat =
      2000 := by
    change s₁.currBlockHeight.toNat = 2000
    omega
  obtain ⟨s₃, hs₃, hg₃, hinv₃, hheight₃⟩ := hg₂.run hs₂ hinv₂ 2000 (by omega) (by omega)
  have hdue₃ : s₃.BatchDue := hinv₃.batchDue_iff.mpr (by omega)
  obtain ⟨s₄, hrun₄, -, hinv₄, hheight₄⟩ := hg₃.submit hinv₃ (by omega)
  rw [if_pos hdue₃] at hinv₄
  have hs₄ := hs₃.submit trivial hrun₄ (by rintro msg ⟨⟩)
  obtain ⟨_, height, hcurrent, hlo, hhi, hstored⟩ := hinv₄.current
  have hlo : s₄.currBlockHeight.toNat ≤ height.toNat := hlo
  have hhi : height.toNat ≤ s₄.currBlockHeight.toNat + 1 := hhi
  obtain ⟨headerIndex, hrestart, hget⟩ := hinv₄.restart hcurrent (by omega)
  refine ⟨s₄, hs₄, height, headerIndex, hrestart, by omega, ?_⟩
  intro i hi
  obtain ⟨hash, -, hhash, -⟩ := hstored i (by omega)
  refine ⟨?_, hash, hhash⟩
  rw [hget i (by omega), if_neg (by omega)]

/-- The genesis block alone is found again. -/
theorem headerIndex_survives_restart_genesis :
    ∃ headerIndex, genesisLedger.restart = .ok (0, headerIndex) ∧
      ∃ hash, headerIndex.get 0 = some hash := by
  have hcurrent : genesisLedger.blockStore.currentBlock =
      some (genesisLedger.currBlockHash, 0) := by decide +kernel
  have hdue : ¬ emptyLedger.BatchDue := by decide
  have hrun : SubmitRun (fun _ => none) Careful genesisLedger :=
    .genesis emptyLedger_fresh rfl ⟨fun h => absurd h hdue, emptyBlock_hash_ne _ _ _⟩
      genesisLedger_run
  obtain ⟨headerIndex, hrestart, hget⟩ := headerIndex_survives_restart hrun hcurrent (by decide)
  obtain ⟨hash, _, hhash, -⟩ := hget 0 le_rfl
  exact ⟨headerIndex, hrestart, hash, hhash⟩

end Poly.Ledger
