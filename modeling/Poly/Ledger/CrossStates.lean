import Poly.Ledger.Recover
import Poly.Merkle.Proof

/-! The cross-chain leaf hashes of a block: how they and the contract storage are saved with the
block, and the audit paths made from them. -/
namespace Poly.Ledger

open Lib Native Merkle List

/-- `GetCrossStatesProof`. -/
def StateStore.getCrossStatesProof (sha256 : Bytes → Uint256) (st : StateStore) (height : UInt32)
    (key : Bytes) : Result Bytes := do
  let hashes ← wrapError "GetCrossStates:" (st.getCrossStates height)
  let state ← wrapError "GetStorageState key:" (st.getStorageValue key)
  merkleLeafPath sha256 state hashes

section Batch

theorem commitBatch_writeSet (store : KVStore) (writeSet : MemDB) :
    commitBatch store (writeSet.entries.map writeSetOp) = applyWriteSet store writeSet := by
  have hop (s : KVStore) (x : Bytes × Bytes) : (writeSetOp x).apply s = applyWrite s x := by
    unfold writeSetOp applyWrite
    simp only [length_eq_zero_iff]
    split <;> rfl
  rw [commitBatch, foldl_map, applyWriteSet]
  simp only [hop]

variable {op : BatchOp}

theorem key_ne_of_head {key} (h : op.key.head? ≠ key.head?) : key ≠ op.key := by
  rintro rfl
  exact h rfl

theorem batchHead_head_ne {st height stateRoot blockHash}
    (h : op ∈ batchHead st height stateRoot blockHash) {tag}
    (htag : some tag ∉ [some SYS_STATE_MERKLE_TREE, some DATA_STATE_MERKLE_ROOT,
      some SYS_BLOCK_MERKLE_TREE, some SYS_CURRENT_BLOCK]) : op.key.head? ≠ some tag :=
  fun he => htag (he ▸ mem_map_of_mem (f := fun op : BatchOp => op.key.head?) h)

theorem writeSet_head {writeSet : MemDB} (hw : writeSet.Storage)
    (h : op ∈ writeSet.entries.map writeSetOp) : op.key.head? = some ST_STORAGE := by
  obtain ⟨x, hx, rfl⟩ := mem_map.mp h
  rw [writeSetOp_key]
  exact hw x hx

variable {st : StateStore} {height : UInt32} {stateRoot : Bytes} {blockHash : Uint256}
  {result : ExecuteResult}

/-- The contract storage after a block answers as the block cache did. -/
theorem get_blockBatch_storage (store : KVStore) (key : Bytes) :
    (commitBatch store (blockBatch st height stateRoot blockHash result)).get
        (ST_STORAGE :: key) =
      (OverlayDB.mk store result.writeSet).get (ST_STORAGE :: key) := by
  have hbefore : (commitBatch store (batchHead st height stateRoot blockHash ++
      StateStore.addCrossStates height result.crossHashes result.crossStatesRoot)).get
        (ST_STORAGE :: key) = store.get (ST_STORAGE :: key) := by
    refine get_commitBatch_of_ne (fun op hop => key_ne_of_head ?_) store
    rcases mem_append.mp hop with hop | hop
    · exact batchHead_head_ne hop (by decide)
    · rcases mem_addCrossStates hop with rfl | rfl
      · exact (by decide : some SYS_CROSS_STATES ≠ some ST_STORAGE)
      · exact (by decide : some SYS_CROSS_STATES_HASH ≠ some ST_STORAGE)
  have hsplit : commitBatch store (blockBatch st height stateRoot blockHash result) =
      applyWriteSet (commitBatch store (batchHead st height stateRoot blockHash ++
        StateStore.addCrossStates height result.crossHashes result.crossStatesRoot))
        result.writeSet := by
    rw [← commitBatch_writeSet, commitBatch, commitBatch, commitBatch, blockBatch,
      foldl_append]
  rw [hsplit, get_applyWriteSet]
  unfold OverlayDB.get
  rw [hbefore]

theorem get_blockBatch_crossStates (hw : result.writeSet.Storage) (hne : result.crossHashes ≠ [])
    (store : KVStore) :
    (commitBatch store (blockBatch st height stateRoot blockHash result)).get
        (StateStore.heightKey SYS_CROSS_STATES height) =
      some (result.crossHashes.flatMap Subtype.val) := by
  have hcross : StateStore.addCrossStates height result.crossHashes result.crossStatesRoot =
      [.put (StateStore.heightKey SYS_CROSS_STATES height) (result.crossHashes.flatMap Subtype.val),
        .put (StateStore.heightKey SYS_CROSS_STATES_HASH height) result.crossStatesRoot.val] :=
    if_neg fun hlen => hne (length_eq_zero_iff.mp hlen)
  refine get_commitBatch_of_unique ?_ (fun op hop hkey => ?_) store
  · refine mem_append_left _ (mem_append_right _ ?_)
    rw [hcross]
    exact mem_cons_self
  · have hhead : op.key.head? = some SYS_CROSS_STATES := congrArg List.head? hkey
    rcases mem_append.mp hop with hop | hop
    · rcases mem_append.mp hop with hop | hop
      · exact absurd hhead (batchHead_head_ne hop (by decide))
      · rcases mem_addCrossStates hop with rfl | rfl
        · rfl
        · exact absurd hhead (by decide : some SYS_CROSS_STATES_HASH ≠ some SYS_CROSS_STATES)
    · rw [writeSet_head hw hop] at hhead
      exact absurd hhead (by decide)

theorem get_blockBatch_crossStates_of_ne (hw : result.writeSet.Storage) {height' : UInt32}
    (hne : height' ≠ height) (store : KVStore) :
    (commitBatch store (blockBatch st height stateRoot blockHash result)).get
        (StateStore.heightKey SYS_CROSS_STATES height') =
      store.get (StateStore.heightKey SYS_CROSS_STATES height') := by
  refine get_commitBatch_of_ne (fun op hop => ?_) store
  rcases mem_append.mp hop with hop | hop
  · rcases mem_append.mp hop with hop | hop
    · exact key_ne_of_head (batchHead_head_ne hop (by decide))
    · rcases mem_addCrossStates hop with rfl | rfl
      · exact fun he => hne (UInt32.toNat_inj.mp
          (leBytes_inj (UInt32.toNat_lt _) (UInt32.toNat_lt _) (List.cons.inj he).2))
      · exact key_ne_of_head (by decide : some SYS_CROSS_STATES_HASH ≠ some SYS_CROSS_STATES)
  · refine key_ne_of_head ?_
    rw [writeSet_head hw hop]
    exact (by decide : some ST_STORAGE ≠ some SYS_CROSS_STATES)

end Batch

variable {C : Crypto} {contracts : Contracts}

/-- What a block leaves in the store: the contract storage as its cache holds it, its own leaf hashes
if it has any, and those of every other height. -/
structure Saved (store store' : KVStore) (height : UInt32) (acc : BlockState) : Prop where
  storage : ∀ key, store'.get (ST_STORAGE :: key) = acc.overlay.get (ST_STORAGE :: key)
  crossStates : acc.crossHashes ≠ [] → store'.get (StateStore.heightKey SYS_CROSS_STATES height) =
    some (acc.crossHashes.flatMap Subtype.val)
  crossStates_of_ne : ∀ height', height' ≠ height →
    store'.get (StateStore.heightKey SYS_CROSS_STATES height') =
      store.get (StateStore.heightKey SYS_CROSS_STATES height')

theorem applyBlock_saved {st st' block} (h : applyBlock C contracts st block = .ok st') :
    ∃ acc result, handleTransactions C contracts st.store block = .ok acc ∧
      executeBlock C contracts st block = .ok result ∧ result.crossHashes = acc.crossHashes ∧
      crossStatesRoot C acc.crossHashes = .ok result.crossStatesRoot ∧
      Saved st.store st'.store block.header.height acc := by
  obtain ⟨result, hr, h⟩ := bind_ok.mp h
  obtain ⟨⟨st₁, batch⟩, hs, h⟩ := bind_ok.mp h
  cases h
  obtain ⟨blockHash, stateRoot, -, hstore, -, rfl⟩ := saveBlockToStateStore_ok hs
  obtain ⟨acc, ha, hset, hhashes, hroot⟩ := executeBlock_ok hr
  have hw := executeBlock_storage hr
  have hoverlay : acc.overlay = ⟨st₁.store, result.writeSet⟩ := by
    rw [hset, hstore, ← (handleTransactions_overlay ha).1]
  refine ⟨acc, result, ha, hr, hhashes, hroot, ?_, ?_, ?_⟩
  · intro key
    rw [hoverlay]
    exact get_blockBatch_storage st₁.store key
  · intro hne
    rw [← hhashes] at hne ⊢
    exact get_blockBatch_crossStates hw hne st₁.store
  · intro height' hne
    rw [← hstore]
    exact get_blockBatch_crossStates_of_ne hw hne st₁.store

theorem getCrossStates_eq {st : StateStore} {height hashes}
    (h : st.store.get (StateStore.heightKey SYS_CROSS_STATES height) =
      some (hashes.flatMap Subtype.val)) : st.getCrossStates height = .ok hashes := by
  have hlen : (hashes.flatMap Subtype.val).length / 32 = hashes.length := by
    rw [length_flatMap_val]
    omega
  have hrun := nextHashes_run (Failure.error "unexpected EOF") hashes []
  rw [append_nil] at hrun
  refine bind_ok.mpr ⟨_, orFail_ok.mpr h, ?_⟩
  rw [hlen]
  exact bind_ok.mpr ⟨_, hrun, rfl⟩

/-- A value stored as contract storage whose leaf is among the stored hashes has a proof against
the root over them. -/
theorem getCrossStatesProof_ok {sha256 : Bytes → Uint256} {st : StateStore}
    {height hashes key value}
    (hhashes : st.store.get (StateStore.heightKey SYS_CROSS_STATES height) =
      some (hashes.flatMap Subtype.val))
    (hvalue : st.store.get (ST_STORAGE :: key) = some (genRawStorageItem value))
    (hmem : hashLeaf sha256 value ∈ hashes)
    (hsize : hashes.length * 33 + value.length + 8 ≤ MAX_SIZE) :
    ∃ path root, st.getCrossStatesProof sha256 height key = .ok path ∧
      hashFullTreeWithLeafHash sha256 hashes = .ok root ∧
      merkleProve sha256 path root.val = .ok value := by
  obtain ⟨path, hpath⟩ := merkleLeafPath_isOk sha256 hsize hmem
  obtain ⟨root, hroot, hprove⟩ := merkleProve_merkleLeafPath sha256 hpath
  have hlt : value.length < 2 ^ 64 := by
    have hmax : MAX_SIZE < 2 ^ 64 := by decide
    omega
  have hstored : st.getStorageValue key = .ok value :=
    bind_ok.mpr ⟨_, orFail_ok.mpr hvalue, getValueFromRawStorageItem_gen hlt⟩
  refine ⟨path, root, ?_, hroot, hprove⟩
  refine bind_ok.mpr ⟨hashes, wrapError_ok.mpr (getCrossStates_eq hhashes), ?_⟩
  exact bind_ok.mpr ⟨value, wrapError_ok.mpr hstored, hpath⟩

end Poly.Ledger
