import Poly.Ledger.StateStore
import Poly.Native.Service

/-! The execution of a block on the state store, and the batch that saves its effects. -/
namespace Poly.Ledger

open Lib Native Merkle List

variable (C : Crypto) (contracts : Contracts)

/-- The libraries and the contracts of a node are the same for every block. -/
abbrev LedgerBlock := Block C.keys

def CONTRACT_STATE_FAIL : UInt8 := 0

def CONTRACT_STATE_SUCCESS : UInt8 := 1

structure ExecuteNotify where
  txHash : Uint256
  state : UInt8
  notify : List NotifyEventInfo
  deriving DecidableEq

structure ExecuteResult where
  writeSet : MemDB
  crossHashes : List Uint256
  crossStatesRoot : Uint256
  hash : Uint256
  merkleRoot : Uint256
  notify : List ExecuteNotify
  deriving DecidableEq

section Execute

variable (header : Header C.keys)

/-- The service a transaction of a block runs on. -/
def invokeService (overlay : OverlayDB) (tx : Transaction C.keys) :
    Result NativeService := do
  let blockHash ← header.hash C.sha256
  wrapError "HandleInvokeTransaction Error: " (newNativeService C.sha256 C.ripemd160
    (CacheDB.new overlay) tx header.timestamp header.height blockHash header.chainID tx.code false)

/-- The block cache, the events and the cross-chain leaf hashes after a successful transaction. -/
def handleInvokeTransaction (overlay : OverlayDB)
    (tx : Transaction C.keys) : Result (OverlayDB × List NotifyEventInfo × List Uint256) := do
  let service ← invokeService C header overlay tx
  let (_, t) ← (invoke contracts).run service
  return ({ t.cacheDB with backend := overlay }.commit, t.notifications, t.crossHashes)

/-- What has been gathered over the transactions of a block so far. -/
structure BlockState where
  overlay : OverlayDB
  notify : List ExecuteNotify
  crossHashes : List Uint256
  deriving DecidableEq

/-- A transaction that fails leaves a notification and nothing else. -/
def handleTransaction (acc : BlockState) (tx : Transaction C.keys) :
    Result BlockState :=
  match handleInvokeTransaction C contracts header acc.overlay tx with
  | .ok (overlay, notify, crossHashes) =>
    .ok ⟨overlay, acc.notify ++ [⟨tx.hash, CONTRACT_STATE_SUCCESS, notify⟩],
      acc.crossHashes ++ crossHashes⟩
  | .error (.error _) =>
    .ok { acc with notify := acc.notify ++ [⟨tx.hash, CONTRACT_STATE_FAIL, []⟩] }
  | .error (.panic msg) => .error (.panic msg)

def handleTransactions (store : KVStore) (block : LedgerBlock C) : Result BlockState :=
  block.transactions.foldlM (handleTransaction C contracts block.header)
    ⟨OverlayDB.new store, [], []⟩

/-- The root over the leaf hashes of a block; a block without any has the empty hash. -/
def crossStatesRoot (crossHashes : List Uint256) : Result Uint256 :=
  if crossHashes.length ≠ 0 then hashFullTreeWithLeafHash C.sha256 crossHashes
  else .ok Uint256.empty

def executeBlock (st : StateStore) (block : LedgerBlock C) : Result ExecuteResult := do
  let acc ← handleTransactions C contracts st.store block
  let crossStatesRoot ← crossStatesRoot C acc.crossHashes
  let hash := acc.overlay.changeHash C.sha256
  let merkleRoot ← st.getStateMerkleRootWithNewHash C.sha256 hash
  return ⟨acc.overlay.getWriteSet, acc.crossHashes, crossStatesRoot, hash, merkleRoot, acc.notify⟩

variable {C contracts}

variable {tx : Transaction C.keys}

theorem handleInvokeTransaction_ok {header overlay overlay' notify crossHashes}
    (h : handleInvokeTransaction C contracts header overlay tx =
      .ok (overlay', notify, crossHashes)) :
    ∃ service r t, invokeService C header overlay tx = .ok service ∧
      (invoke contracts).run service = .ok (r, t) ∧
      overlay' = { t.cacheDB with backend := overlay }.commit ∧ notify = t.notifications ∧
      crossHashes = t.crossHashes := by
  obtain ⟨service, hs, h⟩ := bind_ok.mp h
  obtain ⟨⟨r, t⟩, hr, h⟩ := bind_ok.mp h
  obtain ⟨rfl, rfl, rfl⟩ : _ ∧ _ ∧ _ := by simpa using Except.ok.inj h
  exact ⟨service, r, t, hs, hr, rfl, rfl, rfl⟩

/-- A transaction either succeeds with its effects or only leaves a notification. -/
theorem handleTransaction_ok {header acc acc'}
    (h : handleTransaction C contracts header acc tx = .ok acc') :
    (∃ overlay notify crossHashes,
      handleInvokeTransaction C contracts header acc.overlay tx =
        .ok (overlay, notify, crossHashes) ∧
      acc' = ⟨overlay, acc.notify ++ [⟨tx.hash, CONTRACT_STATE_SUCCESS, notify⟩],
        acc.crossHashes ++ crossHashes⟩) ∨
    (∃ msg, handleInvokeTransaction C contracts header acc.overlay tx = .error (.error msg) ∧
      acc' = { acc with notify := acc.notify ++ [⟨tx.hash, CONTRACT_STATE_FAIL, []⟩] }) := by
  unfold handleTransaction at h
  cases hr : handleInvokeTransaction C contracts header acc.overlay tx with
  | ok x =>
    obtain ⟨overlay, notify, crossHashes⟩ := x
    rw [hr] at h
    exact .inl ⟨overlay, notify, crossHashes, rfl, (Except.ok.inj h).symm⟩
  | error e =>
    rw [hr] at h
    cases e with
    | error msg => exact .inr ⟨msg, rfl, (Except.ok.inj h).symm⟩
    | panic msg => cases h

theorem handleTransactions_overlay {store block acc}
    (h : handleTransactions C contracts store block = .ok acc) :
    acc.overlay.store = store ∧ acc.overlay.memdb.Storage := by
  refine foldlM_invariant (P := fun acc : BlockState =>
    acc.overlay.store = store ∧ acc.overlay.memdb.Storage) ?_ ⟨rfl, .empty⟩ h
  intro acc tx _ acc' hacc hs
  rcases handleTransaction_ok hs with ⟨overlay, notify, crossHashes, hi, rfl⟩ | ⟨msg, -, rfl⟩
  · obtain ⟨service, r, t, -, -, rfl, -, -⟩ := handleInvokeTransaction_ok hi
    exact ⟨(CacheDB.commit_store _).trans hacc.1, CacheDB.storage_commit hacc.2⟩
  · exact hacc

end Execute

def writeSetOp (x : Bytes × Bytes) : BatchOp := if x.2.length = 0 then .delete x.1 else .put x.1 x.2

/-- The state store with its new trees, and the batch for its storage. -/
def saveBlockToStateStore (st : StateStore) (block : LedgerBlock C) (result : ExecuteResult) :
    Result (StateStore × List BatchOp) := do
  let blockHash ← block.header.hash C.sha256
  let (st₁, stateRoot) ← st.addStateMerkleTreeRoot C.sha256 block.header.height result.hash
  let (st₂, blockRoot) ← st₁.addBlockMerkleTreeRoot C.sha256 block.header.prevBlockHash
  return (st₂, stateRoot ++ blockRoot ++
    [StateStore.saveCurrentBlock block.header.height blockHash] ++
    StateStore.addCrossStates block.header.height result.crossHashes result.crossStatesRoot ++
    result.writeSet.entries.map writeSetOp)

/-- `stateStore.CommitTo`. -/
def StateStore.commitTo (st : StateStore) (batch : List BatchOp) : StateStore :=
  { st with store := commitBatch st.store batch }

/-- A block executed on the state store and saved there. -/
def applyBlock (st : StateStore) (block : LedgerBlock C) : Result StateStore := do
  let result ← executeBlock C contracts st block
  let (st', batch) ← saveBlockToStateStore C st block result
  return st'.commitTo batch

variable {C contracts}

variable {st : StateStore} {block : LedgerBlock C} {result : ExecuteResult}

theorem executeBlock_ok (h : executeBlock C contracts st block = .ok result) :
    ∃ acc, handleTransactions C contracts st.store block = .ok acc ∧
      result.writeSet = acc.overlay.memdb ∧ result.crossHashes = acc.crossHashes ∧
      crossStatesRoot C acc.crossHashes = .ok result.crossStatesRoot := by
  obtain ⟨acc, ha, h⟩ := bind_ok.mp h
  obtain ⟨root, hr, h⟩ := bind_ok.mp h
  obtain ⟨merkleRoot, -, h⟩ := bind_ok.mp h
  cases h
  exact ⟨acc, ha, rfl, rfl, hr⟩

/-- The part of a batch that every block has. -/
def batchHead (st : StateStore) (height : UInt32) (stateRoot : Bytes) (blockHash : Uint256) :
    List BatchOp :=
  [.put [SYS_STATE_MERKLE_TREE] st.deltaMerkleTree.bytes,
    .put (StateStore.heightKey DATA_STATE_MERKLE_ROOT height) stateRoot,
    .put [SYS_BLOCK_MERKLE_TREE] st.merkleTree.bytes, StateStore.saveCurrentBlock height blockHash]

/-- The batch of a block: what every block has, its leaf hashes and its write set. -/
def blockBatch (st : StateStore) (height : UInt32) (stateRoot : Bytes) (blockHash : Uint256)
    (result : ExecuteResult) : List BatchOp :=
  batchHead st height stateRoot blockHash ++
    StateStore.addCrossStates height result.crossHashes result.crossStatesRoot ++
    result.writeSet.entries.map writeSetOp

theorem saveBlockToStateStore_ok {st' batch}
    (h : saveBlockToStateStore C st block result = .ok (st', batch)) :
    ∃ blockHash stateRoot,
      block.header.hash C.sha256 = .ok blockHash ∧ st'.store = st.store ∧
      CompactMerkleTree.append C.sha256 st.merkleTree block.header.prevBlockHash.val =
        .ok st'.merkleTree ∧
      batch = blockBatch st' block.header.height stateRoot blockHash result := by
  obtain ⟨blockHash, hb, h⟩ := bind_ok.mp h
  obtain ⟨⟨st₁, ops₁⟩, h₁, h⟩ := bind_ok.mp h
  obtain ⟨⟨st₂, ops₂⟩, h₂, h⟩ := bind_ok.mp h
  cases h
  obtain ⟨delta, -, h₁⟩ := bind_ok.mp h₁
  obtain ⟨root, -, h₁⟩ := bind_ok.mp h₁
  cases h₁
  obtain ⟨tree, ht, h₂⟩ := bind_ok.mp h₂
  cases h₂
  exact ⟨blockHash, _, hb, rfl, ht, rfl⟩

theorem writeSetOp_key (x : Bytes × Bytes) : (writeSetOp x).key = x.1 := by
  unfold writeSetOp
  split <;> rfl

theorem mem_addCrossStates {height crossHashes root op}
    (h : op ∈ StateStore.addCrossStates height crossHashes root) :
    op = .put (StateStore.heightKey SYS_CROSS_STATES height) (crossHashes.flatMap Subtype.val) ∨
      op = .put (StateStore.heightKey SYS_CROSS_STATES_HASH height) root.val := by
  unfold StateStore.addCrossStates at h
  split at h
  · cases h
  · simpa using h

/-- The trees and the current block are written in the first part of a batch. -/
theorem get_blockBatch {height stateRoot blockHash} (hw : result.writeSet.Storage) {tag}
    (htag : tag ≠ ST_STORAGE) {value}
    (hmem : .put [tag] value ∈ batchHead st height stateRoot blockHash) (store : KVStore) :
    (commitBatch store (blockBatch st height stateRoot blockHash result)).get [tag] =
      some value := by
  have htags : ((batchHead st height stateRoot blockHash).map (·.key.head?)).Nodup := by
    have hlist : (batchHead st height stateRoot blockHash).map (·.key.head?) =
        [some SYS_STATE_MERKLE_TREE, some DATA_STATE_MERKLE_ROOT, some SYS_BLOCK_MERKLE_TREE,
          some SYS_CURRENT_BLOCK] := rfl
    rw [hlist]
    decide
  refine get_commitBatch_of_unique (mem_append_left _ (mem_append_left _ hmem)) ?_ store
  intro op hop hkey
  rcases mem_append.mp hop with hop | hop
  · rcases mem_append.mp hop with hop | hop
    · exact inj_on_of_nodup_map htags hop hmem (congrArg head? hkey)
    · have hlen : op.key.length = 5 := by
        rcases mem_addCrossStates hop with rfl | rfl <;>
          simp [BatchOp.key, StateStore.heightKey, leBytes_length]
      rw [hkey] at hlen
      cases hlen
  · obtain ⟨x, hx, rfl⟩ := mem_map.mp hop
    have hx' := hw x hx
    rw [writeSetOp_key] at hkey
    rw [hkey] at hx'
    exact absurd (Option.some.inj hx') htag

theorem executeBlock_storage (h : executeBlock C contracts st block = .ok result) :
    result.writeSet.Storage := by
  obtain ⟨acc, ha, hw, -, -⟩ := executeBlock_ok h
  exact hw ▸ (handleTransactions_overlay ha).2

/-- After a block the store holds its height and hash and both trees as they are in memory. -/
theorem applyBlock_ok {st'} (h : applyBlock C contracts st block = .ok st') :
    ∃ blockHash, block.header.hash C.sha256 = .ok blockHash ∧
      st'.getCurrentBlock = .ok (blockHash, block.header.height) ∧
      st'.store.get [SYS_BLOCK_MERKLE_TREE] = some st'.merkleTree.bytes ∧
      st'.store.get [SYS_STATE_MERKLE_TREE] = some st'.deltaMerkleTree.bytes ∧
      st'.merkleTree.treeSize = st.merkleTree.treeSize + 1 := by
  obtain ⟨result, hr, h⟩ := bind_ok.mp h
  obtain ⟨⟨st₁, batch⟩, hs, h⟩ := bind_ok.mp h
  cases h
  obtain ⟨blockHash, stateRoot, hb, -, happ, rfl⟩ := saveBlockToStateStore_ok hs
  have hw := executeBlock_storage hr
  have hcurrent : (commitBatch st₁.store (blockBatch st₁ block.header.height stateRoot blockHash
      result)).get [SYS_CURRENT_BLOCK] =
      some (blockHash.val ++ Sink.writeUint32 block.header.height) :=
    get_blockBatch hw (by decide) (.tail _ (.tail _ (.tail _ (.head _)))) st₁.store
  refine ⟨blockHash, hb, ?_, ?_, ?_, CompactMerkleTree.append_treeSize C.sha256 happ⟩
  · have hheight := nextUint32_run (Failure.error "EOF") block.header.height []
    refine bind_ok.mpr ⟨_, orFail_ok.mpr hcurrent, ?_⟩
    refine bind_ok.mpr ⟨_, nextFixed_run _ blockHash _, ?_⟩
    exact bind_ok.mpr ⟨_, hheight, rfl⟩
  · exact get_blockBatch hw (by decide) (.tail _ (.tail _ (.head _))) st₁.store
  · exact get_blockBatch hw (by decide) (.head _) st₁.store

end Poly.Ledger
