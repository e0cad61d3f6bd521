import Poly.Merkle.CompactTree
import Poly.Store.CacheDB

/-! The state store: contract storage, the Merkle trees over the blocks and the write sets, and
the cross-chain leaf hashes of each block. -/
namespace Poly.Ledger

open Lib Merkle

variable (sha256 : Bytes → Uint256)

def SYS_CURRENT_BLOCK : UInt8 := 0x10

def SYS_BLOCK_MERKLE_TREE : UInt8 := 0x13

def SYS_STATE_MERKLE_TREE : UInt8 := 0x20

def DATA_STATE_MERKLE_ROOT : UInt8 := 0x21

def SYS_CROSS_STATES : UInt8 := 0x22

def SYS_CROSS_STATES_HASH : UInt8 := 0x23

/-- One write of a batch. -/
inductive BatchOp where
  | put (key value : Bytes)
  | delete (key : Bytes)
  deriving DecidableEq

def BatchOp.key : BatchOp → Bytes
  | put key _ => key
  | delete key => key

def BatchOp.apply (store : KVStore) : BatchOp → KVStore
  | put key value => store.insert key value
  | delete key => store.erase key

theorem BatchOp.get_apply_of_ne {op : BatchOp} {key} (h : key ≠ op.key) (store : KVStore) :
    (op.apply store).get key = store.get key := by
  cases op with
  | put k v => exact OrderedMap.get_insert_of_ne _ _ h
  | delete k => exact (OrderedMap.get_erase _ _ _).trans (if_neg h)

/-- The store after a batch. -/
def commitBatch (store : KVStore) (batch : List BatchOp) : KVStore := batch.foldl BatchOp.apply store

theorem get_commitBatch_of_ne {batch : List BatchOp} {key : Bytes}
    (h : ∀ op ∈ batch, key ≠ op.key) (store : KVStore) :
    (commitBatch store batch).get key = store.get key := by
  induction batch generalizing store with
  | nil => rfl
  | cons op batch ih =>
    exact (ih (fun op' hop' => h op' (List.mem_cons_of_mem _ hop')) _).trans
      (BatchOp.get_apply_of_ne (h op List.mem_cons_self) store)

/-- What a batch leaves under a key that it writes in one way only. -/
theorem get_commitBatch_of_unique {batch key value} (hmem : .put key value ∈ batch)
    (huniq : ∀ op ∈ batch, op.key = key → op = .put key value) (store : KVStore) :
    (commitBatch store batch).get key = some value := by
  induction batch generalizing store with
  | nil => cases hmem
  | cons op batch ih =>
    have hrest := fun op' hop' => huniq op' (List.mem_cons_of_mem op hop')
    by_cases hin : .put key value ∈ batch
    · exact ih hin hrest _
    · have hop : .put key value = op := (List.mem_cons.mp hmem).resolve_right hin
      subst hop
      have hne : ∀ op ∈ batch, key ≠ op.key := fun op hop he => hin (hrest op hop he.symm ▸ hop)
      exact (get_commitBatch_of_ne hne _).trans (OrderedMap.get_insert_self _ _ _)

/-- The Merkle trees are kept in memory beside their stored form. -/
structure StateStore where
  store : KVStore
  merkleTree : CompactMerkleTree
  deltaMerkleTree : CompactMerkleTree
  deriving DecidableEq

namespace StateStore

/-- A key made of a prefix and a height. -/
def heightKey (tag : UInt8) (height : UInt32) : Bytes := tag :: leBytes 4 height.toNat

variable (store : KVStore)

/-- The store before the first block. -/
def initial : StateStore := ⟨store, .empty, .empty⟩

/-- Heights are checked from the first block on. -/
def stateHashCheckHeight : UInt32 := 0

variable (st : StateStore)

def getCurrentBlock : Result (Uint256 × UInt32) := do
  let data ← orFail (st.store.get [SYS_CURRENT_BLOCK]) (.error "not found")
  let (blockHash, rest) ← (Source.nextHash (.error "deserialize Uint256 error")).run data
  let (height, _) ← (Source.nextUint32 (.error "EOF")).run rest
  return (blockHash, height)

variable (height : UInt32)

def saveCurrentBlock (blockHash : Uint256) : BatchOp :=
  .put [SYS_CURRENT_BLOCK] (blockHash.val ++ Sink.writeUint32 height)

def addStateMerkleTreeRoot (blockHeight : UInt32) (writeSetHash : Uint256) :
    Result (StateStore × List BatchOp) :=
  if blockHeight < stateHashCheckHeight then .ok (st, [])
  else do
    let before := if blockHeight = stateHashCheckHeight then .empty else st.deltaMerkleTree
    let tree ← CompactMerkleTree.append sha256 before writeSetHash.val
    let root ← CompactMerkleTree.root sha256 tree
    return ({ st with deltaMerkleTree := tree }, [.put [SYS_STATE_MERKLE_TREE] tree.bytes,
      .put (heightKey DATA_STATE_MERKLE_ROOT blockHeight) (writeSetHash.val ++ root.val)])

def addBlockMerkleTreeRoot (preBlockHash : Uint256) :
    Result (StateStore × List BatchOp) := do
  let tree ← CompactMerkleTree.append sha256 st.merkleTree preBlockHash.val
  return ({ st with merkleTree := tree }, [.put [SYS_BLOCK_MERKLE_TREE] tree.bytes])

def addCrossStates (crossStates : List Uint256) (crossStatesHash : Uint256) :
    List BatchOp :=
  if crossStates.length = 0 then []
  else [.put (heightKey SYS_CROSS_STATES height) (crossStates.flatMap Subtype.val),
    .put (heightKey SYS_CROSS_STATES_HASH height) crossStatesHash.val]

def getCrossStates : Result (List Uint256) := do
  let value ← orFail (st.store.get (heightKey SYS_CROSS_STATES height)) (.error "not found")
  let (hashes, _) ← (Reader.replicate (Source.nextHash (.error "unexpected EOF"))
    (value.length / 32)).run value
  return hashes

def getCrossStateRoot : Result Uint256 :=
  match st.store.get (heightKey SYS_CROSS_STATES_HASH height) with
  | none => .ok Uint256.empty
  | some value => do
    let (hash, _) ← (Source.nextHash (.error "deserialize Uint256 error")).run value
    return hash

def getStorageValue (key : Bytes) : Result Bytes := do
  let data ← orFail (st.store.get (ST_STORAGE :: key)) (.error "not found")
  getValueFromRawStorageItem data

def getStateMerkleRootWithNewHash (writeSetHash : Uint256) : Result Uint256 :=
  CompactMerkleTree.getRootWithNewLeaf sha256 st.deltaMerkleTree writeSetHash

def getBlockRootWithPreBlockHashes (preBlockHashes : List Uint256) :
    Result Uint256 :=
  CompactMerkleTree.getRootWithNewLeaves sha256 st.merkleTree preBlockHashes

/-- `getMerkleTree`; an absent tree is empty. -/
def getMerkleTree (key : Bytes) : Result (UInt32 × List Uint256) :=
  match store.get key with
  | none => .ok (0, [])
  | some data => CompactMerkleTree.ofBytes data

/-- A tree read from the store, of the size that the block height asks for. -/
def loadTree (key : Bytes) (height : UInt32) : Result CompactMerkleTree := do
  let (treeSize, hashes) ← getMerkleTree store key
  failIf (treeSize > 0 ∧ treeSize ≠ height + 1)
    (.error s!"merkle tree size is inconsistent with blockheight: {height + 1}")
  CompactMerkleTree.newTree treeSize hashes

/-- The height of the last block; a store without blocks has height zero. -/
def storedHeight : Result UInt32 :=
  match store.get [SYS_CURRENT_BLOCK] with
  | none => .ok 0
  | some _ => Prod.snd <$> wrapError "GetCurrentBlock error " (initial store).getCurrentBlock

/-- `NewStateStore` on an existing store. -/
def newStateStore : Result StateStore := do
  let height ← storedHeight store
  let merkleTree ← wrapError "init error " (loadTree store [SYS_BLOCK_MERKLE_TREE] height)
  let deltaMerkleTree ← wrapError "init error " (loadTree store [SYS_STATE_MERKLE_TREE] height)
  return ⟨store, merkleTree, deltaMerkleTree⟩

end StateStore

end Poly.Ledger
