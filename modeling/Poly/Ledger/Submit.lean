import Poly.Ledger.Recover
import Poly.Ledger.VerifyHeader
import Poly.Lib.Persist

/-! Saving a block in the running ledger: what `SubmitBlock` and `AddBlock` change in memory and in
the three stores, and how far they come when a store fails. -/
namespace Poly.Ledger

open Lib Lib.Persist Native Merkle

variable (C : Crypto) (contracts : Contracts)

def HEADER_INDEX_BATCH_SIZE : UInt32 := 2000

/-- The ledger with its header index. The lists in `headerIndexList` are stored with the blocks, the
other fields are in memory. -/
structure LedgerStore extends LedgerStoreImp C where
  headerIndexList : OrderedMap UInt32 (List Uint256)
  storedIndexCount : UInt32
  headerCache : OrderedMap Uint256 (Header C.keys)
  headerIndex : OrderedMap UInt32 Uint256
  vbftPeerInfoblock : PeerInfo

/-- The configuration of the node, and what the block cache answers at the time of the call. -/
structure NodeEnv where
  consensusType : String
  networkId : UInt32
  vbftBlock : Header C.keys → Result VbftBlockInfo
  cached : Uint256 → Option (LedgerBlock C)

inductive FaultPoint where
  | saveNotify
  | blockCommit
  | eventCommit
  | stateCommit
  deriving DecidableEq

/-- A call of a store that fails, with its message. -/
structure Fault where
  point : FaultPoint
  msg : String

abbrev LedgerM := Persist Failure (LedgerStore C)

variable {C}

namespace LedgerStore

def getCurrentHeaderHeight (s : LedgerStore C) : UInt32 :=
  if s.headerIndex.size = 0 then 0 else UInt32.ofNat s.headerIndex.size - 1

def getHeaderByHash (env : NodeEnv C) (s : LedgerStore C) (blockHash : Uint256) :
    Option (Header C.keys) :=
  (s.headerCache.get blockHash).or
    (((env.cached blockHash).or (s.blockStore.blocks.get blockHash)).map Block.header)

/-- What the verification of a header sees of the ledger. -/
def headerEnv (env : NodeEnv C) (s : LedgerStore C) : HeaderEnv C.keys where
  sha256 := C.sha256
  ripemd160 := C.ripemd160
  consensusType := env.consensusType
  networkId := env.networkId
  currentHeaderHeight := s.getCurrentHeaderHeight
  getHeaderByHash blockHash := .ok (s.getHeaderByHash env blockHash)
  vbftBlock := env.vbftBlock

def getBlockRootWithPreBlockHashes (s : LedgerStore C) (startHeight : UInt32)
    (preBlockHashes : List Uint256) : Result Uint256 :=
  if s.currBlockHeight > startHeight + UInt32.ofNat preBlockHashes.length - 1 then
    .ok Uint256.empty
  else do
    let start := (s.currBlockHeight + 1 - startHeight).toNat
    failIf (preBlockHashes.length < start) (.panic "slice bounds out of range")
    s.stateStore.getBlockRootWithPreBlockHashes C.sha256 (preBlockHashes.drop start)

/-- The beginning of `submitBlock`, which changes nothing; returns the hash of the block. -/
def checkBlockRoot (s : LedgerStore C) (block : LedgerBlock C) : Result Uint256 := do
  let height := block.header.height
  let blockHash ← block.header.hash C.sha256
  let blockRoot ← s.getBlockRootWithPreBlockHashes height [block.header.prevBlockHash]
  failIf (height ≠ 0 ∧ blockRoot ≠ block.header.blockRoot) (.error
    (s!"wrong block root at height:{height}, expected:" ++ toHex blockRoot.val.reverse ++
      ", got:" ++ toHex block.header.blockRoot.val.reverse))
  return blockHash

def setHeaderIndex (s : LedgerStore C) (height : UInt32) (blockHash : Uint256) : LedgerStore C :=
  { s with headerIndex := s.headerIndex.insert height blockHash }

def setCurrentBlock (s : LedgerStore C) (height : UInt32) (blockHash : Uint256) : LedgerStore C :=
  { s with currBlockHash := blockHash, currBlockHeight := height }

def delHeaderCache (s : LedgerStore C) (blockHash : Uint256) : LedgerStore C :=
  { s with headerCache := s.headerCache.erase blockHash }

/-- The counter lags behind far enough for another list of the header index to be stored. -/
def BatchDue (s : LedgerStore C) : Prop :=
  ¬ s.currBlockHeight - s.storedIndexCount < HEADER_INDEX_BATCH_SIZE

instance (s : LedgerStore C) : Decidable s.BatchDue := inferInstanceAs (Decidable (¬ _))

/-- The next list of the header index; a height without an entry gives the empty hash. -/
def headerList (s : LedgerStore C) : List Uint256 :=
  (List.range HEADER_INDEX_BATCH_SIZE.toNat).map fun i =>
    (s.headerIndex.get (s.storedIndexCount + UInt32.ofNat i)).getD Uint256.empty

end LedgerStore

variable (C) in
/-- The batch of the block store for one block. -/
structure BlockBatch where
  indexList : Option (UInt32 × List Uint256)
  blockHash : Uint256
  block : LedgerBlock C

/-- The batch put into the store; it goes in as a whole. -/
def BlockBatch.commitTo (batch : BlockBatch C) (s : LedgerStore C) : LedgerStore C :=
  { s with
    headerIndexList := match batch.indexList with
      | none => s.headerIndexList
      | some (startIndex, indexList) => s.headerIndexList.insert startIndex indexList
    blockStore := {
      currentBlock := some (batch.blockHash, batch.block.header.height)
      blockHash := s.blockStore.blockHash.insert batch.block.header.height batch.blockHash
      blocks := s.blockStore.blocks.insert batch.blockHash batch.block } }

/-- Stop if this is the call that fails. -/
def failAt (fault : Option Fault) (point : FaultPoint) (context : String) : LedgerM C Unit :=
  match fault with
  | some f => failIf (f.point = point) (.error (context ++ f.msg))
  | none => pure ()

def saveHeaderIndexList : LedgerM C (Option (UInt32 × List Uint256)) := do
  let s ← get
  if s.BatchDue then
    modify fun s => { s with storedIndexCount := s.storedIndexCount + HEADER_INDEX_BATCH_SIZE }
    return some (s.storedIndexCount, s.headerList)
  else return none

def saveBlockToBlockStore (block : LedgerBlock C) (blockHash : Uint256) :
    LedgerM C (BlockBatch C) := do
  modify fun s => s.setHeaderIndex block.header.height blockHash
  let indexList ← saveHeaderIndexList
  return ⟨indexList, blockHash, block⟩

/-- The loop over `SaveNotify`; what it puts into the batch is lost when it stops. -/
def saveNotifyAll (height : UInt32) (notify : List ExecuteNotify) (fault : Option Fault) :
    LedgerM C Unit := do
  let s ← get
  if s.enableEventLog ∧ notify ≠ [] then
    failAt fault .saveNotify
      (s!"save to state store height:{height} error:SaveNotify error " ++
        "SaveEventNotifyByTx error json.Marshal error ")

/-- The commits of the three stores; the event store may be written again after a crash, so it goes
before the state store. -/
def commitStores (block : LedgerBlock C) (result : ExecuteResult) (fault : Option Fault)
    (blockHash : Uint256) (blockBatch : BlockBatch C) (stateBatch : List BatchOp) :
    LedgerM C Uint256 := do
  let height := block.header.height
  failAt fault .blockCommit s!"blockStore.CommitTo height:{height} error "
  modify blockBatch.commitTo
  failAt fault .eventCommit s!"eventStore.CommitTo height:{height} error "
  modify fun s => { s with
    eventStore := saveBlockToEventStore (s.eventStore.saveNotify s.enableEventLog result.notify)
      block blockHash }
  failAt fault .stateCommit s!"stateStore.CommitTo height:{height} error "
  modify fun s => { s with stateStore := s.stateStore.commitTo stateBatch }
  return blockHash

/-- `submitBlock` up to the last commit; returns the hash of the block. -/
def commitBlock (block : LedgerBlock C) (result : ExecuteResult) (fault : Option Fault) :
    LedgerM C Uint256 := do
  let s ← get
  let blockHash ← lift (s.checkBlockRoot block)
  let blockBatch ← saveBlockToBlockStore block blockHash
  saveNotifyAll block.header.height result.notify fault
  let (stateStore, stateBatch) ← lift (saveBlockToStateStore C s.stateStore block result)
  modify fun s => { s with stateStore := stateStore }
  commitStores block result fault blockHash blockBatch stateBatch

def submitBlock (block : LedgerBlock C) (result : ExecuteResult) (fault : Option Fault) :
    LedgerM C Unit := do
  let blockHash ← commitBlock block result fault
  modify fun s => s.setCurrentBlock block.header.height blockHash

section Panics

/-- An outcome that is no error of the code. -/
def OnlyPanics {α : Type} (r : Result α) : Prop := ∀ e, r = .error e → ∃ msg, e = .panic msg

variable {α β : Type}

theorem OnlyPanics.ok (a : α) : OnlyPanics (.ok a) := by
  intro e h
  cases h

theorem OnlyPanics.panic (msg : String) : OnlyPanics (.error (.panic msg) : Result α) := by
  intro e h
  cases h
  exact ⟨msg, rfl⟩

theorem OnlyPanics.bind {x} {f : α → Result β} (hx : OnlyPanics x) (hf : ∀ a, OnlyPanics (f a)) :
    OnlyPanics (x >>= f) := by
  cases x with
  | ok a => exact hf a
  | error e =>
    obtain ⟨msg, rfl⟩ := hx e rfl
    exact .panic msg

theorem OnlyPanics.failIf (c : Prop) [Decidable c] (msg : String) :
    OnlyPanics (failIf c (.panic msg) : Result Unit) := by
  unfold Lib.failIf
  split
  · exact .panic msg
  · exact .ok ()

theorem OnlyPanics.goIndex (l : List α) (i : ℕ) : OnlyPanics (goIndex l i) := by
  unfold Poly.goIndex orFail
  split
  · exact .ok _
  · exact .panic _

variable (sha256 : Bytes → Uint256)

theorem OnlyPanics.hash (bd : UnsignedHeader) : OnlyPanics (bd.hash sha256) :=
  .bind (.bind (.failIf _ _) fun _ => .ok _) fun _ => .ok _

theorem OnlyPanics.appendLoop (n : ℕ) (hashes : List Uint256) (leaf : Uint256) :
    OnlyPanics (CompactMerkleTree.appendLoop sha256 n hashes leaf) := by
  fun_induction CompactMerkleTree.appendLoop sha256 n hashes leaf with
  | case1 n hashes leaf _ ih => exact .bind (.goIndex _ _) ih
  | case2 => exact .ok _

theorem OnlyPanics.append (tree : CompactMerkleTree) (leafv : Bytes) :
    OnlyPanics (tree.append sha256 leafv) :=
  .bind (.appendLoop sha256 _ _ _) fun _ => .ok _

theorem OnlyPanics.root (tree : CompactMerkleTree) : OnlyPanics (tree.root sha256) := by
  unfold CompactMerkleTree.root hashFold
  split_ifs
  · split
    · exact .panic _
    · exact .ok _
  · exact .ok _

theorem OnlyPanics.foldlM (step : α → β → Result α) (hstep : ∀ a b, OnlyPanics (step a b))
    (l : List β) (a : α) : OnlyPanics (l.foldlM step a) := by
  induction l generalizing a with
  | nil => exact .ok a
  | cons b l ih => exact .bind (hstep a b) ih

theorem OnlyPanics.getBlockRootWithPreBlockHashes (s : LedgerStore C) (startHeight : UInt32)
    (preBlockHashes : List Uint256) :
    OnlyPanics (s.getBlockRootWithPreBlockHashes startHeight preBlockHashes) := by
  unfold LedgerStore.getBlockRootWithPreBlockHashes
  split_ifs
  · exact .ok _
  · refine .bind (.failIf _ _) fun _ => .bind (.foldlM _ ?_ _ _) fun tree => .root _ tree
    exact fun tree h => .append _ tree h.val

theorem OnlyPanics.saveBlockToStateStore (st : StateStore) (block : LedgerBlock C)
    (result : ExecuteResult) : OnlyPanics (saveBlockToStateStore C st block result) := by
  refine .bind (.hash _ _) fun _ => .bind ?_ fun _ => .bind ?_ fun _ => .ok _
  · unfold StateStore.addStateMerkleTreeRoot
    split_ifs
    · exact .ok _
    all_goals exact .bind (.append _ _ _) fun tree => .bind (.root _ tree) fun _ => .ok _
  · exact .bind (.append _ _ _) fun _ => .ok _

end Panics

section Saving

def FailsAt (fault : Option Fault) (point : FaultPoint) : Prop := ∃ f, fault = some f ∧ f.point = point

theorem FailsAt.unique {fault p q} (hp : FailsAt fault p) (hq : FailsAt fault q) : p = q := by
  obtain ⟨f, rfl, rfl⟩ := hp
  obtain ⟨g, hg, rfl⟩ := hq
  cases hg
  rfl

/-- There are events to save and saving them fails. -/
def NotifyFails (s : LedgerStore C) (notify : List ExecuteNotify) (fault : Option Fault) : Prop :=
  (s.enableEventLog ∧ notify ≠ []) ∧ FailsAt fault .saveNotify

/-- The block root of the header is the one that the ledger computes. -/
def RootAgrees (s : LedgerStore C) (block : LedgerBlock C) : Prop :=
  block.header.height = 0 ∨ s.getBlockRootWithPreBlockHashes block.header.height
    [block.header.prevBlockHash] = .ok block.header.blockRoot

namespace LedgerStore

/-- The memory once the block is in the header index. -/
def indexed (s : LedgerStore C) (block : LedgerBlock C) (blockHash : Uint256) : LedgerStore C :=
  { s.setHeaderIndex block.header.height blockHash with
    storedIndexCount :=
      if s.BatchDue then s.storedIndexCount + HEADER_INDEX_BATCH_SIZE else s.storedIndexCount }

def blockBatch (s : LedgerStore C) (block : LedgerBlock C) (blockHash : Uint256) : BlockBatch C where
  indexList :=
    if s.BatchDue then
      some (s.storedIndexCount, (s.setHeaderIndex block.header.height blockHash).headerList)
    else none
  blockHash := blockHash
  block := block

/-- Also the Merkle trees have the block; nothing is stored yet. -/
def prepared (s : LedgerStore C) (block : LedgerBlock C) (blockHash : Uint256)
    (stateStore : StateStore) : LedgerStore C :=
  { s.indexed block blockHash with stateStore := stateStore }

def blockStored (s : LedgerStore C) (block : LedgerBlock C) (blockHash : Uint256)
    (stateStore : StateStore) : LedgerStore C :=
  (s.blockBatch block blockHash).commitTo (s.prepared block blockHash stateStore)

def eventsStored (s : LedgerStore C) (block : LedgerBlock C) (result : ExecuteResult)
    (blockHash : Uint256) (stateStore : StateStore) : LedgerStore C :=
  { s.blockStored block blockHash stateStore with
    eventStore := saveBlockToEventStore (s.eventStore.saveNotify s.enableEventLog result.notify)
      block blockHash }

def stateStored (s : LedgerStore C) (block : LedgerBlock C) (result : ExecuteResult)
    (blockHash : Uint256) (stateStore : StateStore) (batch : List BatchOp) : LedgerStore C :=
  { s.eventsStored block result blockHash stateStore with stateStore := stateStore.commitTo batch }

/-- What is left of a block whose saving stops at this point. -/
def leftAt (s : LedgerStore C) (block : LedgerBlock C) (result : ExecuteResult)
    (blockHash : Uint256) (stateStore : StateStore) : FaultPoint → LedgerStore C
  | .saveNotify => s.indexed block blockHash
  | .blockCommit => s.prepared block blockHash stateStore
  | .eventCommit => s.blockStored block blockHash stateStore
  | .stateCommit => s.eventsStored block result blockHash stateStore

end LedgerStore

/-- Everything that saving a block can come to, with the state that it leaves. -/
inductive Saving (s : LedgerStore C) (block : LedgerBlock C) (result : ExecuteResult)
    (fault : Option Fault) : Result Uint256 → LedgerStore C → Prop
  | headerPanic {msg : String} (hcheck : s.checkBlockRoot block = .error (.panic msg)) :
      Saving s block result fault (.error (.panic msg)) s
  | refused {e : Failure} (hroot : ¬ RootAgrees s block) :
      Saving s block result fault (.error e) s
  | notify {blockHash : Uint256} {msg : String}
      (hhash : block.header.hash C.sha256 = .ok blockHash) (hroot : RootAgrees s block)
      (hfault : NotifyFails s result.notify fault) :
      Saving s block result fault (.error (.error msg)) (s.indexed block blockHash)
  | treePanic {blockHash : Uint256} {msg : String}
      (hhash : block.header.hash C.sha256 = .ok blockHash) (hroot : RootAgrees s block)
      (htrees : saveBlockToStateStore C s.stateStore block result = .error (.panic msg)) :
      Saving s block result fault (.error (.panic msg)) (s.indexed block blockHash)
  | commit {blockHash : Uint256} {stateStore : StateStore} {batch : List BatchOp} {msg : String}
      (point : FaultPoint) (hhash : block.header.hash C.sha256 = .ok blockHash)
      (hroot : RootAgrees s block)
      (htrees : saveBlockToStateStore C s.stateStore block result = .ok (stateStore, batch))
      (hfault : FailsAt fault point) (hpoint : point ≠ .saveNotify) :
      Saving s block result fault (.error (.error msg))
        (s.leftAt block result blockHash stateStore point)
  | saved {blockHash : Uint256} {stateStore : StateStore} {batch : List BatchOp}
      (hhash : block.header.hash C.sha256 = .ok blockHash) (hroot : RootAgrees s block)
      (htrees : saveBlockToStateStore C s.stateStore block result = .ok (stateStore, batch))
      (hnotify : ¬ NotifyFails s result.notify fault) :
      Saving s block result fault (.ok blockHash)
        (s.stateStored block result blockHash stateStore batch)

variable {s t : LedgerStore C} {block : LedgerBlock C} {result : ExecuteResult}
  {fault : Option Fault}

/-- A call that may fail: the program stops there or goes on from the same state. -/
theorem runFrom_failAt_bind {α : Type} {point context} {f : Unit → LedgerM C α} {r}
    (h : runFrom (failAt fault point context >>= f) s = (r, t)) :
    (FailsAt fault point ∧ ∃ msg, r = .error (.error msg) ∧ t = s) ∨
      ¬ FailsAt fault point ∧ runFrom (f ()) s = (r, t) := by
  cases fault with
  | none =>
    refine .inr ⟨?_, runFrom_bind_of_ok (runFrom_pure _ _) ▸ h⟩
    rintro ⟨f, hf, -⟩
    cases hf
  | some fault =>
    rcases runFrom_failIf_bind h with ⟨hp, rfl, rfl⟩ | ⟨hp, h⟩
    · exact .inl ⟨⟨fault, rfl, hp⟩, _, rfl, rfl⟩
    · refine .inr ⟨?_, h⟩
      rintro ⟨f, hf, hpoint⟩
      cases hf
      exact hp hpoint

theorem runFrom_saveHeaderIndexList :
    runFrom saveHeaderIndexList s =
      (.ok (if s.BatchDue then some (s.storedIndexCount, s.headerList) else none),
        { s with storedIndexCount :=
            if s.BatchDue then s.storedIndexCount + HEADER_INDEX_BATCH_SIZE
            else s.storedIndexCount }) := by
  rw [saveHeaderIndexList, runFrom_bind_of_ok (runFrom_get _)]
  split_ifs <;> rfl

theorem runFrom_saveBlockToBlockStore (blockHash : Uint256) :
    runFrom (saveBlockToBlockStore block blockHash) s =
      (.ok (s.blockBatch block blockHash), s.indexed block blockHash) := by
  rw [saveBlockToBlockStore, runFrom_bind_of_ok (runFrom_modify _ _),
    runFrom_bind_of_ok runFrom_saveHeaderIndexList]
  rfl

theorem runFrom_saveNotifyAll_bind {α : Type} {height notify} {f : Unit → LedgerM C α} {r}
    (h : runFrom (saveNotifyAll height notify fault >>= f) s = (r, t)) :
    (NotifyFails s notify fault ∧ ∃ msg, r = .error (.error msg) ∧ t = s) ∨
      ¬ NotifyFails s notify fault ∧ runFrom (f ()) s = (r, t) := by
  rw [saveNotifyAll, bind_assoc, runFrom_bind_of_ok (runFrom_get _)] at h
  split_ifs at h with hlog
  · rcases runFrom_failAt_bind h with ⟨hfails, hstop⟩ | ⟨hpass, h⟩
    · exact .inl ⟨⟨hlog, hfails⟩, hstop⟩
    · exact .inr ⟨fun hn => hpass hn.2, h⟩
  · exact .inr ⟨fun hn => hlog hn.1, runFrom_bind_of_ok (runFrom_pure _ _) ▸ h⟩

variable {blockHash : Uint256}

theorem runFrom_commitStores {stateStore batch r}
    (hhash : block.header.hash C.sha256 = .ok blockHash) (hroot : RootAgrees s block)
    (htrees : saveBlockToStateStore C s.stateStore block result = .ok (stateStore, batch))
    (hnotify : ¬ NotifyFails s result.notify fault)
    (h : runFrom (commitStores block result fault blockHash (s.blockBatch block blockHash) batch)
      (s.prepared block blockHash stateStore) = (r, t)) : Saving s block result fault r t := by
  rcases runFrom_failAt_bind h with ⟨hfails, msg, rfl, rfl⟩ | ⟨-, h⟩
  · exact .commit .blockCommit hhash hroot htrees hfails (by decide)
  rcases runFrom_failAt_bind h with ⟨hfails, msg, rfl, rfl⟩ | ⟨-, h⟩
  · exact .commit .eventCommit hhash hroot htrees hfails (by decide)
  rcases runFrom_failAt_bind h with ⟨hfails, msg, rfl, rfl⟩ | ⟨-, h⟩
  · exact .commit .stateCommit hhash hroot htrees hfails (by decide)
  cases h
  exact .saved hhash hroot htrees hnotify

theorem checkBlockRoot_ok (h : s.checkBlockRoot block = .ok blockHash) :
    block.header.hash C.sha256 = .ok blockHash ∧ RootAgrees s block := by
  obtain ⟨blockHash', hhash, h⟩ := bind_ok.mp h
  obtain ⟨blockRoot, hblockRoot, h⟩ := bind_ok.mp h
  obtain ⟨_, hright, h⟩ := bind_ok.mp h
  cases h
  refine ⟨hhash, ?_⟩
  by_cases hzero : block.header.height = 0
  · exact .inl hzero
  · refine .inr ?_
    have he : blockRoot = block.header.blockRoot := by
      by_contra hne
      exact failIf_ok.mp hright ⟨hzero, hne⟩
    rw [hblockRoot, he]

theorem checkBlockRoot_error {e : Failure} (h : s.checkBlockRoot block = .error e) :
    (∃ msg, e = .panic msg) ∨ ¬ RootAgrees s block := by
  by_cases hroot : RootAgrees s block
  · left
    refine OnlyPanics.bind (.hash _ _) (fun blockHash => ?_) e h
    rcases hroot with hzero | hroot
    · refine .bind (.getBlockRootWithPreBlockHashes _ _ _) fun _ => ?_
      rw [failIf_of_not fun h => h.1 hzero]
      exact .ok _
    · rw [hroot, ok_bind, failIf_of_not fun h => h.2 rfl]
      exact .ok _
  · exact .inr hroot

theorem commitBlock_saving {r} (h : runFrom (commitBlock block result fault) s = (r, t)) :
    Saving s block result fault r t := by
  rw [commitBlock, runFrom_bind_of_ok (runFrom_get _)] at h
  rcases runFrom_lift_bind h with ⟨e, hcheck, rfl, rfl⟩ | ⟨blockHash, hcheck, h⟩
  · rcases checkBlockRoot_error hcheck with ⟨msg, rfl⟩ | hroot
    · exact .headerPanic hcheck
    · exact .refused hroot
  rw [runFrom_bind_of_ok (runFrom_saveBlockToBlockStore blockHash)] at h
  obtain ⟨hhash, hroot⟩ := checkBlockRoot_ok hcheck
  rcases runFrom_saveNotifyAll_bind h with ⟨hfails, msg, rfl, rfl⟩ | ⟨hnotify, h⟩
  · exact .notify hhash hroot hfails
  rcases runFrom_lift_bind h with ⟨e, htrees, rfl, rfl⟩ | ⟨⟨stateStore, batch⟩, htrees, h⟩
  · obtain ⟨msg, rfl⟩ := OnlyPanics.saveBlockToStateStore _ _ _ e htrees
    exact .treePanic hhash hroot htrees
  · exact runFrom_commitStores hhash hroot htrees hnotify h

end Saving

/-- The ledger's verdict on a header, with the peers that it goes on with. -/
def LedgerStore.headerVerdict (s : LedgerStore C) (env : NodeEnv C) (header : Header C.keys) :
    Result PeerInfo :=
  verifyHeader (s.headerEnv env) header s.vbftPeerInfoblock

/-- The peer map is assigned whatever the verification returns; with an error that is the old map. -/
def acceptHeader (env : NodeEnv C) (header : Header C.keys) : LedgerM C Unit := do
  let s ← get
  let peers ← lift (wrapError "verifyHeader error " (s.headerVerdict env header))
  modify fun s => { s with vbftPeerInfoblock := peers }

/-- The common course of `SubmitBlock` and `AddBlock`, around their way of saving the block. -/
def storeNext (env : NodeEnv C) (block : LedgerBlock C) (save : LedgerM C Unit) :
    LedgerM C Unit := do
  let s ← get
  if block.header.height ≤ s.currBlockHeight then return ()
  failIf (block.header.height ≠ s.currBlockHeight + 1) (.error
    s!"block height {block.header.height} not equal next block height {s.currBlockHeight + 1}")
  acceptHeader env block.header
  mapOutcome (wrapError "saveBlock error ") save
  let blockHash ← lift (block.header.hash C.sha256)
  modify fun s => s.delHeaderCache blockHash

/-- The method `SubmitBlock`, under the saving lock. -/
def SubmitBlock (env : NodeEnv C) (block : LedgerBlock C) (result : ExecuteResult)
    (fault : Option Fault) : LedgerM C Unit :=
  storeNext env block (submitBlock block result fault)

/-- `busy` says that another call holds the saving lock when this one tries to take it. -/
def saveBlock (block : LedgerBlock C) (stateMerkleRoot : Uint256) (busy : Bool)
    (fault : Option Fault) : LedgerM C Unit := do
  if busy then return ()
  let s ← get
  if block.header.height > 0 ∧ block.header.height ≠ s.currBlockHeight + 1 then return ()
  let result ← lift (executeBlock C contracts s.stateStore block)
  failIf (result.merkleRoot ≠ stateMerkleRoot) (.error "state merkle root mismatch!")
  submitBlock block result fault

/-- The method `AddBlock`. -/
def AddBlock (env : NodeEnv C) (block : LedgerBlock C) (stateMerkleRoot : Uint256) (busy : Bool)
    (fault : Option Fault) : LedgerM C Unit :=
  storeNext env block (saveBlock contracts block stateMerkleRoot busy fault)

variable {contracts} {s t : LedgerStore C} {env : NodeEnv C} {block : LedgerBlock C}
  {result : ExecuteResult} {fault : Option Fault} {save : LedgerM C Unit}

def LedgerStore.withPeers (s : LedgerStore C) (peers : PeerInfo) : LedgerStore C :=
  { s with vbftPeerInfoblock := peers }

theorem wrapError_error (context : String) (e : Failure) {α : Type} :
    ∃ e', (wrapError context (.error e) : Result α) = .error e' := by
  cases e <;> exact ⟨_, rfl⟩

/-- Everything that one of the two methods can come to. -/
inductive StoringNext (env : NodeEnv C) (s : LedgerStore C) (block : LedgerBlock C)
    (save : LedgerM C Unit) : Result Unit → LedgerStore C → Prop
  | old (h : block.header.height ≤ s.currBlockHeight) : StoringNext env s block save (.ok ()) s
  | gap {e : Failure} (hnext : block.header.height ≠ s.currBlockHeight + 1) :
      StoringNext env s block save (.error e) s
  | refused {e e' : Failure} (hnext : block.header.height = s.currBlockHeight + 1)
      (hverdict : s.headerVerdict env block.header = .error e) :
      StoringNext env s block save (.error e') s
  | failed {peers : PeerInfo} {e e' : Failure} {t : LedgerStore C}
      (hold : ¬ block.header.height ≤ s.currBlockHeight)
      (hnext : block.header.height = s.currBlockHeight + 1)
      (hverdict : s.headerVerdict env block.header = .ok peers)
      (hsave : runFrom save (s.withPeers peers) = (.error e, t))
      (hwrap : wrapError "saveBlock error " (.error e : Result Unit) = .error e') :
      StoringNext env s block save (.error e') t
  | panicked {msg : String} {t : LedgerStore C}
      (hhash : block.header.hash C.sha256 = .error (.panic msg)) :
      StoringNext env s block save (.error (.panic msg)) t
  | stored {peers : PeerInfo} {t : LedgerStore C} {blockHash : Uint256}
      (hold : ¬ block.header.height ≤ s.currBlockHeight)
      (hnext : block.header.height = s.currBlockHeight + 1)
      (hverdict : s.headerVerdict env block.header = .ok peers)
      (hsave : runFrom save (s.withPeers peers) = (.ok (), t))
      (hhash : block.header.hash C.sha256 = .ok blockHash) :
      StoringNext env s block save (.ok ()) (t.delHeaderCache blockHash)

theorem runFrom_acceptHeader_of_ok {header peers} (h : s.headerVerdict env header = .ok peers) :
    runFrom (acceptHeader env header) s = (.ok (), s.withPeers peers) := by
  rw [acceptHeader, runFrom_bind_of_ok (runFrom_get _),
    runFrom_bind_of_ok (by rw [runFrom_lift, wrapError_ok.mpr h])]
  rfl

theorem runFrom_acceptHeader_of_error {header e} (h : s.headerVerdict env header = .error e) :
    ∃ e', runFrom (acceptHeader env header) s = (.error e', s) := by
  obtain ⟨e', he⟩ := wrapError_error "verifyHeader error " e
  refine ⟨e', ?_⟩
  rw [acceptHeader, runFrom_bind_of_ok (runFrom_get _)]
  exact runFrom_bind_of_error (by rw [runFrom_lift, h, he])

theorem storeNext_cases {r} (h : runFrom (storeNext env block save) s = (r, t)) :
    StoringNext env s block save r t := by
  rw [storeNext, runFrom_bind_of_ok (runFrom_get _)] at h
  split at h
  · cases h
    exact .old ‹_›
  rename_i hold
  rcases runFrom_failIf_bind h with ⟨hnext, rfl, rfl⟩ | ⟨hnext, h⟩
  · exact .gap hnext
  have hnext := not_not.mp hnext
  cases hverdict : s.headerVerdict env block.header with
  | error e =>
    obtain ⟨e', he⟩ := runFrom_acceptHeader_of_error hverdict
    rw [runFrom_bind_of_error he] at h
    cases h
    exact .refused hnext hverdict
  | ok peers =>
    rw [runFrom_bind_of_ok (runFrom_acceptHeader_of_ok hverdict)] at h
    cases hsave : runFrom save (s.withPeers peers) with
    | mk r' t' =>
      cases r' with
      | error e =>
        obtain ⟨e', he⟩ := wrapError_error "saveBlock error " e
        rw [runFrom_bind_of_error (by rw [runFrom_mapOutcome, hsave, he])] at h
        cases h
        exact .failed hold hnext hverdict hsave he
      | ok u =>
        rw [runFrom_bind_of_ok (by rw [runFrom_mapOutcome, hsave]; rfl)] at h
        rcases runFrom_lift_bind h with ⟨e, hhash, rfl, rfl⟩ | ⟨blockHash, hhash, h⟩
        · obtain ⟨msg, rfl⟩ := OnlyPanics.hash _ _ e hhash
          exact .panicked hhash
        · cases h
          exact .stored hold hnext hverdict hsave hhash

/-- `submitBlock` sets the current block once everything is stored. -/
theorem submitBlock_ok (h : runFrom (submitBlock block result fault) s = (.ok (), t)) :
    ∃ blockHash t', Saving s block result fault (.ok blockHash) t' ∧
      t = t'.setCurrentBlock block.header.height blockHash := by
  rcases runFrom_bind.mp h with ⟨e, he, -⟩ | ⟨blockHash, t', hcommit, h⟩
  · cases he
  · cases h
    exact ⟨blockHash, t', commitBlock_saving hcommit, rfl⟩

theorem submitBlock_error {e : Failure}
    (h : runFrom (submitBlock block result fault) s = (.error e, t)) :
    Saving s block result fault (.error e) t := by
  rcases runFrom_bind.mp h with ⟨e', he, hcommit⟩ | ⟨blockHash, t', -, h⟩
  · cases he
    exact commitBlock_saving hcommit
  · cases h

/-- The block executes on the state store to the root that the caller gives. -/
def Executes (contracts : Contracts) (s : LedgerStore C) (block : LedgerBlock C)
    (stateMerkleRoot : Uint256) : Prop :=
  ∃ result, executeBlock C contracts s.stateStore block = .ok result ∧
    result.merkleRoot = stateMerkleRoot

/-- What `saveBlock` can come to when it gets the lock and the block is the next one. -/
theorem saveBlock_cases {stateMerkleRoot busy r}
    (hnext : block.header.height = s.currBlockHeight + 1)
    (h : runFrom (saveBlock contracts block stateMerkleRoot busy fault) s = (r, t)) :
    busy = true ∧ r = .ok () ∧ t = s ∨
      (¬ Executes contracts s block stateMerkleRoot ∧ t = s ∧ ∃ e, r = .error e) ∨
      ∃ result, Executes contracts s block stateMerkleRoot ∧
        executeBlock C contracts s.stateStore block = .ok result ∧
        runFrom (submitBlock block result fault) s = (r, t) := by
  rw [saveBlock] at h
  split at h
  · cases h
    exact .inl ⟨‹_›, rfl, rfl⟩
  right
  rw [runFrom_bind_of_ok (runFrom_get _), if_neg fun h => h.2 hnext] at h
  rcases runFrom_lift_bind h with ⟨e, hexec, rfl, rfl⟩ | ⟨result, hexec, h⟩
  · refine .inl ⟨?_, rfl, e, rfl⟩
    rintro ⟨result, hok, -⟩
    cases hexec.symm.trans hok
  rcases runFrom_failIf_bind h with ⟨hroot, rfl, rfl⟩ | ⟨hroot, h⟩
  · refine .inl ⟨?_, rfl, _, rfl⟩
    rintro ⟨result', hok, hroot'⟩
    exact hroot (ok_unique hexec hok ▸ hroot')
  · exact .inr ⟨result, ⟨result, hexec, not_not.mp hroot⟩, hexec, h⟩

end Poly.Ledger
