import Poly.Ledger.Submit

/-! A block that the ledger fails to store: when its memory is the same as before the call. -/
namespace Poly.Ledger

open Lib Lib.Persist Native Merkle

variable {C : Crypto} {contracts : Contracts}

/-- What the ledger keeps in memory about its chain. -/
structure Memory where
  currBlockHash : Uint256
  currBlockHeight : UInt32
  headerIndex : OrderedMap UInt32 Uint256
  storedIndexCount : UInt32
  deltaMerkleTree : CompactMerkleTree
  merkleTree : CompactMerkleTree
  vbftPeerInfoblock : PeerInfo

def LedgerStore.memory (s : LedgerStore C) : Memory where
  currBlockHash := s.currBlockHash
  currBlockHeight := s.currBlockHeight
  headerIndex := s.headerIndex
  storedIndexCount := s.storedIndexCount
  deltaMerkleTree := s.stateStore.deltaMerkleTree
  merkleTree := s.stateStore.merkleTree
  vbftPeerInfoblock := s.vbftPeerInfoblock

/-- The header index has the block already, and no list of it is due to be stored. -/
def IndexKept (s : LedgerStore C) (block : LedgerBlock C) : Prop :=
  ¬ s.BatchDue ∧ ∃ blockHash, block.header.hash C.sha256 = .ok blockHash ∧
    s.headerIndex.get block.header.height = some blockHash

/-- Saving stops before it changes anything in memory. -/
def StopsBefore (s : LedgerStore C) (block : LedgerBlock C) (fault : Option Fault) : Prop :=
  ¬ RootAgrees s block ∨ FailsAt fault .saveNotify ∧ IndexKept s block

/-- The block is not the next one, or any peers that its header leads to are the old ones and its
saving stops in time. -/
def LeavesMemory (env : NodeEnv C) (s : LedgerStore C) (block : LedgerBlock C) (stops : Prop) :
    Prop :=
  block.header.height ≠ s.currBlockHeight + 1 ∨
    ∀ peers, s.headerVerdict env block.header = .ok peers → peers = s.vbftPeerInfoblock ∧ stops

section Memory

variable {env : NodeEnv C} {s t : LedgerStore C} {block : LedgerBlock C} {result : ExecuteResult}
  {fault : Option Fault}

theorem indexed_memory {blockHash} (hhash : block.header.hash C.sha256 = .ok blockHash) :
    (s.indexed block blockHash).memory = s.memory ↔ IndexKept s block := by
  constructor
  · intro h
    have hindex : s.headerIndex.insert block.header.height blockHash = s.headerIndex :=
      congrArg Memory.headerIndex h
    have hcount : (if s.BatchDue then s.storedIndexCount + HEADER_INDEX_BATCH_SIZE
        else s.storedIndexCount) = s.storedIndexCount := congrArg Memory.storedIndexCount h
    refine ⟨?_, blockHash, hhash, OrderedMap.insert_eq_self.mp hindex⟩
    intro hdue
    rw [if_pos hdue] at hcount
    have hsize : HEADER_INDEX_BATCH_SIZE = 0 := by simpa using hcount
    exact absurd hsize (by decide)
  · rintro ⟨hdue, h, hh, hget⟩
    cases ok_unique hh hhash
    simp only [LedgerStore.memory, LedgerStore.indexed, LedgerStore.setHeaderIndex, if_neg hdue,
      OrderedMap.insert_eq_self.mpr hget]

theorem leftAt_memory_ne {blockHash stateStore batch}
    (htrees : saveBlockToStateStore C s.stateStore block result = .ok (stateStore, batch)) {point}
    (hpoint : point ≠ .saveNotify) :
    (s.leftAt block result blockHash stateStore point).memory ≠ s.memory := by
  intro h
  obtain ⟨_, _, -, -, happend, -⟩ := saveBlockToStateStore_ok htrees
  have hsize := CompactMerkleTree.append_treeSize _ happend
  have htree : stateStore.merkleTree = s.stateStore.merkleTree := by
    cases point with
    | saveNotify => exact absurd rfl hpoint
    | blockCommit | eventCommit | stateCommit => exact congrArg Memory.merkleTree h
  rw [htree] at hsize
  have hone : (1 : UInt32) = 0 := by simpa using hsize.symm
  exact absurd hone (by decide)

theorem Saving.memory_iff {msg : String} (h : Saving s block result fault (.error (.error msg)) t) :
    t.memory = s.memory ↔ StopsBefore s block fault := by
  cases h with
  | refused hroot => exact ⟨fun _ => .inl hroot, fun _ => rfl⟩
  | notify hhash hroot hfault =>
    rw [indexed_memory hhash]
    constructor
    · exact fun hkept => .inr ⟨hfault.2, hkept⟩
    · rintro (hwrong | ⟨-, hkept⟩)
      · exact absurd hroot hwrong
      · exact hkept
  | commit point hhash hroot htrees hfault hpoint =>
    refine ⟨fun h => absurd h (leftAt_memory_ne htrees hpoint), ?_⟩
    rintro (hwrong | ⟨hnotify, -⟩)
    · exact absurd hroot hwrong
    · exact absurd (hfault.unique hnotify) hpoint

theorem Saving.peers {r} (h : Saving s block result fault r t) :
    t.vbftPeerInfoblock = s.vbftPeerInfoblock := by
  cases h with
  | commit point => cases point <;> rfl
  | _ => rfl

/-- Saving under new peers leaves the memory as it was only if they are the old ones. -/
theorem memory_withPeers {peers} (hpeers : t.vbftPeerInfoblock = peers) :
    t.memory = s.memory ↔
      peers = s.vbftPeerInfoblock ∧ t.memory = (s.withPeers peers).memory := by
  constructor
  · intro h
    have hold : peers = s.vbftPeerInfoblock := hpeers.symm.trans (congrArg Memory.vbftPeerInfoblock h)
    subst hold
    exact ⟨rfl, h⟩
  · rintro ⟨rfl, h⟩
    exact h

/-- A method that fails, around a way of saving of which it is known when it leaves the memory. -/
theorem storeNext_memory_iff {save} {stops : Prop} {msg}
    (hsave : ∀ peers msg u, block.header.height = s.currBlockHeight + 1 →
      runFrom save (s.withPeers peers) = (.error (.error msg), u) →
      u.vbftPeerInfoblock = peers ∧ (u.memory = (s.withPeers peers).memory ↔ stops))
    (h : runFrom (storeNext env block save) s = (.error (.error msg), t)) :
    t.memory = s.memory ↔ LeavesMemory env s block stops := by
  cases storeNext_cases h with
  | gap hnext => exact ⟨fun _ => .inl hnext, fun _ => rfl⟩
  | refused hnext hverdict =>
    refine ⟨fun _ => .inr ?_, fun _ => rfl⟩
    intro peers hok
    rw [hverdict] at hok
    cases hok
  | @failed peers e _ _ _ hnext hverdict hrun hwrap =>
    have hkind : ∃ msg', e = .error msg' := by
      cases e with
      | error msg' => exact ⟨msg', rfl⟩
      | panic msg' => cases hwrap
    obtain ⟨msg', rfl⟩ := hkind
    obtain ⟨hpeers, hiff⟩ := hsave peers msg' t hnext hrun
    rw [memory_withPeers hpeers, hiff]
    constructor
    · rintro ⟨hold, hstops⟩
      refine .inr ?_
      intro peers' hok
      cases ok_unique hverdict hok
      exact ⟨hold, hstops⟩
    · rintro (hgap | hall)
      · exact absurd hnext hgap
      · exact hall peers hverdict

variable (contracts) in
/-- When a failed `SubmitBlock` or `AddBlock` leaves the memory of the ledger as it was. -/
theorem failed_submission_memory (env : NodeEnv C) (s : LedgerStore C) (block : LedgerBlock C)
    (fault : Option Fault) :
    (∀ result msg t, runFrom (SubmitBlock env block result fault) s = (.error (.error msg), t) →
      (t.memory = s.memory ↔ LeavesMemory env s block (StopsBefore s block fault))) ∧
    (∀ stateMerkleRoot busy msg t,
      runFrom (AddBlock contracts env block stateMerkleRoot busy fault) s =
        (.error (.error msg), t) →
      (t.memory = s.memory ↔ LeavesMemory env s block
        (¬ Executes contracts s block stateMerkleRoot ∨ StopsBefore s block fault))) := by
  constructor
  · intro result msg t h
    refine storeNext_memory_iff ?_ h
    intro peers msg u _ hrun
    have hsaving := submitBlock_error hrun
    exact ⟨hsaving.peers, hsaving.memory_iff⟩
  · intro stateMerkleRoot busy msg t h
    refine storeNext_memory_iff ?_ h
    intro peers msg u hnext hrun
    rcases saveBlock_cases (s := s.withPeers peers) hnext hrun with
      ⟨-, hok, -⟩ | ⟨hexec, rfl, -⟩ | ⟨result, hexec, -, hrun⟩
    · cases hok
    · exact ⟨rfl, fun _ => .inl hexec, fun _ => rfl⟩
    · have hsaving := submitBlock_error hrun
      refine ⟨hsaving.peers, hsaving.memory_iff.trans ?_⟩
      constructor
      · exact .inr
      · rintro (hnot | hstops)
        · exact absurd hexec hnot
        · exact hstops

end Memory

/-- A chain with one peer, on which nothing is stored yet. -/
def emptyLedger : LedgerStore openCrypto where
  blockStore := ⟨none, OrderedMap.empty, OrderedMap.empty⟩
  stateStore := .initial OrderedMap.empty
  eventStore := ⟨none, OrderedMap.empty, OrderedMap.empty⟩
  currBlockHeight := 0
  currBlockHash := Uint256.empty
  enableEventLog := true
  headerIndexList := OrderedMap.empty
  storedIndexCount := 0
  headerCache := OrderedMap.empty
  headerIndex := OrderedMap.empty
  vbftPeerInfoblock := samplePeers

def sampleNode : NodeEnv openCrypto where
  consensusType := "vbft"
  networkId := 2
  vbftBlock _ := .ok ⟨none⟩
  cached _ := none

/-- A block without transactions that the peer signed. -/
def emptyBlock (height : UInt32) (prevBlockHash blockRoot : Uint256) : LedgerBlock openCrypto :=
  ⟨⟨⟨0, 1, prevBlockHash, Uint256.empty, Uint256.empty, blockRoot, height, height, 0, [],
    Address.empty⟩, [[1]], [[7]]⟩, []⟩

/-- The block that comes next on a ledger. -/
def nextBlock (s : LedgerStore openCrypto) : LedgerBlock openCrypto :=
  emptyBlock (s.currBlockHeight + 1) s.currBlockHash
    ((s.getBlockRootWithPreBlockHashes (s.currBlockHeight + 1) [s.currBlockHash]).toOption.getD
      Uint256.empty)

/-- The result of a block that writes nothing, with these events. -/
def idleResult (notify : List ExecuteNotify) : ExecuteResult where
  writeSet := OrderedMap.empty
  crossHashes := []
  crossStatesRoot := Uint256.empty
  hash := Uint256.empty
  merkleRoot := Uint256.empty
  notify := notify

/-- The ledger after its genesis block. -/
def genesisLedger : LedgerStore openCrypto :=
  (runFrom (submitBlock (emptyBlock 0 Uint256.empty Uint256.empty) (idleResult []) none)
    emptyLedger).2

/-- The first block, with a block store that cannot commit. -/
def failedFirst : Result Unit × LedgerStore openCrypto :=
  runFrom (SubmitBlock sampleNode (nextBlock genesisLedger) (idleResult [])
    (some ⟨.blockCommit, "no space left on device"⟩)) genesisLedger

theorem failedFirst_error : failedFirst.1 = .error (.error
    "saveBlock error blockStore.CommitTo height:1 error no space left on device") := by
  decide +kernel

/-- A failed commit leaves both Merkle trees with the block that is not stored. -/
theorem failed_commit_memory : ∃ msg t,
    runFrom (SubmitBlock sampleNode (nextBlock genesisLedger) (idleResult [])
      (some ⟨.blockCommit, "no space left on device"⟩)) genesisLedger = (.error (.error msg), t) ∧
      t.memory ≠ genesisLedger.memory := by
  refine ⟨_, failedFirst.2, Prod.ext failedFirst_error rfl, ?_⟩
  intro h
  have hsize := congrArg (fun m => m.merkleTree.treeSize) h
  exact absurd hsize (by decide +kernel)

def returnsError {α : Type} : Result α → Bool
  | .error (.error _) => true
  | _ => false

/-- The first block with another block root. -/
def wrongRootBlock : LedgerBlock openCrypto := emptyBlock 1 genesisLedger.currBlockHash Uint256.empty

/-- A block with a wrong root fails without a trace. -/
theorem failed_submission_memory_wrong_root : ∃ msg t,
    runFrom (SubmitBlock sampleNode wrongRootBlock (idleResult []) none) genesisLedger =
      (.error (.error msg), t) ∧ t.memory = genesisLedger.memory := by
  have hfails : returnsError (runFrom (SubmitBlock sampleNode wrongRootBlock (idleResult []) none)
      genesisLedger).1 = true := by decide +kernel
  obtain ⟨msg, hmsg⟩ : ∃ msg, (runFrom (SubmitBlock sampleNode wrongRootBlock (idleResult []) none)
      genesisLedger).1 = .error (.error msg) := by
    revert hfails
    rcases (runFrom _ genesisLedger).1 with (msg | msg) | a <;> simp [returnsError]
  refine ⟨msg, _, Prod.ext hmsg rfl, ?_⟩
  have hiff := (failed_submission_memory (fun _ => none) sampleNode genesisLedger
    wrongRootBlock none).1 (idleResult []) msg _ (Prod.ext hmsg rfl)
  refine hiff.mpr (.inr ?_)
  intro peers hpeers
  have hverdict : genesisLedger.headerVerdict sampleNode wrongRootBlock.header =
      .ok genesisLedger.vbftPeerInfoblock := by decide +kernel
  exact ⟨ok_unique hpeers hverdict, .inl fun h => h.elim (by decide) (by decide +kernel)⟩

end Poly.Ledger
