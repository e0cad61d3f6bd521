import Poly.Ledger.Restart

/-! `AddBlock`, `SubmitBlock` and `ExecuteBlock` called from several goroutines, which compete for the
saving lock. -/
namespace Poly.Ledger

open Lib Lib.Persist Native Merkle OrderedMap

variable (C : Crypto) (contracts : Contracts)

/-- How far the call of a goroutine has come. -/
inductive CallPhase where
  | idle
  /-- `AddBlock` has found the block to be the next one. -/
  | addChecked (block : LedgerBlock C) (stateMerkleRoot : Uint256)
  /-- It has accepted the header and is going to try the lock. -/
  | addVerified (block : LedgerBlock C) (stateMerkleRoot : Uint256)
  /-- It has got the lock. -/
  | addLocked (block : LedgerBlock C) (stateMerkleRoot : Uint256)
  /-- The stores have the block. -/
  | addCommitted (block : LedgerBlock C) (blockHash : Uint256)
  /-- It is going to give the lock back and to return nil. -/
  | addLeaving (block : LedgerBlock C)
  /-- `SubmitBlock` has got the lock. -/
  | submitLocked (block : LedgerBlock C) (result : ExecuteResult)
  /-- It has accepted the header. -/
  | submitVerified (block : LedgerBlock C) (result : ExecuteResult)
  | submitCommitted (block : LedgerBlock C) (blockHash : Uint256)
  /-- `ExecuteBlock` has got the lock. -/
  | executeLocked (block : LedgerBlock C)

/-- The ledger with the calls that are under way. -/
structure Process where
  ledger : LedgerStore C
  calls : ℕ → CallPhase C
  /-- The goroutine that holds the saving lock. -/
  holder : Option ℕ
  /-- The blocks for which `AddBlock` has returned nil. -/
  returned : List (LedgerBlock C)

inductive CallAction where
  /-- A call with a block begins. -/
  | offer (block : LedgerBlock C)
  /-- `AddBlock` finds the lock taken. -/
  | busy (block : LedgerBlock C)
  | other

variable {C}

namespace Process

variable (s : Process C)

def setCall (g : ℕ) (phase : CallPhase C) : Process C :=
  { s with calls := Function.update s.calls g phase }

def withLedger (ledger : LedgerStore C) : Process C := { s with ledger := ledger }

def lock (g : ℕ) : Process C := { s with holder := some g }

def release : Process C := { s with holder := none }

def returnNil (block : LedgerBlock C) : Process C :=
  { s with returned := block :: s.returned }

@[simp] theorem setCall_self (g : ℕ) (phase : CallPhase C) :
    (s.setCall g phase).calls g = phase := by
  simp only [setCall, Function.update_self]

end Process

/-- One step of goroutine `g`. A call that ends with an error leaves no trace but in the ledger. -/
inductive CallStep (g : ℕ) : Process C → CallAction C → Process C → Prop
  | addOld {s : Process C} {block : LedgerBlock C} (hcall : s.calls g = .idle)
      (hold : block.header.height ≤ s.ledger.currBlockHeight) :
      CallStep g s (.offer block) (s.returnNil block)
  | addCheck {s : Process C} {block : LedgerBlock C} {stateMerkleRoot : Uint256}
      (hcall : s.calls g = .idle) (hold : ¬ block.header.height ≤ s.ledger.currBlockHeight)
      (hnext : block.header.height = s.ledger.currBlockHeight + 1) :
      CallStep g s (.offer block) (s.setCall g (.addChecked block stateMerkleRoot))
  | addVerify {s : Process C} {env : NodeEnv C} {block : LedgerBlock C} {stateMerkleRoot : Uint256}
      {peers : PeerInfo} (hcall : s.calls g = .addChecked block stateMerkleRoot)
      (hverdict : s.ledger.headerVerdict env block.header = .ok peers) :
      CallStep g s .other ((s.withLedger (s.ledger.withPeers peers)).setCall g
        (.addVerified block stateMerkleRoot))
  | addRefuse {s : Process C} {env : NodeEnv C} {block : LedgerBlock C} {stateMerkleRoot : Uint256}
      {e : Failure} (hcall : s.calls g = .addChecked block stateMerkleRoot)
      (hverdict : s.ledger.headerVerdict env block.header = .error e) :
      CallStep g s .other (s.setCall g .idle)
  | addBusy {s : Process C} {block : LedgerBlock C} {stateMerkleRoot blockHash : Uint256}
      (hcall : s.calls g = .addVerified block stateMerkleRoot) (hbusy : s.holder ≠ none)
      (hhash : block.header.hash C.sha256 = .ok blockHash) :
      CallStep g s (.busy block)
        (((s.withLedger (s.ledger.delHeaderCache blockHash)).setCall g .idle).returnNil block)
  | addLock {s : Process C} {block : LedgerBlock C} {stateMerkleRoot : Uint256}
      (hcall : s.calls g = .addVerified block stateMerkleRoot) (hfree : s.holder = none) :
      CallStep g s .other ((s.lock g).setCall g (.addLocked block stateMerkleRoot))
  | addStale {s : Process C} {block : LedgerBlock C} {stateMerkleRoot : Uint256}
      (hcall : s.calls g = .addLocked block stateMerkleRoot)
      (hstale : block.header.height > 0 ∧ block.header.height ≠ s.ledger.currBlockHeight + 1) :
      CallStep g s .other (s.setCall g (.addLeaving block))
  | addCommit {s : Process C} {block : LedgerBlock C} {stateMerkleRoot blockHash : Uint256}
      {result : ExecuteResult} {fault : Option Fault} {t : LedgerStore C}
      (hcall : s.calls g = .addLocked block stateMerkleRoot)
      (hstale : ¬ (block.header.height > 0 ∧ block.header.height ≠ s.ledger.currBlockHeight + 1))
      (hexec : executeBlock C contracts s.ledger.stateStore block = .ok result)
      (hroot : result.merkleRoot = stateMerkleRoot)
      (hcommit : runFrom (commitBlock block result fault) s.ledger = (.ok blockHash, t)) :
      CallStep g s .other ((s.withLedger t).setCall g (.addCommitted block blockHash))
  | addFail {s : Process C} {block : LedgerBlock C} {stateMerkleRoot : Uint256}
      {result : ExecuteResult} {fault : Option Fault} {e : Failure} {t : LedgerStore C}
      (hcall : s.calls g = .addLocked block stateMerkleRoot)
      (hstale : ¬ (block.header.height > 0 ∧ block.header.height ≠ s.ledger.currBlockHeight + 1))
      (hexec : executeBlock C contracts s.ledger.stateStore block = .ok result)
      (hroot : result.merkleRoot = stateMerkleRoot)
      (hcommit : runFrom (commitBlock block result fault) s.ledger = (.error e, t)) :
      CallStep g s .other (((s.withLedger t).setCall g .idle).release)
  /-- The block does not execute, or not to the expected root. -/
  | addReject {s : Process C} {block : LedgerBlock C} {stateMerkleRoot : Uint256}
      (hcall : s.calls g = .addLocked block stateMerkleRoot)
      (hexec : ¬ Executes contracts s.ledger block stateMerkleRoot) :
      CallStep g s .other ((s.setCall g .idle).release)
  | addSetCurrent {s : Process C} {block : LedgerBlock C} {blockHash : Uint256}
      (hcall : s.calls g = .addCommitted block blockHash) :
      CallStep g s .other
        ((s.withLedger (s.ledger.setCurrentBlock block.header.height blockHash)).setCall g
          (.addLeaving block))
  | addLeave {s : Process C} {block : LedgerBlock C} {blockHash : Uint256}
      (hcall : s.calls g = .addLeaving block)
      (hhash : block.header.hash C.sha256 = .ok blockHash) :
      CallStep g s .other ((((s.withLedger (s.ledger.delHeaderCache blockHash)).setCall g
        .idle).release).returnNil block)
  | submitLock {s : Process C} {block : LedgerBlock C} {result : ExecuteResult}
      (hcall : s.calls g = .idle) (hfree : s.holder = none) :
      CallStep g s (.offer block) ((s.lock g).setCall g (.submitLocked block result))
  | submitVerify {s : Process C} {env : NodeEnv C} {block : LedgerBlock C} {result : ExecuteResult}
      {peers : PeerInfo} (hcall : s.calls g = .submitLocked block result)
      (hold : ¬ block.header.height ≤ s.ledger.currBlockHeight)
      (hnext : block.header.height = s.ledger.currBlockHeight + 1)
      (hverdict : s.ledger.headerVerdict env block.header = .ok peers) :
      CallStep g s .other ((s.withLedger (s.ledger.withPeers peers)).setCall g
        (.submitVerified block result))
  /-- The block is an old one, not the next one, or its header is refused. -/
  | submitEnd {s : Process C} {block : LedgerBlock C} {result : ExecuteResult}
      (hcall : s.calls g = .submitLocked block result)
      (hend : block.header.height ≤ s.ledger.currBlockHeight ∨
        block.header.height ≠ s.ledger.currBlockHeight + 1 ∨
        ∃ env e, s.ledger.headerVerdict env block.header = .error e) :
      CallStep g s .other ((s.setCall g .idle).release)
  | submitCommit {s : Process C} {block : LedgerBlock C} {result : ExecuteResult}
      {fault : Option Fault} {blockHash : Uint256} {t : LedgerStore C}
      (hcall : s.calls g = .submitVerified block result)
      (hcommit : runFrom (commitBlock block result fault) s.ledger = (.ok blockHash, t)) :
      CallStep g s .other ((s.withLedger t).setCall g (.submitCommitted block blockHash))
  | submitFail {s : Process C} {block : LedgerBlock C} {result : ExecuteResult}
      {fault : Option Fault} {e : Failure} {t : LedgerStore C}
      (hcall : s.calls g = .submitVerified block result)
      (hcommit : runFrom (commitBlock block result fault) s.ledger = (.error e, t)) :
      CallStep g s .other (((s.withLedger t).setCall g .idle).release)
  | submitSetCurrent {s : Process C} {block : LedgerBlock C} {blockHash : Uint256}
      (hcall : s.calls g = .submitCommitted block blockHash) :
      CallStep g s .other (((s.withLedger ((s.ledger.setCurrentBlock block.header.height
        blockHash).delHeaderCache blockHash)).setCall g .idle).release)
  | executeLock {s : Process C} {block : LedgerBlock C} (hcall : s.calls g = .idle)
      (hfree : s.holder = none) :
      CallStep g s .other ((s.lock g).setCall g (.executeLocked block))
  | executeEnd {s : Process C} {block : LedgerBlock C} (hcall : s.calls g = .executeLocked block) :
      CallStep g s .other ((s.setCall g .idle).release)

/-- The block store finds the block under its height and its hash. -/
def StoredAt (bs : BlockStore C) (block : LedgerBlock C) : Prop :=
  ∃ blockHash, block.header.hash C.sha256 = .ok blockHash ∧
    bs.getBlockHash block.header.height = .ok blockHash ∧ bs.getBlock blockHash = .ok block

/-- The states of a process that starts on a ledger whose blocks are those of the chain. -/
inductive CallRun (chain : UInt32 → LedgerBlock C) (allowed : CallAction C → Prop) :
    Process C → Prop
  | start {ledger : LedgerStore C}
      (hchain : ∀ i ≤ ledger.currBlockHeight, StoredAt ledger.blockStore (chain i)) :
      CallRun chain allowed ⟨ledger, fun _ => .idle, none, []⟩
  | step {g : ℕ} {s t : Process C} {a : CallAction C} (h : CallRun chain allowed s)
      (ha : allowed a) (hst : CallStep contracts g s a t) : CallRun chain allowed t

/-- Only blocks of the chain are offered. -/
def Offered (chain : UInt32 → LedgerBlock C) : CallAction C → Prop
  | .offer block => block = chain block.header.height
  | .busy _ | .other => True

/-- Only blocks of the chain are offered, and `AddBlock` never finds the lock taken. -/
def Uncontended (chain : UInt32 → LedgerBlock C) : CallAction C → Prop
  | .offer block => block = chain block.header.height
  | .busy _ => False
  | .other => True

/-- No two blocks of the chain have the same hash. -/
def CollisionFree (chain : UInt32 → LedgerBlock C) : Prop :=
  ∀ i j blockHash, (chain i).header.hash C.sha256 = .ok blockHash →
    (chain j).header.hash C.sha256 = .ok blockHash → i = j

def ChainNumbered (chain : UInt32 → LedgerBlock C) : Prop := ∀ i, (chain i).header.height = i

section Store

variable {chain : UInt32 → LedgerBlock C} {s t : LedgerStore C} {block : LedgerBlock C}
  {result : ExecuteResult} {fault : Option Fault}

/-- Saving a block leaves the block store alone or puts the block into it. -/
theorem Saving.blockStore_cases {r} (h : Saving s block result fault r t) :
    t.currBlockHeight = s.currBlockHeight ∧
      ((∀ blockHash, r ≠ .ok blockHash) ∧ t.blockStore = s.blockStore ∨
        ∃ blockHash, block.header.hash C.sha256 = .ok blockHash ∧
          t.blockStore = ⟨some (blockHash, block.header.height),
            s.blockStore.blockHash.insert block.header.height blockHash,
            s.blockStore.blocks.insert blockHash block⟩) := by
  cases h with
  | headerPanic | refused | notify | treePanic => exact ⟨rfl, .inl ⟨nofun, rfl⟩⟩
  | saved hhash => exact ⟨rfl, .inr ⟨_, hhash, rfl⟩⟩
  | commit point hhash hroot htrees hfault hpoint =>
    cases point with
    | saveNotify => exact absurd rfl hpoint
    | blockCommit => exact ⟨rfl, .inl ⟨nofun, rfl⟩⟩
    | eventCommit | stateCommit => exact ⟨rfl, .inr ⟨_, hhash, rfl⟩⟩

theorem storedAt_inserted {bs : BlockStore C} {blockHash}
    (hhash : block.header.hash C.sha256 = .ok blockHash) (current : Option (Uint256 × UInt32)) :
    StoredAt ⟨current, bs.blockHash.insert block.header.height blockHash,
      bs.blocks.insert blockHash block⟩ block := by
  refine ⟨blockHash, hhash, ?_, ?_⟩ <;> exact orFail_ok.mpr (get_insert_self _ _ _)

/-- A block of the chain is still found after another one was put in. -/
theorem StoredAt.insert {bs blockHash i j} (hnum : ChainNumbered chain)
    (hcoll : CollisionFree chain) (hne : i ≠ j)
    (hhash : (chain j).header.hash C.sha256 = .ok blockHash) (current : Option (Uint256 × UInt32))
    (h : StoredAt bs (chain i)) :
    StoredAt ⟨current, bs.blockHash.insert (chain j).header.height blockHash,
      bs.blocks.insert blockHash (chain j)⟩ (chain i) := by
  obtain ⟨hash, hi, hget, hblock⟩ := h
  have hheight : (chain i).header.height ≠ (chain j).header.height := by
    rw [hnum i, hnum j]
    exact hne
  have hhashes : hash ≠ blockHash := by
    rintro rfl
    exact hne (hcoll i j hash hi hhash)
  refine ⟨hash, hi, orFail_ok.mpr ?_, orFail_ok.mpr ?_⟩
  · rw [get_insert_of_ne _ _ hheight]
    exact orFail_ok.mp hget
  · rw [get_insert_of_ne _ _ hhashes]
    exact orFail_ok.mp hblock

/-- Whatever saving the next block comes to, the blocks before it are still found; if it succeeds the
block is found too. -/
theorem Saving.keeps_chain {r : Result Uint256} (hsaving : Saving s block result fault r t)
    (hnum : ChainNumbered chain) (hcoll : CollisionFree chain)
    (hblock : block = chain block.header.height)
    (hnext : block.header.height.toNat = s.currBlockHeight.toNat + 1)
    (hstored : ∀ i ≤ s.currBlockHeight, StoredAt s.blockStore (chain i)) :
    t.currBlockHeight = s.currBlockHeight ∧
      (∀ i ≤ s.currBlockHeight, StoredAt t.blockStore (chain i)) ∧
      ∀ blockHash, r = .ok blockHash → StoredAt t.blockStore block := by
  obtain ⟨hcurr, ⟨hfail, hbs⟩ | ⟨hash, hhash, hbs⟩⟩ := hsaving.blockStore_cases
  · rw [hbs]
    exact ⟨hcurr, hstored, fun h he => absurd he (hfail h)⟩
  · rw [hbs]
    refine ⟨hcurr, ?_, fun _ _ => storedAt_inserted hhash _⟩
    intro i hi
    have hne : i ≠ block.header.height := by
      rintro rfl
      have hle := UInt32.le_iff_toNat_le.mp hi
      omega
    have hhash' : (chain block.header.height).header.hash C.sha256 = .ok hash := hblock ▸ hhash
    have hput := (hstored i hi).insert hnum hcoll hne hhash' (some (hash, block.header.height))
    rw [← hblock] at hput
    exact hput

end Store

section Invariant

variable {chain : UInt32 → LedgerBlock C} {s t : Process C} {g : ℕ} {a : CallAction C}

def CallPhase.HoldsLock : CallPhase C → Prop
  | .idle | .addChecked _ _ | .addVerified _ _ => False
  | .addLocked _ _ | .addCommitted _ _ | .addLeaving _ | .submitLocked _ _ | .submitVerified _ _
  | .submitCommitted _ _ | .executeLocked _ => True

/-- A goroutine that has got the lock is the one that holds it. -/
def LockInv (s : Process C) : Prop := ∀ g, (s.calls g).HoldsLock → s.holder = some g

variable {phase : CallPhase C}

theorem lockInv_update (hcalls : t.calls = Function.update s.calls g phase) :
    LockInv t ↔ (phase.HoldsLock → t.holder = some g) ∧
      ∀ g' ≠ g, (s.calls g').HoldsLock → t.holder = some g' := by
  rw [LockInv, hcalls]
  exact Function.forall_update_iff _ (p := fun g' (x : CallPhase C) => x.HoldsLock → t.holder = some g')

theorem LockInv.keep (h : LockInv s) (hcalls : t.calls = Function.update s.calls g phase)
    (hholder : t.holder = s.holder) (hphase : phase.HoldsLock → (s.calls g).HoldsLock) :
    LockInv t := by
  rw [lockInv_update hcalls, hholder]
  exact ⟨fun hg => h g (hphase hg), fun g' _ => h g'⟩

theorem LockInv.take (h : LockInv s) (hfree : s.holder = none)
    (hcalls : t.calls = Function.update s.calls g phase) (hholder : t.holder = some g) :
    LockInv t := by
  rw [lockInv_update hcalls]
  refine ⟨fun _ => hholder, fun g' _ hg' => ?_⟩
  cases hfree.symm.trans (h g' hg')

theorem LockInv.alone (h : LockInv s) (hg : (s.calls g).HoldsLock) {g' : ℕ} (hne : g' ≠ g) :
    ¬ (s.calls g').HoldsLock :=
  fun hg' => hne (Option.some.inj ((h g' hg').symm.trans (h g hg)))

theorem LockInv.free (h : LockInv s) (hg : (s.calls g).HoldsLock)
    (hcalls : t.calls = Function.update s.calls g .idle) : LockInv t := by
  rw [lockInv_update hcalls]
  exact ⟨False.elim, fun g' hne hg' => absurd hg' (h.alone hg hne)⟩

theorem LockInv.step (h : LockInv s) (hst : CallStep contracts g s a t) : LockInv t := by
  cases hst with
  | addOld => exact h
  | addCheck | addVerify | addRefuse | addBusy => exact h.keep rfl rfl False.elim
  | addLock _ hfree | submitLock _ hfree | executeLock _ hfree => exact h.take hfree rfl rfl
  | addStale hcall | addCommit hcall | addSetCurrent hcall | submitVerify hcall
  | submitCommit hcall => exact h.keep rfl rfl fun _ => hcall ▸ trivial
  | addFail hcall | addReject hcall | addLeave hcall | submitEnd hcall | submitFail hcall
  | submitSetCurrent hcall | executeEnd hcall => exact h.free (hcall ▸ trivial) rfl

/-- The block is one of the chain and the ledger has come to its height. -/
def Reached (chain : UInt32 → LedgerBlock C) (ledger : LedgerStore C) (block : LedgerBlock C) : Prop :=
  block = chain block.header.height ∧ block.header.height ≤ ledger.currBlockHeight

/-- What is known of a call at each of its phases. -/
def PhaseInv (chain : UInt32 → LedgerBlock C) (ledger : LedgerStore C) : CallPhase C → Prop
  | .idle | .executeLocked _ => True
  | .addChecked block _ | .addVerified block _ | .addLocked block _ =>
    block = chain block.header.height ∧ 0 < block.header.height.toNat ∧
      block.header.height.toNat ≤ ledger.currBlockHeight.toNat + 1
  | .addLeaving block => Reached chain ledger block
  | .submitLocked block _ => block = chain block.header.height
  | .submitVerified block _ =>
    block = chain block.header.height ∧
      block.header.height.toNat = ledger.currBlockHeight.toNat + 1
  | .addCommitted block _ | .submitCommitted block _ =>
    block = chain block.header.height ∧
      block.header.height.toNat = ledger.currBlockHeight.toNat + 1 ∧
      StoredAt ledger.blockStore block

structure CallInv (chain : UInt32 → LedgerBlock C) (s : Process C) : Prop where
  stored : ∀ i ≤ s.ledger.currBlockHeight, StoredAt s.ledger.blockStore (chain i)
  phase : ∀ g, PhaseInv chain s.ledger (s.calls g)
  returned : ∀ block ∈ s.returned, Reached chain s.ledger block

theorem PhaseInv.congr {ledger ledger'} (hcurr : ledger'.currBlockHeight = ledger.currBlockHeight)
    (hbs : ledger'.blockStore = ledger.blockStore) (h : PhaseInv chain ledger phase) :
    PhaseInv chain ledger' phase := by
  unfold PhaseInv Reached at h ⊢
  rw [hcurr, hbs]
  exact h

theorem PhaseInv.mono {ledger ledger'} (hle : ledger.currBlockHeight ≤ ledger'.currBlockHeight)
    (hfree : ¬ phase.HoldsLock) (h : PhaseInv chain ledger phase) :
    PhaseInv chain ledger' phase := by
  have hle := UInt32.le_iff_toNat_le.mp hle
  cases phase with
  | idle => trivial
  | addChecked | addVerified => exact ⟨h.1, h.2.1, h.2.2.trans (by omega)⟩
  | _ => exact absurd trivial hfree

/-- A goroutine moves on and the ledger with it. -/
theorem CallInv.move (h : CallInv chain s) (hcalls : t.calls = Function.update s.calls g phase)
    (hreturned : t.returned = s.returned)
    (hle : s.ledger.currBlockHeight ≤ t.ledger.currBlockHeight)
    (hstored : ∀ i ≤ t.ledger.currBlockHeight, StoredAt t.ledger.blockStore (chain i))
    (hphase : PhaseInv chain t.ledger phase)
    (hothers : ∀ g' ≠ g, PhaseInv chain t.ledger (s.calls g')) : CallInv chain t := by
  refine ⟨hstored, ?_, ?_⟩
  · rw [hcalls, Function.forall_update_iff]
    exact ⟨hphase, hothers⟩
  · rw [hreturned]
    exact fun block hblock => (h.returned block hblock).imp_right fun hold => hold.trans hle

/-- A goroutine moves on and the chain in the ledger stays as it is. -/
theorem CallInv.still (h : CallInv chain s) (hcalls : t.calls = Function.update s.calls g phase)
    (hreturned : t.returned = s.returned)
    (hcurr : t.ledger.currBlockHeight = s.ledger.currBlockHeight)
    (hbs : t.ledger.blockStore = s.ledger.blockStore) (hphase : PhaseInv chain s.ledger phase) :
    CallInv chain t := by
  refine h.move hcalls hreturned hcurr.ge ?_ (hphase.congr hcurr hbs)
    fun g' _ => (h.phase g').congr hcurr hbs
  rw [hcurr, hbs]
  exact h.stored

/-- The goroutine with the lock moves on and the ledger with it; no other call depends on what is
not yet current. -/
theorem CallInv.advance (h : CallInv chain s) (hlock : LockInv s) (hg : (s.calls g).HoldsLock)
    (hcalls : t.calls = Function.update s.calls g phase) (hreturned : t.returned = s.returned)
    (hle : s.ledger.currBlockHeight ≤ t.ledger.currBlockHeight)
    (hstored : ∀ i ≤ t.ledger.currBlockHeight, StoredAt t.ledger.blockStore (chain i))
    (hphase : PhaseInv chain t.ledger phase) : CallInv chain t :=
  h.move hcalls hreturned hle hstored hphase fun g' hne =>
    (h.phase g').mono hle (hlock.alone hg hne)

variable {block : LedgerBlock C}

theorem CallInv.returnNil (h : CallInv chain s) (hblock : Reached chain s.ledger block) :
    CallInv chain (s.returnNil block) := by
  exact ⟨h.stored, h.phase, List.forall_mem_cons.mpr ⟨hblock, h.returned⟩⟩

theorem CallInv.commit (h : CallInv chain s) (hlock : LockInv s) (hg : (s.calls g).HoldsLock)
    (hnum : ChainNumbered chain) (hcoll : CollisionFree chain) {result fault r}
    (hblock : block = chain block.header.height)
    (hnext : block.header.height.toNat = s.ledger.currBlockHeight.toNat + 1)
    (hcommit : runFrom (commitBlock block result fault) s.ledger = (r, t.ledger))
    (hcalls : t.calls = Function.update s.calls g phase) (hreturned : t.returned = s.returned)
    (hphase : t.ledger.currBlockHeight = s.ledger.currBlockHeight →
      (∀ blockHash, r = .ok blockHash → StoredAt t.ledger.blockStore block) →
      PhaseInv chain t.ledger phase) : CallInv chain t := by
  obtain ⟨hcurr, hstored, hnew⟩ :=
    (commitBlock_saving hcommit).keeps_chain hnum hcoll hblock hnext h.stored
  refine h.advance hlock hg hcalls hreturned hcurr.ge ?_ (hphase hcurr hnew)
  intro i hi
  exact hstored i (hcurr ▸ hi)

theorem CallInv.setCurrent (h : CallInv chain s) (hlock : LockInv s) (hg : (s.calls g).HoldsLock)
    (hblock : block = chain block.header.height)
    (hnext : block.header.height.toNat = s.ledger.currBlockHeight.toNat + 1)
    (hstored : StoredAt s.ledger.blockStore block)
    (hcalls : t.calls = Function.update s.calls g phase) (hreturned : t.returned = s.returned)
    (hcurr : t.ledger.currBlockHeight = block.header.height)
    (hbs : t.ledger.blockStore = s.ledger.blockStore) (hphase : PhaseInv chain t.ledger phase) :
    CallInv chain t := by
  refine h.advance hlock hg hcalls hreturned ?_ ?_ hphase
  · rw [hcurr]
    exact UInt32.le_iff_toNat_le.mpr (by omega)
  · intro i hi
    rw [hcurr] at hi
    rw [hbs]
    by_cases he : i = block.header.height
    · rw [he, ← hblock]
      exact hstored
    · have hle := UInt32.le_iff_toNat_le.mp hi
      have hne : i.toNat ≠ block.header.height.toNat := fun hn => he (UInt32.toNat_inj.mp hn)
      exact h.stored i (UInt32.le_iff_toNat_le.mpr (by omega))

theorem next_of_not_stale {height curr : UInt32} (hpos : 0 < height.toNat)
    (hstale : ¬ (height > 0 ∧ height ≠ curr + 1)) : height.toNat = curr.toNat + 1 := by
  have hgt : height > 0 := UInt32.lt_iff_toNat_lt.mpr hpos
  have hnext : height = curr + 1 := by
    by_contra hne
    exact hstale ⟨hgt, hne⟩
  have hadd := congrArg UInt32.toNat hnext
  rw [UInt32.toNat_add, UInt32.toNat_one] at hadd
  have hbound := curr.toNat_lt
  omega

theorem le_of_stale {height curr : UInt32} (hle : height.toNat ≤ curr.toNat + 1)
    (hne : height ≠ curr + 1) : height ≤ curr := by
  refine UInt32.le_iff_toNat_le.mpr ?_
  by_contra hgt
  have heq : height.toNat = curr.toNat + 1 := by omega
  have hbound := height.toNat_lt
  apply hne
  apply UInt32.toNat_inj.mp
  rw [UInt32.toNat_add, UInt32.toNat_one, Nat.mod_eq_of_lt (by omega)]
  exact heq

theorem CallInv.step (hnum : ChainNumbered chain) (hcoll : CollisionFree chain)
    (h : CallInv chain s) (hlock : LockInv s) (ha : Uncontended chain a)
    (hst : CallStep contracts g s a t) : CallInv chain t := by
  have hphase := h.phase g
  cases hst with
  | addOld hcall hold => exact h.returnNil ⟨ha, hold⟩
  | addCheck hcall hold hnext =>
    have hheight := next_toNat hold hnext
    refine h.still rfl rfl rfl rfl ?_
    exact ⟨ha, by omega, by omega⟩
  | addVerify hcall | addLock hcall =>
    rw [hcall] at hphase
    refine h.still rfl rfl rfl rfl ?_
    exact hphase
  | addRefuse | addReject | submitEnd | executeLock | executeEnd =>
    refine h.still rfl rfl rfl rfl ?_
    trivial
  | addBusy => exact ha.elim
  | addStale hcall hstale =>
    rw [hcall] at hphase
    refine h.still rfl rfl rfl rfl ?_
    exact ⟨hphase.1, le_of_stale hphase.2.2 hstale.2⟩
  | addCommit hcall hstale hexec hroot hcommit =>
    rw [hcall] at hphase
    have hnext := next_of_not_stale hphase.2.1 hstale
    refine h.commit hlock (hcall ▸ trivial) hnum hcoll hphase.1 hnext hcommit rfl rfl ?_
    intro hcurr hnew
    exact ⟨hphase.1, hcurr ▸ hnext, hnew _ rfl⟩
  | addFail hcall hstale hexec hroot hcommit =>
    rw [hcall] at hphase
    have hnext := next_of_not_stale hphase.2.1 hstale
    refine h.commit hlock (hcall ▸ trivial) hnum hcoll hphase.1 hnext hcommit rfl rfl ?_
    intro _ _
    trivial
  | addSetCurrent hcall =>
    rw [hcall] at hphase
    refine h.setCurrent hlock (hcall ▸ trivial) hphase.1 hphase.2.1 hphase.2.2 rfl rfl rfl rfl ?_
    exact ⟨hphase.1, le_rfl⟩
  | addLeave hcall hhash =>
    rw [hcall] at hphase
    refine CallInv.returnNil ?_ hphase
    refine h.still rfl rfl rfl rfl ?_
    trivial
  | submitLock hcall hfree =>
    refine h.still rfl rfl rfl rfl ?_
    exact ha
  | submitVerify hcall hold hnext hverdict =>
    rw [hcall] at hphase
    refine h.still rfl rfl rfl rfl ?_
    exact ⟨hphase, next_toNat hold hnext⟩
  | submitCommit hcall hcommit =>
    rw [hcall] at hphase
    refine h.commit hlock (hcall ▸ trivial) hnum hcoll hphase.1 hphase.2 hcommit rfl rfl ?_
    intro hcurr hnew
    exact ⟨hphase.1, hcurr ▸ hphase.2, hnew _ rfl⟩
  | submitFail hcall hcommit =>
    rw [hcall] at hphase
    refine h.commit hlock (hcall ▸ trivial) hnum hcoll hphase.1 hphase.2 hcommit rfl rfl ?_
    intro _ _
    trivial
  | submitSetCurrent hcall =>
    rw [hcall] at hphase
    refine h.setCurrent hlock (hcall ▸ trivial) hphase.1 hphase.2.1 hphase.2.2 rfl rfl rfl rfl ?_
    trivial

theorem CallRun.inv (hnum : ChainNumbered chain) (hcoll : CollisionFree chain)
    (h : CallRun contracts chain (Uncontended chain) s) : CallInv chain s ∧ LockInv s := by
  induction h with
  | start hchain =>
    refine ⟨⟨hchain, fun _ => trivial, nofun⟩, ?_⟩
    intro g hg
    exact hg.elim
  | step _ ha hst ih => exact ⟨ih.1.step contracts hnum hcoll ih.2 ha hst, ih.2.step contracts hst⟩

/-- While `AddBlock` never meets a taken lock and all blocks come from one chain, a block for which it
has returned nil is stored. -/
theorem addBlock_nil_stored (hnum : ChainNumbered chain) (hcoll : CollisionFree chain)
    (h : CallRun contracts chain (Uncontended chain) s) {block : LedgerBlock C}
    (hblock : block ∈ s.returned) :
    block.header.height ≤ s.ledger.currBlockHeight ∧ StoredAt s.ledger.blockStore block := by
  obtain ⟨hinv, -⟩ := h.inv contracts hnum hcoll
  obtain ⟨hchain, hle⟩ := hinv.returned block hblock
  refine ⟨hle, ?_⟩
  rw [hchain]
  exact hinv.stored _ hle

end Invariant

def genesisBlock : LedgerBlock openCrypto := emptyBlock 0 Uint256.empty Uint256.empty

/-- The genesis block, the block after it, and blocks of other chain IDs. -/
def sampleBlocks (i : UInt32) : LedgerBlock openCrypto :=
  if i = 0 then genesisBlock
  else if i = 1 then nextBlock genesisLedger
  else ⟨{ (emptyBlock i Uint256.empty Uint256.empty).header with chainID := i.toUInt64 }, []⟩

theorem sampleBlocks_numbered : ChainNumbered sampleBlocks := by
  intro i
  unfold sampleBlocks
  split_ifs with hzero hone
  · exact hzero.symm
  · rw [hone]
    decide +kernel
  · rfl

theorem sampleBlocks_chainID (i : UInt32) : (sampleBlocks i).header.version = 0 ∧
    (sampleBlocks i).header.chainID = if i = 0 ∨ i = 1 then 1 else i.toUInt64 := by
  unfold sampleBlocks
  by_cases hzero : i = 0
  · rw [if_pos hzero, if_pos (.inl hzero)]
    exact ⟨rfl, rfl⟩
  by_cases hone : i = 1
  · rw [if_neg hzero, if_pos hone, if_pos (.inr hone)]
    exact ⟨rfl, rfl⟩
  · have hlater : ¬ (i = 0 ∨ i = 1) := not_or.mpr ⟨hzero, hone⟩
    rw [if_neg hzero, if_neg hone, if_neg hlater]
    exact ⟨rfl, rfl⟩

theorem sampleBlocks_first_ne {hash}
    (hzero : (sampleBlocks 0).header.hash openCrypto.sha256 = .ok hash)
    (hone : (sampleBlocks 1).header.hash openCrypto.sha256 = .ok hash) : False := by
  have hne : genesisBlock.header.hash openCrypto.sha256 ≠
      (nextBlock genesisLedger).header.hash openCrypto.sha256 := by decide +kernel
  exact hne (hzero.trans hone.symm)

theorem sampleBlocks_collisionFree : CollisionFree sampleBlocks := by
  intro i j hash hi hj
  obtain ⟨hversioni, hidi⟩ := sampleBlocks_chainID i
  obtain ⟨hversionj, hidj⟩ := sampleBlocks_chainID j
  have htake := (hash_take hi).symm.trans (hash_take hj)
  rw [hversioni, hversionj] at htake
  have hid := UInt64.toNat_inj.mp (leBytes_inj (UInt64.toNat_lt _) (UInt64.toNat_lt _)
    (List.append_cancel_left htake))
  rw [hidi, hidj] at hid
  split_ifs at hid with hfirsti hfirstj hfirstj
  · rcases hfirsti with rfl | rfl <;> rcases hfirstj with rfl | rfl
    · rfl
    · exact (sampleBlocks_first_ne hi hj).elim
    · exact (sampleBlocks_first_ne hj hi).elim
    · rfl
  · have hone := congrArg UInt64.toNat hid
    exact absurd (.inr (UInt32.toNat_inj.mp hone.symm)) hfirstj
  · have hone := congrArg UInt64.toNat hid
    exact absurd (.inr (UInt32.toNat_inj.mp hone)) hfirsti
  · have hsame := congrArg UInt64.toNat hid
    exact UInt32.toNat_inj.mp hsame

theorem genesisLedger_height : genesisLedger.currBlockHeight = 0 := by decide +kernel

theorem genesisLedger_stored (i : UInt32) (hi : i ≤ genesisLedger.currBlockHeight) :
    StoredAt genesisLedger.blockStore (sampleBlocks i) := by
  rw [genesisLedger_height] at hi
  obtain rfl : i = 0 := UInt32.le_zero_iff.mp hi
  obtain ⟨blockHash, t, hsaving, heq⟩ := submitBlock_ok genesisLedger_run
  cases hsaving with
  | saved hhash =>
    rw [heq]
    exact storedAt_inserted hhash _

def firstBlock : LedgerBlock openCrypto := nextBlock genesisLedger

theorem firstBlock_next : firstBlock.header.height = genesisLedger.currBlockHeight + 1 ∧
    ¬ firstBlock.header.height ≤ genesisLedger.currBlockHeight := by
  decide +kernel

theorem firstBlock_of_chain : firstBlock = sampleBlocks firstBlock.header.height := by
  rw [firstBlock_next.1, genesisLedger_height]
  rfl

/-- The process before any call. -/
def idleProcess : Process openCrypto := ⟨genesisLedger, fun _ => .idle, none, []⟩

/-- Goroutine 1 adds the first block and is going to try the lock. -/
def adding (s : Process openCrypto) (stateMerkleRoot : Uint256) : Process openCrypto :=
  (((s.setCall 1 (.addChecked firstBlock stateMerkleRoot)).withLedger
    (s.ledger.withPeers samplePeers)).setCall 1 (.addVerified firstBlock stateMerkleRoot))

theorem adding_run {allowed : CallAction openCrypto → Prop} {s}
    (h : CallRun (fun _ => none) sampleBlocks allowed s) (hoffer : allowed (.offer firstBlock))
    (hother : allowed .other) (hledger : s.ledger = genesisLedger) (hidle : s.calls 1 = .idle)
    (stateMerkleRoot : Uint256) :
    CallRun (fun _ => none) sampleBlocks allowed (adding s stateMerkleRoot) := by
  have hzero : genesisLedger.currBlockHeight.toNat + 2 < 2 ^ 32 := by
    rw [genesisLedger_height]
    decide
  have hcheck : CallStep (fun _ => none) 1 s (.offer firstBlock)
      (s.setCall 1 (.addChecked firstBlock stateMerkleRoot)) := by
    apply CallStep.addCheck hidle
    · rw [hledger]
      exact firstBlock_next.2
    · rw [hledger]
      exact firstBlock_next.1
  have hverify : CallStep (fun _ => none) 1 (s.setCall 1 (.addChecked firstBlock stateMerkleRoot))
      .other (adding s stateMerkleRoot) := by
    apply CallStep.addVerify
    · exact s.setCall_self 1 _
    · change s.ledger.headerVerdict sampleNode firstBlock.header = _
      rw [hledger]
      exact genesisLedger_good.verdict hzero
  exact (h.step hoffer hcheck).step hother hverify

/-- While one goroutine executes a block another one adds it: `AddBlock` finds the lock taken and
returns nil for a block that nobody stores. -/
theorem addBlock_nil_not_stored : ∃ (s : Process openCrypto) (block : LedgerBlock openCrypto),
    CallRun (fun _ => none) sampleBlocks (Offered sampleBlocks) s ∧
      block ∈ s.returned ∧ s.ledger.currBlockHeight < block.header.height ∧
      ¬ StoredAt s.ledger.blockStore block := by
  obtain ⟨blockHash, hhash, -⟩ := nextBlock_hash genesisLedger
  have hstart : CallRun (fun _ => none) sampleBlocks (Offered sampleBlocks) idleProcess :=
    .start genesisLedger_stored
  have hexec : CallStep (fun _ => none) 0 idleProcess .other
      ((idleProcess.lock 0).setCall 0 (.executeLocked firstBlock)) := .executeLock rfl rfl
  have hadding := adding_run (hstart.step (a := .other) trivial hexec) firstBlock_of_chain trivial rfl rfl
    Uint256.empty
  have hbusy := hadding.step (a := .busy firstBlock) trivial
    (.addBusy (Process.setCall_self _ 1 _) (Option.some_ne_none 0) hhash)
  refine ⟨_, firstBlock, hbusy, List.mem_singleton_self _, not_le.mp firstBlock_next.2, ?_⟩
  rintro ⟨hash, -, hget, -⟩
  have hnone : genesisLedger.blockStore.blockHash.get firstBlock.header.height = none := by
    decide +kernel
  have hsome := orFail_ok.mp hget
  cases hnone.symm.trans hsome

/-- The next block executes, and with working stores it is committed. -/
theorem firstBlock_commits : ∃ result blockHash t,
    executeBlock openCrypto (fun _ => none) genesisLedger.stateStore firstBlock = .ok result ∧
      runFrom (commitBlock firstBlock result none) (genesisLedger.withPeers samplePeers) =
        (.ok blockHash, t) := by
  have hexec : ∃ result,
      executeBlock openCrypto (fun _ => none) genesisLedger.stateStore firstBlock = .ok result := by
    cases h : executeBlock openCrypto (fun _ => none) genesisLedger.stateStore firstBlock with
    | ok result => exact ⟨result, rfl⟩
    | error e =>
      have hok : (executeBlock openCrypto (fun _ => none) genesisLedger.stateStore
        firstBlock).isOk = true := by decide +kernel
      rw [h] at hok
      cases hok
  obtain ⟨result, hexec⟩ := hexec
  refine ⟨result, ?_⟩
  cases hcommit : runFrom (commitBlock firstBlock result none)
      (genesisLedger.withPeers samplePeers) with
  | mk r t =>
    cases r with
    | ok blockHash => exact ⟨blockHash, t, hexec, rfl⟩
    | error e =>
      have hzero : genesisLedger.currBlockHeight.toNat + 2 < 2 ^ 32 := by
        rw [genesisLedger_height]
        decide
      rcases genesisLedger_good.saving_error hzero (commitBlock_saving hcommit) with
        ⟨⟨-, f, hf, -⟩, -⟩ | ⟨_, -, f, hf, -⟩
      · cases hf
      · cases hf

/-- Added alone the first block is stored. -/
theorem addBlock_nil_stored_first : ∃ s : Process openCrypto,
    CallRun (fun _ => none) sampleBlocks (Uncontended sampleBlocks) s ∧ firstBlock ∈ s.returned ∧
      firstBlock.header.height ≤ s.ledger.currBlockHeight ∧
      StoredAt s.ledger.blockStore firstBlock := by
  obtain ⟨result, blockHash, t, hexec, hcommit⟩ := firstBlock_commits
  obtain ⟨hash, hhash, -⟩ := nextBlock_hash genesisLedger
  have hstart : CallRun (fun _ => none) sampleBlocks (Uncontended sampleBlocks) idleProcess :=
    .start genesisLedger_stored
  have hadding := adding_run hstart firstBlock_of_chain trivial rfl rfl result.merkleRoot
  have hlocked := hadding.step (a := .other) trivial (.addLock (Process.setCall_self _ 1 _) rfl)
  have hcommitted := hlocked.step (a := .other) trivial (.addCommit (Process.setCall_self _ 1 _)
    (fun h => h.2 firstBlock_next.1) hexec rfl hcommit)
  have hcurrent := hcommitted.step (a := .other) trivial (.addSetCurrent (Process.setCall_self _ 1 _))
  have hleft := hcurrent.step (a := .other) trivial (.addLeave (Process.setCall_self _ 1 _) hhash)
  have hreturned := List.mem_singleton_self firstBlock
  exact ⟨_, hleft, hreturned, addBlock_nil_stored (fun _ => none) sampleBlocks_numbered
    sampleBlocks_collisionFree hleft hreturned⟩

end Poly.Ledger
