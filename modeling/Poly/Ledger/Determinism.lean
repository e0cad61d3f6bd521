import Poly.Core.Decoding
import Poly.Governance.NodeManager
import Poly.Ledger.Execute

/-! Execution reads of a block its header, the unsigned parts of its transactions and the addresses
their signatures speak for. The header hash binds the first two and not the last. -/
namespace Poly.Ledger

open Lib Native List

variable {C : Crypto} {contracts : Contracts}

/-- The addresses that execution takes a transaction to be signed by. -/
def signatureAddresses (tx : Transaction C.keys) : Option (List Address) :=
  (tx.getSignatureAddresses C.keys C.sha256 C.ripemd160).toOption

/-- Two transactions that execution cannot tell apart. -/
structure SameCall (tx₁ tx₂ : Transaction C.keys) : Prop where
  unsigned_eq : tx₁.toUnsignedTx = tx₂.toUnsignedTx
  hash_eq : tx₁.hash = tx₂.hash
  addresses_eq : signatureAddresses tx₁ = signatureAddresses tx₂

theorem invokeService_congr {h₁ h₂ tx₁ tx₂} (hh : h₁.toUnsignedHeader = h₂.toUnsignedHeader)
    (ht : SameCall tx₁ tx₂) (overlay : OverlayDB) :
    invokeService C h₁ overlay tx₁ = invokeService C h₂ overlay tx₂ := by
  have hchain : tx₁.chainID = tx₂.chainID := congrArg UnsignedTx.chainID ht.unsigned_eq
  have hcode : tx₁.code = tx₂.code := congrArg UnsignedTx.code ht.unsigned_eq
  have haddr : (tx₁.getSignatureAddresses C.keys C.sha256 C.ripemd160).toOption =
      (tx₂.getSignatureAddresses C.keys C.sha256 C.ripemd160).toOption := ht.addresses_eq
  unfold invokeService newNativeService
  rw [hh, hchain, hcode, haddr, ht.hash_eq]

theorem handleTransaction_congr {h₁ h₂ tx₁ tx₂} (hh : h₁.toUnsignedHeader = h₂.toUnsignedHeader)
    (ht : SameCall tx₁ tx₂) (acc : BlockState) :
    handleTransaction C contracts h₁ acc tx₁ = handleTransaction C contracts h₂ acc tx₂ := by
  unfold handleTransaction handleInvokeTransaction
  rw [invokeService_congr hh ht, ht.hash_eq]

/-- One step after the other over transactions that cannot be told apart. -/
theorem foldlM_handleTransaction_congr {h₁ h₂ txs₁ txs₂}
    (hh : h₁.toUnsignedHeader = h₂.toUnsignedHeader) (ht : List.Forall₂ SameCall txs₁ txs₂)
    (acc : BlockState) :
    txs₁.foldlM (handleTransaction C contracts h₁) acc =
      txs₂.foldlM (handleTransaction C contracts h₂) acc := by
  induction ht generalizing acc with
  | nil => rfl
  | cons htx _ ih =>
    rw [foldlM_cons, handleTransaction_congr hh htx]
    exact bind_congr fun acc' => ih acc'

theorem executeBlock_congr {b₁ b₂} (hh : b₁.header.toUnsignedHeader = b₂.header.toUnsignedHeader)
    (ht : List.Forall₂ SameCall b₁.transactions b₂.transactions) (st : StateStore) :
    executeBlock C contracts st b₁ = executeBlock C contracts st b₂ := by
  unfold executeBlock handleTransactions
  rw [foldlM_handleTransaction_congr hh ht]

theorem forall₂_of_map_eq {α β : Type} {f : α → β} {R : α → α → Prop} {l₁ l₂}
    (h : l₁.map f = l₂.map f) (hR : ∀ a ∈ l₁, ∀ b ∈ l₂, f a = f b → R a b) :
    List.Forall₂ R l₁ l₂ := by
  induction l₁ generalizing l₂ with
  | nil =>
    cases map_eq_nil_iff.mp h.symm
    exact .nil
  | cons a l₁ ih =>
    cases l₂ with
    | nil => cases h
    | cons b l₂ =>
      obtain ⟨hab, hl⟩ := List.cons.inj h
      refine .cons (hR a mem_cons_self b mem_cons_self hab) (ih hl fun x hx y hy => ?_)
      exact hR x (mem_cons_of_mem _ hx) y (mem_cons_of_mem _ hy)

/-- Two encodings of blocks with one header hash execute in the same way from every state, if their
transactions are signed by the same addresses, or the hash function is broken on an input read off
the two strings. -/
theorem executeBlock_determined {raw₁ raw₂ : Bytes} {b₁ b₂ : LedgerBlock C}
    (h₁ : blockFromRawBytes C.keys C.sha256 raw₁ = .ok b₁)
    (h₂ : blockFromRawBytes C.keys C.sha256 raw₂ = .ok b₂)
    (hhash : b₁.header.hash C.sha256 = b₂.header.hash C.sha256)
    (h64 : ∀ tx ∈ b₁.transactions ++ b₂.transactions, tx.rawUnsigned.length ≠ 64)
    (haddr : ∀ tx₁ ∈ b₁.transactions, ∀ tx₂ ∈ b₂.transactions, tx₁.hash = tx₂.hash →
      signatureAddresses tx₁ = signatureAddresses tx₂) (st : StateStore) :
    executeBlock C contracts st b₁ = executeBlock C contracts st b₂ ∨
      HashBreak C.sha256 (blockMessages C.sha256 C.keys raw₁ ++
        blockMessages C.sha256 C.keys raw₂) := by
  have hd₁ := Block.decoded_of_raw h₁
  have hd₂ := Block.decoded_of_raw h₂
  have hmessages : blockMessages C.sha256 C.keys raw₁ ++ blockMessages C.sha256 C.keys raw₂ =
      b₁.messages C.sha256 ++ b₂.messages C.sha256 := by
    simp only [blockMessages, h₁, h₂]
  rw [hmessages]
  refine (hd₁.bound hd₂ hhash (fun tx htx => h64 tx (mem_append_left _ htx))
    fun tx htx => h64 tx (mem_append_right _ htx)).imp_left fun ⟨hheader, hraw⟩ => ?_
  refine executeBlock_congr hheader (forall₂_of_map_eq hraw fun tx₁ ht₁ tx₂ ht₂ he => ?_) st
  have hdec₁ := hd₁.transactions tx₁ ht₁
  have hdec₂ := hd₂.transactions tx₂ ht₂
  have hsame : tx₁.hash = tx₂.hash := by rw [hdec₁.hash_eq, hdec₂.hash_eq, he]
  exact ⟨hdec₁.unsigned_inj hdec₂ he, hsame, haddr tx₁ ht₁ tx₂ ht₂ hsame⟩

open Governance Sink

/-- Libraries with a hash that starts with the length of its input. -/
def lengthCrypto : Crypto :=
  { openCrypto with sha256 := fun bs => zeroPad 32 (UInt8.ofNat bs.length :: bs) }

def sampleKey : Bytes := [5]

def sampleOwner : Address := addressFromPubKey openKeys lengthCrypto.sha256 (zeroPad 20) sampleKey

/-- A node with only the node manager contract, -/
def sampleNodeManager : Contracts := fun address =>
  if address = NodeManagerContractAddress then some (List.lookup · (nodeManagerContract lengthCrypto))
  else none

/-- with a governance view and an empty pool of peers. -/
def sampleGovernance : StateStore := .initial
  ((OrderedMap.empty.insert (ST_STORAGE :: nodeKey [GOVERNANCE_VIEW])
      (genRawStorageItem (GovernanceView.serialization ⟨1, 0, Uint256.empty⟩))).insert
    (ST_STORAGE :: nodeKey [PEER_POOL, getUint32Bytes 1])
    (genRawStorageItem (PeerPoolMap.serialization OrderedMap.empty)))

/-- The application of a candidate, to be signed by its owner. -/
def sampleUnsigned : Bytes :=
  [0, 0xd1] ++ writeUint32 0 ++ writeUint64 0 ++ writeUint64 0 ++ writeUint64 0 ++
    writeVarBytes (ContractInvokeParam.serialization ⟨0, NodeManagerContractAddress,
      ascii "registerCandidate", writeVarBytes (ascii "05") ++ writeVarBytes sampleOwner.val⟩) ++
    writeVarBytes [] ++ Address.empty.val ++ [0]

def sampleUnsignedHeader : UnsignedHeader :=
  ⟨0, 0, Uint256.empty, doubleSha256 lengthCrypto.sha256 sampleUnsigned, Uint256.empty,
    Uint256.empty, 0, 1, 0, [], Address.empty⟩

/-- A block with this one transaction, carrying the given signature entries. -/
def sampleBlockBytes (sigs : Bytes) : Bytes :=
  sampleUnsignedHeader.bytes ++ writeVarUint 0 ++ writeVarUint 0 ++ writeUint32 1 ++
    sampleUnsigned ++ sigs

/-- One entry with one signature and the key of the owner. -/
def sampleSigned (sig : Bytes) : Bytes :=
  writeVarUint 1 ++ writeUint16 1 ++ writeVarBytes sig ++ writeUint16 1 ++
    writeVarBytes sampleKey ++ writeUint16 1

def sampleDecoded (sigs : Bytes) : Result (LedgerBlock lengthCrypto) :=
  blockFromRawBytes lengthCrypto.keys lengthCrypto.sha256 (sampleBlockBytes sigs)

/-- A test of the blocks that two of these strings decode to. -/
def sampleTest (sigs₁ sigs₂ : Bytes)
    (test : LedgerBlock lengthCrypto → LedgerBlock lengthCrypto → Bool) : Bool :=
  match sampleDecoded sigs₁, sampleDecoded sigs₂ with
  | .ok b₁, .ok b₂ => test b₁ b₂
  | _, _ => false

theorem sampleTest_true {sigs₁ sigs₂}
    {test : LedgerBlock lengthCrypto → LedgerBlock lengthCrypto → Bool}
    (h : sampleTest sigs₁ sigs₂ test = true) :
    ∃ b₁ b₂, sampleDecoded sigs₁ = .ok b₁ ∧ sampleDecoded sigs₂ = .ok b₂ ∧ test b₁ b₂ = true := by
  unfold sampleTest at h
  split at h
  next b₁ b₂ h₁ h₂ => exact ⟨b₁, b₂, h₁, h₂, h⟩
  · cases h

/-- The write set of a block on the sample state. -/
def sampleWriteSet (b : LedgerBlock lengthCrypto) : Option MemDB :=
  ((executeBlock lengthCrypto sampleNodeManager sampleGovernance b).toOption).map (·.writeSet)

theorem sampleWriteSet_some {b} (h : (sampleWriteSet b).isSome) :
    ∃ r, executeBlock lengthCrypto sampleNodeManager sampleGovernance b = .ok r ∧
      sampleWriteSet b = some r.writeSet := by
  obtain ⟨w, hw⟩ := Option.isSome_iff_exists.mp h
  obtain ⟨r, hr, rfl⟩ := Option.map_eq_some_iff.mp hw
  exact ⟨r, toOption_eq_some.mp hr, hw⟩

/-- Two blocks with one header hash, one with the signature of the candidate's owner and one without
any: only the first registers the candidate, and no two hashed inputs collide. -/
theorem executeBlock_unsigned_differs :
    ∃ b₁ b₂ r₁ r₂, sampleDecoded (sampleSigned [1]) = .ok b₁ ∧ sampleDecoded [0] = .ok b₂ ∧
      b₁.header.hash lengthCrypto.sha256 = b₂.header.hash lengthCrypto.sha256 ∧
      executeBlock lengthCrypto sampleNodeManager sampleGovernance b₁ = .ok r₁ ∧
      executeBlock lengthCrypto sampleNodeManager sampleGovernance b₂ = .ok r₂ ∧
      r₁.writeSet ≠ r₂.writeSet ∧
      ¬ HashBreak lengthCrypto.sha256
        (blockMessages lengthCrypto.sha256 lengthCrypto.keys
            (sampleBlockBytes (sampleSigned [1])) ++
          blockMessages lengthCrypto.sha256 lengthCrypto.keys (sampleBlockBytes [0])) := by
  have htest : sampleTest (sampleSigned [1]) [0] (fun b₁ b₂ =>
      decide (b₁.header.hash lengthCrypto.sha256 = b₂.header.hash lengthCrypto.sha256) &&
        (sampleWriteSet b₁).isSome && (sampleWriteSet b₂).isSome &&
        decide (sampleWriteSet b₁ ≠ sampleWriteSet b₂)) = true := by decide +kernel
  have hbreak : ¬ HashBreak lengthCrypto.sha256
      (blockMessages lengthCrypto.sha256 lengthCrypto.keys (sampleBlockBytes (sampleSigned [1])) ++
        blockMessages lengthCrypto.sha256 lengthCrypto.keys (sampleBlockBytes [0])) := by
    decide +kernel
  obtain ⟨b₁, b₂, h₁, h₂, h⟩ := sampleTest_true htest
  simp only [Bool.and_eq_true, decide_eq_true_eq] at h
  obtain ⟨⟨⟨hhash, hs₁⟩, hs₂⟩, hne⟩ := h
  obtain ⟨r₁, hr₁, hw₁⟩ := sampleWriteSet_some hs₁
  obtain ⟨r₂, hr₂, hw₂⟩ := sampleWriteSet_some hs₂
  rw [hw₁, hw₂] at hne
  exact ⟨b₁, b₂, r₁, r₂, h₁, h₂, hhash, hr₁, hr₂, fun he => hne (congrArg some he), hbreak⟩

/-- Two blocks that differ in the signature itself, under the same key. -/
theorem executeBlock_determined_resigned :
    sampleBlockBytes (sampleSigned [1]) ≠ sampleBlockBytes (sampleSigned [2]) ∧
      ∃ b₁ b₂, sampleDecoded (sampleSigned [1]) = .ok b₁ ∧
        sampleDecoded (sampleSigned [2]) = .ok b₂ ∧
        (executeBlock lengthCrypto sampleNodeManager sampleGovernance b₁ =
            executeBlock lengthCrypto sampleNodeManager sampleGovernance b₂ ∨
          HashBreak lengthCrypto.sha256
            (blockMessages lengthCrypto.sha256 lengthCrypto.keys
                (sampleBlockBytes (sampleSigned [1])) ++
              blockMessages lengthCrypto.sha256 lengthCrypto.keys
                (sampleBlockBytes (sampleSigned [2])))) := by
  have htest : sampleTest (sampleSigned [1]) (sampleSigned [2]) (fun b₁ b₂ =>
      decide (b₁.header.hash lengthCrypto.sha256 = b₂.header.hash lengthCrypto.sha256) &&
        decide (∀ tx ∈ b₁.transactions ++ b₂.transactions, tx.rawUnsigned.length ≠ 64) &&
        decide (∀ tx₁ ∈ b₁.transactions, ∀ tx₂ ∈ b₂.transactions, tx₁.hash = tx₂.hash →
          signatureAddresses tx₁ = signatureAddresses tx₂)) = true := by decide +kernel
  obtain ⟨b₁, b₂, h₁, h₂, h⟩ := sampleTest_true htest
  simp only [Bool.and_eq_true, decide_eq_true_eq] at h
  obtain ⟨⟨hhash, h64⟩, haddr⟩ := h
  refine ⟨by decide +kernel, b₁, b₂, h₁, h₂, ?_⟩
  exact executeBlock_determined h₁ h₂ hhash h64 haddr sampleGovernance

end Poly.Ledger
