import Poly.CrossChain.Cosmos
import Poly.HeaderSync.Entrance
import Poly.HeaderSync.HeimdallQuorum
import Poly.HeaderSync.MscRuns
import Poly.HeaderSync.OntQuorum
import Poly.HeaderSync.QuorumRuns
import Poly.HeaderSync.StarcoinParams
import Poly.Ledger.Recover

/-! The execution of a block on nodes with different clocks. Only the header sync contract reads the
clock, and what it reads decides whether a call is refused. -/
namespace Poly.Ledger

open Lib Native HeaderSync List

variable {C : Crypto} (D : SyncDeployment C) (others : Contracts)

/-- What the clock of a node says while a block is executed, transaction by transaction. -/
abbrev BlockClock := ℕ → Clock

/-- The transactions of a block from the `i`-th on. -/
def handleTransactionsAt (clock : BlockClock) (header : Header C.keys) :
    List (Transaction C.keys) → ℕ → BlockState → Result BlockState
  | [], _, acc => .ok acc
  | tx :: rest, i, acc => do
    let acc ← handleTransaction C (D.contracts others (clock i)) header acc tx
    handleTransactionsAt clock header rest (i + 1) acc

/-- What a block starts from. -/
def startState (st : StateStore) : BlockState := ⟨OverlayDB.new st.store, [], []⟩

/-- `executeBlock` on a node with a given clock. -/
def executeBlockAt (clock : BlockClock) (st : StateStore) (block : LedgerBlock C) :
    Result ExecuteResult := do
  let acc ← handleTransactionsAt D others clock block.header block.transactions 0 (startState st)
  let crossStatesRoot ← crossStatesRoot C acc.crossHashes
  let hash := acc.overlay.changeHash C.sha256
  let merkleRoot ← st.getStateMerkleRootWithNewHash C.sha256 hash
  return ⟨acc.overlay.getWriteSet, acc.crossHashes, crossStatesRoot, hash, merkleRoot, acc.notify⟩

theorem handleTransactionsAt_const (clock : Clock) (header : Header C.keys)
    (txs : List (Transaction C.keys)) (i : ℕ) (acc : BlockState) :
    handleTransactionsAt D others (fun _ => clock) header txs i acc =
      txs.foldlM (handleTransaction C (D.contracts others clock) header) acc := by
  induction txs generalizing i acc with
  | nil => rfl
  | cons tx rest ih =>
    exact bind_congr fun acc' => ih (i + 1) acc'

/-- Where the clock tells every transaction the same, the block is executed with one set of
contracts. -/
theorem executeBlockAt_const (clock : Clock) (st : StateStore) (block : LedgerBlock C) :
    executeBlockAt D others (fun _ => clock) st block =
      executeBlock C (D.contracts others clock) st block := by
  unfold executeBlockAt executeBlock handleTransactions
  rw [handleTransactionsAt_const]
  rfl

/-- Two clocks do not matter to a transaction: its call is refused even if every header time that it
checks is early enough, or all these times are early enough for both clocks or for neither. -/
def CallAgrees (clock₁ clock₂ : Clock) (header : Header C.keys) (acc : BlockState)
    (tx : Transaction C.keys) : Prop :=
  ∀ service, invokeService C header acc.overlay tx = .ok service →
    (invoke_timed D others).Agrees clock₁ clock₂ service

/-- Two clocks do not matter to any transaction of a block, at its turn. -/
def BlockAgrees (clock₁ clock₂ : BlockClock) (header : Header C.keys) :
    List (Transaction C.keys) → ℕ → BlockState → Prop
  | [], _, _ => True
  | tx :: rest, i, acc =>
    CallAgrees D others (clock₁ i) (clock₂ i) header acc tx ∧
      ∀ acc', handleTransaction C (D.contracts others (clock₁ i)) header acc tx = .ok acc' →
        BlockAgrees clock₁ clock₂ header rest (i + 1) acc'

section Transactions

variable {D others} {contracts : Contracts} {header : Header C.keys} {acc acc' : BlockState}
  {tx : Transaction C.keys} {service : NativeService} {clock₁ clock₂ : Clock}

theorem handleInvokeTransaction_of_error {overlay e}
    (hs : invokeService C header overlay tx = .error e) :
    handleInvokeTransaction C contracts header overlay tx = .error e := by
  rw [handleInvokeTransaction, hs]
  rfl

theorem isRefused_handleInvokeTransaction
    (hs : invokeService C header acc.overlay tx = .ok service) :
    IsRefused Refused (handleInvokeTransaction C contracts header acc.overlay tx) ↔
      IsRefused Refused ((invoke contracts).run service) := by
  unfold handleInvokeTransaction
  rw [hs, ok_bind]
  cases (invoke contracts).run service with
  | ok p =>
    constructor
    · rintro ⟨e, -, he⟩
      cases he
    · rintro ⟨e, -, he⟩
      cases he
  | error e =>
    constructor
    · rintro ⟨e', hr, he⟩
      exact ⟨e', hr, congrArg Except.error (Except.error.inj he)⟩
    · rintro ⟨e', hr, he⟩
      exact ⟨e', hr, congrArg Except.error (Except.error.inj he)⟩

/-- A transaction is refused exactly if it leaves the notification of a failure. -/
theorem isRefused_iff_notify (h : handleTransaction C contracts header acc tx = .ok acc') :
    IsRefused Refused (handleInvokeTransaction C contracts header acc.overlay tx) ↔
      acc'.notify = acc.notify ++ [⟨tx.hash, CONTRACT_STATE_FAIL, []⟩] := by
  rcases handleTransaction_ok h with ⟨overlay, notify, crossHashes, hi, rfl⟩ | ⟨msg, hi, rfl⟩
  · rw [hi]
    constructor
    · rintro ⟨e, -, he⟩
      cases he
    · intro hn
      obtain ⟨hlast, -⟩ := List.cons.inj (append_cancel_left hn)
      cases congrArg ExecuteNotify.state hlast
  · rw [hi]
    exact ⟨fun _ => rfl, fun _ => ⟨_, ⟨msg, rfl⟩, rfl⟩⟩

theorem handleTransaction_of_isRefused
    (h : IsRefused Refused (handleInvokeTransaction C contracts header acc.overlay tx)) :
    handleTransaction C contracts header acc tx =
      .ok { acc with notify := acc.notify ++ [⟨tx.hash, CONTRACT_STATE_FAIL, []⟩] } := by
  obtain ⟨_, ⟨msg, rfl⟩, he⟩ := h
  rw [handleTransaction, he]

/-- A transaction to which two clocks do not matter ends in the same way. -/
theorem CallAgrees.handleTransaction_eq (h : CallAgrees D others clock₁ clock₂ header acc tx) :
    handleTransaction C (D.contracts others clock₁) header acc tx =
      handleTransaction C (D.contracts others clock₂) header acc tx := by
  cases hs : invokeService C header acc.overlay tx with
  | error e =>
    unfold handleTransaction
    rw [handleInvokeTransaction_of_error hs, handleInvokeTransaction_of_error hs]
  | ok service =>
    rcases (h service hs).run_eq_or with heq | ⟨h₁, h₂⟩
    · unfold handleTransaction handleInvokeTransaction
      rw [hs, ok_bind, ok_bind, heq]
    · rw [handleTransaction_of_isRefused ((isRefused_handleInvokeTransaction hs).mpr h₁),
        handleTransaction_of_isRefused ((isRefused_handleInvokeTransaction hs).mpr h₂)]

/-- Clocks with which a transaction leaves the same notification do not matter to it. -/
theorem callAgrees_of_notify {acc₁ acc₂}
    (h₁ : handleTransaction C (D.contracts others clock₁) header acc tx = .ok acc₁)
    (h₂ : handleTransaction C (D.contracts others clock₂) header acc tx = .ok acc₂)
    (hn : acc₁.notify = acc₂.notify) : CallAgrees D others clock₁ clock₂ header acc tx := by
  intro service hs
  apply (invoke_timed D others).agrees_of_isRefused_iff
  rw [← isRefused_handleInvokeTransaction hs, ← isRefused_handleInvokeTransaction hs,
    isRefused_iff_notify h₁, isRefused_iff_notify h₂, hn]

theorem handleTransaction_notify (h : handleTransaction C contracts header acc tx = .ok acc') :
    ∃ n, acc'.notify = acc.notify ++ [n] := by
  rcases handleTransaction_ok h with ⟨_, _, _, -, rfl⟩ | ⟨_, -, rfl⟩ <;> exact ⟨_, rfl⟩

end Transactions

section Blocks

variable {D others} {header : Header C.keys} {txs : List (Transaction C.keys)} {i : ℕ}
  {acc : BlockState} {clock clock₁ clock₂ : BlockClock}

theorem handleTransactionsAt_notify {acc'}
    (h : handleTransactionsAt D others clock header txs i acc = .ok acc') :
    ∃ l, acc'.notify = acc.notify ++ l := by
  induction txs generalizing i acc with
  | nil =>
    cases h
    exact ⟨[], (append_nil _).symm⟩
  | cons tx rest ih =>
    obtain ⟨acc₁, htx, hrest⟩ := bind_ok.mp h
    obtain ⟨n, hn⟩ := handleTransaction_notify htx
    obtain ⟨l, hl⟩ := ih hrest
    refine ⟨n :: l, ?_⟩
    rw [hl, hn, append_assoc]
    rfl

theorem BlockAgrees.handleTransactionsAt_eq
    (h : BlockAgrees D others clock₁ clock₂ header txs i acc) :
    handleTransactionsAt D others clock₁ header txs i acc =
      handleTransactionsAt D others clock₂ header txs i acc := by
  induction txs generalizing i acc with
  | nil => rfl
  | cons tx rest ih =>
    obtain ⟨hcall, hrest⟩ := h
    unfold handleTransactionsAt
    rw [← hcall.handleTransaction_eq]
    cases hr : handleTransaction C (D.contracts others (clock₁ i)) header acc tx with
    | error e =>
      rw [error_bind, error_bind]
    | ok acc' =>
      rw [ok_bind]
      exact ih (hrest acc' hr)

/-- Clocks with which a block leaves the same notifications do not matter to it: the notifications
of the transactions up to one are the same, and so are the states that they leave. -/
theorem blockAgrees_of_notify {acc₁ acc₂}
    (h₁ : handleTransactionsAt D others clock₁ header txs i acc = .ok acc₁)
    (h₂ : handleTransactionsAt D others clock₂ header txs i acc = .ok acc₂)
    (hn : acc₁.notify = acc₂.notify) : BlockAgrees D others clock₁ clock₂ header txs i acc := by
  induction txs generalizing i acc with
  | nil => trivial
  | cons tx rest ih =>
    obtain ⟨a₁, htx₁, hrest₁⟩ := bind_ok.mp h₁
    obtain ⟨a₂, htx₂, hrest₂⟩ := bind_ok.mp h₂
    obtain ⟨n₁, hn₁⟩ := handleTransaction_notify htx₁
    obtain ⟨n₂, hn₂⟩ := handleTransaction_notify htx₂
    obtain ⟨l₁, hl₁⟩ := handleTransactionsAt_notify hrest₁
    obtain ⟨l₂, hl₂⟩ := handleTransactionsAt_notify hrest₂
    have hfirst : a₁.notify = a₂.notify := by
      rw [hl₁, hl₂, hn₁, hn₂, append_assoc, append_assoc] at hn
      cases append_cancel_left hn
      rw [hn₁, hn₂]
    have hcall := callAgrees_of_notify htx₁ htx₂ hfirst
    have hsame : a₁ = a₂ := by
      rw [hcall.handleTransaction_eq, htx₂] at htx₁
      exact (Except.ok.inj htx₁).symm
    subst hsame
    refine ⟨hcall, fun acc' hacc' => ?_⟩
    rw [htx₁] at hacc'
    cases hacc'
    exact ih hrest₁ hrest₂

theorem executeBlockAt_ok {st block result}
    (h : executeBlockAt D others clock st block = .ok result) :
    ∃ acc, handleTransactionsAt D others clock block.header block.transactions 0 (startState st) =
      .ok acc ∧ result.notify = acc.notify := by
  obtain ⟨acc, ha, h⟩ := bind_ok.mp h
  obtain ⟨root, -, h⟩ := bind_ok.mp h
  obtain ⟨merkleRoot, -, h⟩ := bind_ok.mp h
  cases h
  exact ⟨acc, ha, rfl⟩

end Blocks

/-- Two nodes that differ in their clocks execute a block in the same way if the clocks do not matter
to any of its transactions, and if they do matter then not even the notifications are the same. -/
theorem executeBlockAt_clock (clock₁ clock₂ : BlockClock) (st : StateStore)
    (block : LedgerBlock C) :
    (BlockAgrees D others clock₁ clock₂ block.header block.transactions 0 (startState st) →
      executeBlockAt D others clock₁ st block = executeBlockAt D others clock₂ st block) ∧
    ∀ r₁ r₂, executeBlockAt D others clock₁ st block = .ok r₁ →
      executeBlockAt D others clock₂ st block = .ok r₂ → r₁.notify = r₂.notify →
      BlockAgrees D others clock₁ clock₂ block.header block.transactions 0 (startState st) := by
  constructor
  · intro h
    unfold executeBlockAt
    rw [h.handleTransactionsAt_eq]
  · intro r₁ r₂ h₁ h₂ hn
    obtain ⟨acc₁, ha₁, hr₁⟩ := executeBlockAt_ok h₁
    obtain ⟨acc₂, ha₂, hr₂⟩ := executeBlockAt_ok h₂
    exact blockAgrees_of_notify ha₁ ha₂ (hr₁.symm.trans (hn.trans hr₂))

/-- A header from its number, which is its time too, its coinbase, its difficulty, the number of its
parent and its validators. -/
def sampleBscHeader : Bytes → Result EthHeader
  | number :: coinbase :: difficulty :: parent :: validators => .ok {
      parentHash := zeroPad 32 [1, parent]
      uncleHash := Uint256.empty
      coinbase := zeroPad 20 [coinbase]
      difficulty := difficulty.toNat
      number := number.toNat
      gasLimit := 5120
      gasUsed := 0
      time := number.toUInt64
      extra := List.replicate 32 0 ++ validators.flatMap (fun b => (zeroPad 20 [b]).val) ++
        List.replicate 65 0
      mixDigest := Uint256.empty
      nonce := zeroPad 8 []
      rest := number :: coinbase :: difficulty :: parent :: validators }
  | _ => .error (.error "unexpected end of JSON input")

/-- Libraries in which a header is hashed to its number and sealed by its coinbase; a genesis header
is submitted with the validators 1 and 2 of height 5, and stored with its own before them. -/
def sampleBsc : Bsc.BscLib where
  hash header := zeroPad 32 [1, UInt8.ofNat header.number]
  uncleHash := Uint256.empty
  recover _ header := .ok header.coinbase
  unmarshalHeader := sampleBscHeader
  unmarshalGenesis raw := do
    let header ← sampleBscHeader raw.tail
    let validators : List Address := [zeroPad 20 [1], zeroPad 20 [2]]
    return ⟨header, if raw.headD 0 = 0 then [⟨some 5, validators⟩]
      else [⟨some header.number, validators⟩, ⟨some 5, validators⟩]⟩
  marshalGenesis genesis := .ok (1 :: genesis.header.rest)
  unmarshalRecord raw := do
    let header ← sampleBscHeader raw.tail
    return ⟨header, (raw.headD 0).toNat, none⟩
  marshalRecord record := .ok (UInt8.ofNat record.difficultySum :: record.header.rest)
  unmarshalExtraInfo _ := .ok ⟨some 56⟩

def sampleEth : Eth.EthLib where
  keccak256 _ := Uint256.empty
  keccak512 _ := zeroPad 64 []
  hash _ := Uint256.empty
  hashHeader _ := Uint256.empty
  emptyUncleHash := Uint256.empty
  unmarshalHeader _ := .error (.error "unexpected end of JSON input")
  unmarshalRecord _ := .error (.error "unexpected end of JSON input")
  marshalRecord _ := []

def sampleDeployment : SyncDeployment openCrypto where
  networkId := 1
  enableEventLog := true
  eth := sampleEth
  bsc := sampleBsc
  msc := Msc.sampleMsc
  starcoin := Starcoin.sampleStc
  ont := Ont.sampleOnt
  quorum := Quorum.openQuorum
  cosmos := CrossChain.Cosmos.sampleCosmos
  heimdall := Heimdall.openHeimdall
  others _ := .untimed (return ()) (return ()) (return ())

/-- A registered chain with the router of BSC. -/
def sampleBscChain : Bytes :=
  Sink.writeVarBytes Address.empty.val ++ Sink.writeVarUint 7 ++ Sink.writeVarUint BSC_ROUTER ++
    Sink.writeVarBytes [] ++ Sink.writeVarUint 1 ++ Sink.writeVarBytes [] ++ Sink.writeVarBytes []

/-- The call of the operator with a genesis header of height 10, sealed by 1. -/
def sampleBscGenesis : NativeService :=
  { sampleService (SyncGenesisHeaderParam.serialization ⟨7, [0, 10, 1, 2, 9, 1, 2]⟩) 1 with
    tx := ⟨Uint256.empty, some [Governance.sampleOperator]⟩ }

abbrev sampleBscSynced : Result Bytes × OverlayDB :=
  callContract (answered sampleDeployment.syncGenesisHeader) sampleBscGenesis
    (Governance.sampleInit.2.put (ST_STORAGE :: CrossChain.sideChainKey 7)
      (genRawStorageItem sampleBscChain))

/-- The state after the genesis header. -/
def sampleBscState : StateStore :=
  .initial (applyWriteSet sampleBscSynced.2.store sampleBscSynced.2.memdb)

/-- A block with the next header, which 2 sealed at the time 11. -/
def sampleBscBlock : LedgerBlock openCrypto :=
  { sampleChain 1 with transactions := [{
      version := 0
      nonce := 0
      chainID := 0
      gasLimit := 0
      gasPrice := 0
      code := ContractInvokeParam.serialization ⟨0, HeaderSyncContractAddress, SYNC_BLOCK_HEADER,
        SyncBlockHeaderParam.serialization ⟨7, Address.empty, [[11, 2, 2, 10]]⟩⟩
      payer := Address.empty
      sigs := []
      raw := []
      hash := zeroPad 32 [3]
      signedAddr := [] }] }

abbrev sampleExecute (now : ℤ) : Result ExecuteResult :=
  executeBlockAt sampleDeployment (fun _ => none) (fun _ _ => now) sampleBscState sampleBscBlock

theorem exists_ok_pair {α : Type} {x y : Result α} {p : α → α → Bool} (h : (match x, y with
      | .ok a, .ok b => p a b
      | _, _ => false) = true) : ∃ a b, x = .ok a ∧ y = .ok b ∧ p a b = true := by
  split at h
  · exact ⟨_, _, rfl, rfl, h⟩
  · cases h

/-- A node whose clock is one second behind refuses the header, and keeps nothing of it. -/
theorem executeBlockAt_clock_differs :
    sampleBscSynced.1 = .ok BYTE_TRUE ∧
      ∃ r₁ r₂, sampleExecute 10 = .ok r₁ ∧ sampleExecute 11 = .ok r₂ ∧
        r₁.writeSet ≠ r₂.writeSet ∧ r₁.hash ≠ r₂.hash ∧ r₁.notify ≠ r₂.notify := by
  refine ⟨by decide +kernel, ?_⟩
  obtain ⟨r₁, r₂, h₁, h₂, hne⟩ := exists_ok_pair (x := sampleExecute 10) (y := sampleExecute 11)
    (p := fun r₁ r₂ => decide (r₁.writeSet ≠ r₂.writeSet ∧ r₁.hash ≠ r₂.hash ∧
      r₁.notify ≠ r₂.notify)) (by decide +kernel)
  exact ⟨r₁, r₂, h₁, h₂, of_decide_eq_true hne⟩

/-- Two nodes whose clocks are not behind the header, though not the same, agree. -/
theorem executeBlockAt_clock_sample :
    BlockAgrees sampleDeployment (fun _ => none) (fun _ _ => 11) (fun _ _ => 12)
        sampleBscBlock.header sampleBscBlock.transactions 0 (startState sampleBscState) ∧
      sampleExecute 11 = sampleExecute 12 := by
  obtain ⟨r₁, r₂, h₁, h₂, hn⟩ := exists_ok_pair (x := sampleExecute 11) (y := sampleExecute 12)
    (p := fun r₁ r₂ => decide (r₁.notify = r₂.notify)) (by decide +kernel)
  have hclock := executeBlockAt_clock sampleDeployment (fun _ => none) (fun _ _ => 11)
    (fun _ _ => 12) sampleBscState sampleBscBlock
  have hagrees := hclock.2 r₁ r₂ h₁ h₂ (of_decide_eq_true hn)
  exact ⟨hagrees, hclock.1 hagrees⟩

end Poly.Ledger
