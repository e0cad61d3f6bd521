import Poly.Ledger.Execute
import Poly.Native.Program

/-! Block execution as the sequence of its transactions: the one transaction cache that is reset
before each of them isolates them as a cache of their own would. -/
namespace Poly.Ledger

open Lib Native Merkle List

variable (C : Crypto)

section Reuse

variable (contracts : Contracts)

/-- `CacheDB.Reset`. -/
def resetCache (db : CacheDB) : CacheDB := ⟨OrderedMap.empty, db.backend, .empty⟩

/-- What a block has gathered, and the transaction cache that all its transactions share. -/
structure SharedState extends BlockState where
  cache : CacheDB

/-- A call of the loop of `executeBlock`. The cache sees the block cache as it is now; what a failed
transaction leaves in it is `leftover`. -/
def handleSharing (leftover : CacheDB) (header : Header C.keys) (acc : SharedState)
    (tx : Transaction C.keys) : Result SharedState :=
  let cache := resetCache { acc.cache with backend := acc.overlay }
  let called : Result (Bytes × NativeService) := do
    let blockHash ← header.hash C.sha256
    let service ← wrapError "HandleInvokeTransaction Error: " (newNativeService C.sha256
      C.ripemd160 cache tx header.timestamp header.height blockHash header.chainID tx.code false)
    (invoke contracts).run service
  match called with
  | .ok (_, t) =>
    .ok ⟨⟨{ t.cacheDB with backend := acc.overlay }.commit,
      acc.notify ++ [⟨tx.hash, CONTRACT_STATE_SUCCESS, t.notifications⟩],
      acc.crossHashes ++ t.crossHashes⟩, t.cacheDB⟩
  | .error (.error _) =>
    .ok ⟨{ acc.toBlockState with
      notify := acc.notify ++ [⟨tx.hash, CONTRACT_STATE_FAIL, []⟩] }, leftover⟩
  | .error (.panic msg) => .error (.panic msg)

/-- The loop, from the `i`-th transaction on. -/
def handleAllSharing (leftover : ℕ → CacheDB) (header : Header C.keys) :
    List (Transaction C.keys) → ℕ → SharedState → Result SharedState
  | [], _, acc => .ok acc
  | tx :: txs, i, acc => do
    let acc ← handleSharing C contracts (leftover i) header acc tx
    handleAllSharing leftover header txs (i + 1) acc

variable (leftover : ℕ → CacheDB)

/-- `executeBlock` from a block cache and a transaction cache; they are new ones in the source. -/
def executeBlockSharing (overlay : OverlayDB) (cache : CacheDB)
    (st : StateStore) (block : LedgerBlock C) : Result ExecuteResult := do
  let acc ← handleAllSharing C contracts leftover block.header block.transactions 0
    ⟨⟨overlay, [], []⟩, cache⟩
  let crossStatesRoot ← crossStatesRoot C acc.crossHashes
  let hash := acc.overlay.changeHash C.sha256
  let merkleRoot ← st.getStateMerkleRootWithNewHash C.sha256 hash
  return ⟨acc.overlay.getWriteSet, acc.crossHashes, crossStatesRoot, hash, merkleRoot, acc.notify⟩

variable {C contracts}

/-- A reset cache is as good as a new one: what it held before the transaction does not matter. -/
theorem handleSharing_eq (leftover : CacheDB) (header : Header C.keys) (acc : SharedState)
    (tx : Transaction C.keys) :
    handleSharing C contracts leftover header acc tx >>= (fun acc => .ok acc.toBlockState) =
      handleTransaction C contracts header acc.toBlockState tx := by
  have hcall : (do
      let blockHash ← header.hash C.sha256
      let service ← wrapError "HandleInvokeTransaction Error: " (newNativeService C.sha256
        C.ripemd160 (resetCache { acc.cache with backend := acc.overlay }) tx header.timestamp
        header.height blockHash header.chainID tx.code false)
      (invoke contracts).run service) =
        invokeService C header acc.overlay tx >>= (invoke contracts).run := by
    rw [invokeService, bind_assoc]
    rfl
  unfold handleSharing handleTransaction handleInvokeTransaction
  simp only [hcall]
  cases invokeService C header acc.overlay tx with
  | error e => cases e <;> rfl
  | ok service =>
    rw [ok_bind, ok_bind]
    cases (invoke contracts).run service with
    | error e => cases e <;> rfl
    | ok x => rfl

theorem handleAllSharing_eq (header : Header C.keys)
    (txs : List (Transaction C.keys)) (i : ℕ) (acc : SharedState) :
    handleAllSharing C contracts leftover header txs i acc >>= (fun acc => .ok acc.toBlockState) =
      txs.foldlM (handleTransaction C contracts header) acc.toBlockState := by
  induction txs generalizing i acc with
  | nil => rfl
  | cons tx txs ih =>
    rw [foldlM_cons, ← handleSharing_eq (leftover i), handleAllSharing, bind_assoc, bind_assoc]
    refine bind_congr fun acc' => ?_
    exact ih (i + 1) acc'

/-- What a block's transactions leave, turned into the result of the block. -/
def blockResult (C : Crypto) (st : StateStore) (acc : BlockState) : Result ExecuteResult := do
  let crossStatesRoot ← crossStatesRoot C acc.crossHashes
  let hash := acc.overlay.changeHash C.sha256
  let merkleRoot ← st.getStateMerkleRootWithNewHash C.sha256 hash
  return ⟨acc.overlay.getWriteSet, acc.crossHashes, crossStatesRoot, hash, merkleRoot, acc.notify⟩

theorem executeBlockSharing_eq_foldlM (overlay : OverlayDB)
    (cache : CacheDB) (st : StateStore) (block : LedgerBlock C) :
    executeBlockSharing C contracts leftover overlay cache st block =
      block.transactions.foldlM (handleTransaction C contracts block.header) ⟨overlay, [], []⟩ >>=
        blockResult C st := by
  rw [← handleAllSharing_eq leftover block.header block.transactions 0 ⟨⟨overlay, [], []⟩, cache⟩,
    bind_assoc]
  rfl

end Reuse

variable (programs : ProgramContracts)

variable (header : Header C.keys)

variable (tx : Transaction C.keys)

/-- The call that a transaction of a block makes; it does not depend on the storage. -/
def txContext : Result CallContext := do
  let service ← invokeService C header (OverlayDB.new OrderedMap.empty) tx
  return service.context

/-- What a transaction contributes to its block. -/
structure TxOutcome where
  txHash : Uint256
  state : UInt8
  writes : List Write
  leaves : List Bytes
  notify : List NotifyEventInfo

/-- A transaction whose call succeeds contributes what its program did, a failed one nothing. -/
def txOutcome (view : View) (tx : Transaction C.keys) :
    Result TxOutcome :=
  let traced : Result (Trace Bytes) := do
    let ctx ← txContext C header tx
    let p ← calledProgram programs ctx
    let _ ← (p.trace view).result
    return p.trace view
  match traced with
  | .ok t => .ok ⟨tx.hash, CONTRACT_STATE_SUCCESS, t.writes, t.leaves, t.notify⟩
  | .error (.error _) => .ok ⟨tx.hash, CONTRACT_STATE_FAIL, [], [], []⟩
  | .error (.panic msg) => .error (.panic msg)

/-- The transactions one after the other, each on the storage with the writes of those before. -/
def sequentialOutcomes (header : Header C.keys) :
    List (Transaction C.keys) → View → Result (List TxOutcome)
  | [], _ => .ok []
  | tx :: txs, view => do
    let outcome ← txOutcome C programs header view tx
    let outcomes ← sequentialOutcomes header txs (outcome.writes.foldl Write.onView view)
    return outcome :: outcomes

variable (overlay : OverlayDB)

/-- A block cache with all writes of some outcomes, their leaf hashes and their notifications. -/
def gathered (outcomes : List TxOutcome) : BlockState :=
  ⟨⟨overlay.store, (outcomes.flatMap (·.writes)).foldl Write.onMemDB overlay.memdb⟩,
    outcomes.map fun o => ⟨o.txHash, o.state, o.notify⟩,
    outcomes.flatMap fun o => o.leaves.map (hashLeaf C.sha256)⟩

/-- Contract storage behind a block cache. -/
def storageView : View := fun key => overlay.get (ST_STORAGE :: key)

variable {C programs}

theorem invokeService_eq :
    invokeService C header overlay tx =
      txContext C header tx >>= fun ctx => .ok (ctx.service (CacheDB.new overlay)) := by
  unfold txContext invokeService newNativeService
  cases header.hash C.sha256 with
  | error e => rfl
  | ok blockHash =>
    rw [ok_bind]
    by_cases h : tx.chainID ≠ header.chainID
    · rw [failIf, if_pos h]
      rfl
    · rw [failIf_of_not h]
      rfl

theorem txContext_contexts {header tx ctx} (h : txContext C header tx = .ok ctx) :
    ctx.contexts = [] := by
  obtain ⟨service, hs, h⟩ := bind_ok.mp h
  obtain ⟨blockHash, -, hs⟩ := bind_ok.mp hs
  obtain ⟨_, -, hs⟩ := bind_ok.mp (wrapError_ok.mp hs)
  cases hs
  cases h
  rfl

/-- The call of a transaction, by the program that it runs on the storage of the block cache. -/
theorem handleInvokeTransaction_eq :
    handleInvokeTransaction C (contractsOf C.sha256 programs) header overlay tx =
      txContext C header tx >>= fun ctx => calledProgram programs ctx >>= fun p =>
      wrapError "[Invoke] Native serivce function execute error:"
        (p.trace (storageView overlay)).result >>= fun _ =>
      .ok (⟨overlay.store, (p.trace (storageView overlay)).writes.foldl Write.onMemDB
        overlay.memdb⟩, (p.trace (storageView overlay)).notify,
        (p.trace (storageView overlay)).leaves.map (hashLeaf C.sha256)) := by
  rw [handleInvokeTransaction, invokeService_eq, bind_assoc]
  cases hctx : txContext C header tx with
  | error e => rw [error_bind, error_bind]
  | ok ctx =>
    have hinvoke := congrArg (fun r => r >>= fun x => Except.ok
        ({ x.1 with backend := overlay }.commit, x.2.1, x.2.2))
      (invoke_contractsOf C.sha256 programs (txContext_contexts hctx) (CacheDB.new overlay))
    simp only [bind_assoc, ok_bind] at hinvoke ⊢
    refine hinvoke.trans (bind_congr fun p => bind_congr fun _ => ?_)
    have hback : (foldl Write.onCache (CacheDB.new overlay)
        (p.trace (CacheDB.new overlay).get).writes).backend = overlay :=
      (Write.memdb_foldl_onCache _ _).2
    rw [CacheDB.with_backend_eq hback, Write.commit_foldl_onCache]
    rfl

/-- One transaction adds its outcome to what the block has gathered. -/
theorem handleTransaction_eq (acc : BlockState) (tx : Transaction C.keys) :
    handleTransaction C (contractsOf C.sha256 programs) header acc tx =
      txOutcome C programs header (storageView acc.overlay) tx >>= fun o =>
        .ok ⟨⟨acc.overlay.store, o.writes.foldl Write.onMemDB acc.overlay.memdb⟩,
          acc.notify ++ [⟨o.txHash, o.state, o.notify⟩],
          acc.crossHashes ++ o.leaves.map (hashLeaf C.sha256)⟩ := by
  rw [handleTransaction, handleInvokeTransaction_eq, txOutcome]
  have hfailed : acc.crossHashes ++ ([] : List Bytes).map (hashLeaf C.sha256) = acc.crossHashes :=
    append_nil _
  cases txContext C header tx with
  | error e =>
    cases e with
    | error msg => simp only [error_bind, ok_bind, hfailed, foldl_nil]
    | panic msg => rfl
  | ok ctx =>
    cases hp : calledProgram programs ctx with
    | error e =>
      cases e with
      | error msg => simp only [hp, error_bind, ok_bind, hfailed, foldl_nil]
      | panic msg =>
        simp only [hp, error_bind, ok_bind]
    | ok p =>
      cases hr : (p.trace (storageView acc.overlay)).result with
      | error e =>
        cases e with
        | error msg =>
          simp [hp, hr, error_bind, ok_bind, foldl_nil, wrapError]
        | panic msg =>
          simp only [hp, hr, error_bind, ok_bind, wrapError]
      | ok r =>
        simp only [hp, hr, ok_bind, wrapError]
        rfl

theorem storageView_onMemDB (w : Write) :
    storageView ⟨overlay.store, w.onMemDB overlay.memdb⟩ = w.onView (storageView overlay) := by
  funext k
  refine (OverlayDB.get_put overlay (ST_STORAGE :: w.key) (ST_STORAGE :: k) w.value).trans ?_
  simp only [Write.onView, List.cons.injEq, true_and]
  rfl

/-- After a transaction the storage is what its writes make of it. -/
theorem storageView_writes (writes : List Write) (overlay : OverlayDB) :
    storageView ⟨overlay.store, writes.foldl Write.onMemDB overlay.memdb⟩ =
      writes.foldl Write.onView (storageView overlay) := by
  induction writes generalizing overlay with
  | nil => rfl
  | cons w writes ih =>
    rw [foldl_cons, foldl_cons, ← storageView_onMemDB]
    exact ih ⟨overlay.store, w.onMemDB overlay.memdb⟩

theorem foldlM_handleTransaction (txs : List (Transaction C.keys)) (acc : BlockState) :
    txs.foldlM (handleTransaction C (contractsOf C.sha256 programs) header) acc =
      sequentialOutcomes C programs header txs (storageView acc.overlay) >>= fun outcomes =>
        .ok ⟨(gathered C acc.overlay outcomes).overlay,
          acc.notify ++ (gathered C acc.overlay outcomes).notify,
          acc.crossHashes ++ (gathered C acc.overlay outcomes).crossHashes⟩ := by
  induction txs generalizing acc with
  | nil => simp [sequentialOutcomes, gathered, pure, Except.pure]
  | cons tx txs ih =>
    rw [foldlM_cons, handleTransaction_eq, sequentialOutcomes, bind_assoc, bind_assoc]
    refine bind_congr fun o => ?_
    rw [ok_bind, ih, bind_assoc, storageView_writes]
    refine bind_congr fun outcomes => ?_
    simp [gathered, pure, Except.pure]

/-- Executing a block applies, in order, the writes of its successful transactions and collects
their leaf hashes, each transaction running on the storage left by the successful ones before it;
whatever failed transactions left in the transaction cache. -/
theorem executeBlockSharing_sequential (leftover : ℕ → CacheDB) (overlay : OverlayDB)
    (cache : CacheDB) (st : StateStore) (block : LedgerBlock C) :
    executeBlockSharing C (contractsOf C.sha256 programs) leftover overlay cache st block =
      sequentialOutcomes C programs block.header block.transactions (storageView overlay) >>=
        fun outcomes => blockResult C st (gathered C overlay outcomes) := by
  rw [executeBlockSharing_eq_foldlM, foldlM_handleTransaction, bind_assoc]
  refine bind_congr fun outcomes => ?_
  rw [ok_bind, List.nil_append, List.nil_append]

end Poly.Ledger
