import Poly.Ledger.Execute
import Poly.TxPool.Requests

/-! Proposals that the consensus hands on, and the signatures behind their transactions. -/
namespace Poly.TxPool

open Lib Native Ledger List

variable {K : Keys} {n : ℕ} {sha256 : Bytes → Uint256} {ripemd160 : Bytes → Address}
  {s : Server K n}

theorem Kept.run (h : Kept sha256 ripemd160 s) (actions : List (Action K n)) :
    Kept sha256 ripemd160 (run sha256 ripemd160 s actions) := by
  induction actions generalizing s with
  | nil => exact h
  | cons a actions ih => exact ih (h.step (step_event sha256 ripemd160 s a))

/-- A good answer vouches for all transactions of the request. -/
theorem Kept.vouched (h : Kept sha256 ripemd160 s) {id txs reply} (hasked : s.asked[id]? = some txs)
    (hreply : s.answer id = some reply) (hgood : ∀ r ∈ reply, r.errCode = .noError) {tx}
    (htx : tx ∈ txs) : ∃ tx' ∈ s.checked, tx'.hash = tx.hash ∧
      verifyTransaction K sha256 ripemd160 tx' = .noError := by
  obtain ⟨V, hinv⟩ := h.inv
  obtain ⟨r, hr, hhash⟩ := h.books.all id txs reply hasked hreply hgood tx htx
  obtain ⟨x, hx, rfl⟩ := Option.map_eq_some_iff.mp hreply
  exact hinv.vouched _ (hhash ▸ hinv.replies x (mem_of_find?_eq_some hx) r hr (hgood r hr))

/-- Every transaction of the pool is under its hash, has a stateful answer, and a transaction with
this hash and good signatures was checked. -/
theorem pool_verified (disablePreExec : Bool) (maxTxInBlock : ℕ) (actions : List (Action K n)) :
    let s := run sha256 ripemd160 (newTxPoolServer disablePreExec maxTxInBlock) actions
    PoolInv (fun h => ∃ tx ∈ s.checked, tx.hash = h ∧
      verifyTransaction K sha256 ripemd160 tx = .noError) s.txPool := by
  intro s h e he
  obtain ⟨V, hinv⟩ := ((kept_newTxPoolServer disablePreExec maxTxInBlock).run actions).inv
  obtain ⟨hhash, hvouched, hattrs⟩ := hinv.pool h e he
  exact ⟨hhash, hinv.vouched h hvouched, hattrs⟩

section Endorsement

theorem verifyBlockAnswer_ok {reply : List (VerifyTxResult K)}
    (h : ∀ code, verifyBlockAnswer (some reply) ≠ .failed code) :
    ∀ r ∈ reply, r.errCode = .noError := by
  intro r hr
  by_contra hne
  have hfound : (reply.find? fun entry => entry.errCode ≠ .noError).isSome :=
    find?_isSome.mpr ⟨r, hr, by simpa using hne⟩
  obtain ⟨entry, hentry⟩ := Option.isSome_iff_exists.mp hfound
  refine h entry.errCode ?_
  simp only [verifyBlockAnswer, hentry]

variable (C : Crypto)

/-- A method at work on the transaction in a block with this header: whatever it has written, the
transaction and the contexts are those of its call. -/
def Executes (header : Header C.keys) (overlay : OverlayDB) (tx : Transaction C.keys)
    (s : NativeService) : Prop :=
  ∃ service param, invokeService C header overlay tx = .ok service ∧
    s.tx = (service.called param).tx ∧ s.contexts = (service.called param).contexts

variable {C}

theorem Executes.backed {header overlay tx s} (h : Executes C header overlay tx s) {addresses}
    (hcheck : checkTransactionSignatures C.keys C.sha256 C.ripemd160 tx = .ok addresses)
    (hsigned : tx.signedAddr = [] ∨ tx.signedAddr = addresses) {address}
    (hwitness : s.checkWitness address = true) : Backed C.keys C.sha256 C.ripemd160 tx address := by
  obtain ⟨service, param, hservice, htx, hcontexts⟩ := h
  obtain ⟨blockHash, -, hnew⟩ := bind_ok.mp hservice
  obtain ⟨_, -, hnew⟩ := bind_ok.mp (wrapError_ok.mp hnew)
  cases hnew
  refine backed_of_checkWitness hcheck hsigned ?_ ?_ hwitness
  · rw [hcontexts]
    exact Nat.one_lt_two
  · rw [htx]
    rfl

/-- A proposal that the pool answered for in time and that was handed on: each of its transactions
has the hash of one whose signatures a validator has accepted. Where no accepted transaction with
that hash carries other signatures, those of the proposal pass the check themselves, and every
address that its execution is a witness of is backed by them. -/
theorem proposal_signed (disablePreExec : Bool) (maxTxInBlock : ℕ)
    (actions : List (Action C.keys n)) {id : ℕ} {txs : List (Transaction C.keys)}
    {reply : List (VerifyTxResult C.keys)} {v : IncrementValidator} {validHeight : UInt32}
    (hasked : (run C.sha256 C.ripemd160 (newTxPoolServer disablePreExec maxTxInBlock)
      actions).asked[id]? = some txs)
    (hreply : (run C.sha256 C.ripemd160 (newTxPoolServer disablePreExec maxTxInBlock)
      actions).answer id = some reply)
    (hpassed : proposalPassed v txs validHeight (some reply) = true) :
    ∀ tx ∈ txs,
      (∃ tx' ∈ (run C.sha256 C.ripemd160 (newTxPoolServer disablePreExec maxTxInBlock)
        actions).checked, tx'.hash = tx.hash ∧
          ∃ addresses, checkTransactionSignatures C.keys C.sha256 C.ripemd160 tx' =
            .ok addresses) ∧
      ((∀ tx' ∈ (run C.sha256 C.ripemd160 (newTxPoolServer disablePreExec maxTxInBlock)
        actions).checked, tx'.hash = tx.hash → tx'.sigs = tx.sigs) →
        ∃ addresses, checkTransactionSignatures C.keys C.sha256 C.ripemd160 tx = .ok addresses ∧
          ((tx.signedAddr = [] ∨ tx.signedAddr = addresses) →
            ∀ header overlay s address, Executes C header overlay tx s →
              s.checkWitness address = true →
              Backed C.keys C.sha256 C.ripemd160 tx address)) := by
  intro tx htx
  have hkept : Kept C.sha256 C.ripemd160 _ :=
    (kept_newTxPoolServer disablePreExec maxTxInBlock).run actions
  have hgood : ∀ r ∈ reply, r.errCode = .noError := by
    apply verifyBlockAnswer_ok
    intro code hcode
    simp [proposalPassed, hcode] at hpassed
  obtain ⟨tx', hmem, hhash, hcode⟩ := hkept.vouched hasked hreply hgood htx
  obtain ⟨addresses, hcheck⟩ := verifyTransaction_noError.mp hcode
  refine ⟨⟨tx', hmem, hhash, addresses, hcheck⟩, fun hsame => ?_⟩
  have hcheck' := (checkTransactionSignatures_congr hhash (hsame tx' hmem hhash)).symm.trans hcheck
  refine ⟨addresses, hcheck', fun hsigned header overlay s address hs hwitness => ?_⟩
  exact hs.backed hcheck' hsigned hwitness

end Endorsement

def echoCrypto : Crypto where
  keys := echoKeys
  sha256 := zeroPad 32
  ripemd160 := zeroPad 20
  toBase58 := Subtype.val
  addressFromBase58 _ := .error (.error "wrong encoded address")
  vrfValidatePublicKey _ := true

/-- The same transaction with different signatures. -/
def sampleTx (sigs : List (Sig echoCrypto.keys)) : Transaction echoCrypto.keys where
  version := 0
  nonce := 0
  chainID := 0
  gasLimit := 0
  gasPrice := 0
  code := []
  payer := Address.empty
  sigs := sigs
  raw := []
  hash := zeroPad 32 [1]
  signedAddr := []

def sampleSigned : Transaction echoCrypto.keys :=
  sampleTx [⟨[2 :: (zeroPad 32 [1] : Uint256).val], [[2]], 1⟩]

/-- An entry for a key that has signed nothing. -/
def sampleForged : Transaction echoCrypto.keys := sampleTx [⟨[[0]], [[3]], 1⟩]

variable (tx : Transaction echoCrypto.keys)

/-- The signed transaction enters the pool; then the consensus asks for the given one. -/
instance neZeroOne : NeZero 1 := ⟨Nat.one_ne_zero⟩

def sampleActions : List (Action echoCrypto.keys 1) :=
  [.register .stateless, .register .stateful, .transaction sampleSigned true, .assign 0,
    .verifyTx 0, .validate 0 0 .noError, .validate 0 0 .noError, .deliver 0, .deliver 0,
    .handleRsp 0, .handleRsp 0, .removePendingTx 0, .verifyBlock [tx] 0, .continueBlock 0]

def sampleRun : Server echoCrypto.keys 1 :=
  run echoCrypto.sha256 echoCrypto.ripemd160 (newTxPoolServer false 10) (sampleActions tx)

def echoHeader : Header echoCrypto.keys :=
  ⟨⟨0, 0, Uint256.empty, Uint256.empty, Uint256.empty, Uint256.empty, 0, 0, 0, [], Address.empty⟩,
    [], []⟩

/-- The service that a method finds when the forged transaction calls it. -/
def sampleService : NativeService where
  cacheDB := CacheDB.new (OverlayDB.new OrderedMap.empty)
  chainID := 0
  notifications := []
  input := []
  tx := ⟨zeroPad 32 [1],
    (sampleForged.getSignatureAddresses echoCrypto.keys echoCrypto.sha256
      echoCrypto.ripemd160).toOption⟩
  height := 0
  time := 0
  blockHash := (echoHeader.hash echoCrypto.sha256).toOption.getD Uint256.empty
  crossHashes := []
  contexts := []
  preExec := false

theorem sampleForged_not_backed (address : Address) :
    ¬ Backed echoCrypto.keys echoCrypto.sha256 echoCrypto.ripemd160 sampleForged address := by
  rintro ⟨sig, hsig, hproves⟩
  cases mem_singleton.mp hsig
  obtain ⟨js, hlen, -, hsigned⟩ := hproves.signed
  obtain ⟨j, rfl⟩ := length_eq_one_iff.mp hlen
  obtain ⟨key, hkey, raw, hraw, sig, hsig, hverify⟩ := hsigned j (mem_singleton_self j)
  cases mem_singleton.mp (mem_of_getElem? hkey)
  cases mem_singleton.mp hraw
  cases hsig
  exact absurd hverify (by decide)

/-- The pool has seen the hash of the forged transaction with other signatures and answers for
it; and where no answer comes in time, nothing is checked. Either way it is handed on, and it is a
witness of an address that no signature backs. -/
theorem forged_handed_on :
    (sampleRun sampleForged).asked[0]? = some [sampleForged] ∧
      ((sampleRun sampleForged).answer 0).isSome = true ∧
      proposalPassed ⟨[], 0⟩ [sampleForged] 0 ((sampleRun sampleForged).answer 0) = true ∧
      proposalPassed ⟨[], 0⟩ [sampleForged] 0 none = true ∧
      (∀ addresses, checkTransactionSignatures echoCrypto.keys echoCrypto.sha256
        echoCrypto.ripemd160 sampleForged ≠ .ok addresses) ∧
      ∃ overlay s address, Executes echoCrypto echoHeader overlay sampleForged s ∧
        s.checkWitness address = true ∧
        ¬ Backed echoCrypto.keys echoCrypto.sha256 echoCrypto.ripemd160 sampleForged address := by
  refine ⟨rfl, by decide +kernel, by decide +kernel, by decide, ?_, ?_⟩
  · intro addresses hcheck
    have hcode := verifyTransaction_noError.mpr ⟨addresses, hcheck⟩
    exact absurd hcode (by decide +kernel)
  · refine ⟨OverlayDB.new OrderedMap.empty, sampleService.called ⟨0, Address.empty, [], []⟩,
      addressFromPubKey echoCrypto.keys echoCrypto.sha256 echoCrypto.ripemd160 ([3] : Bytes),
      ⟨sampleService, ⟨0, Address.empty, [], []⟩, ?_, rfl, rfl⟩, ?_, sampleForged_not_backed _⟩
    · decide +kernel
    · decide +kernel

/-- A proposal of the transaction that the pool has verified. -/
theorem signed_handed_on :
    ((sampleRun sampleSigned).answer 0).isSome = true ∧
      ∃ addresses, checkTransactionSignatures echoCrypto.keys echoCrypto.sha256
        echoCrypto.ripemd160 sampleSigned = .ok addresses ∧
        ∀ header overlay s address, Executes echoCrypto header overlay sampleSigned s →
          s.checkWitness address = true →
          Backed echoCrypto.keys echoCrypto.sha256 echoCrypto.ripemd160 sampleSigned address := by
  have hsome : ((sampleRun sampleSigned).answer 0).isSome = true := by decide +kernel
  obtain ⟨reply, hreply⟩ := Option.isSome_iff_exists.mp hsome
  have hpassed : proposalPassed ⟨[], 0⟩ [sampleSigned] 0 (some reply) = true := by
    rw [← hreply]
    decide +kernel
  have hchecked : (sampleRun sampleSigned).checked = [sampleSigned] := rfl
  obtain ⟨-, hsigned⟩ := proposal_signed false 10 (sampleActions sampleSigned)
    rfl hreply hpassed
    sampleSigned (mem_singleton_self _)
  obtain ⟨addresses, hcheck, hbacked⟩ := hsigned fun tx' htx' _ => by
    cases mem_singleton.mp (hchecked ▸ htx')
    rfl
  exact ⟨hsome, addresses, hcheck, hbacked (.inl rfl)⟩

end Poly.TxPool
