import Poly.TxPool.Pool

/-! The server of the transaction pool: its workers, the validators and the block under
verification. Messages wait in lists; a step takes one of them or one critical section, so that the
steps of a run interleave as the goroutines do. -/
namespace Poly.TxPool

open Lib

section State

def MAX_CAPACITY : ℕ := 100140

/-- A transaction in verification; the flag has a bit for each kind of check. -/
structure PendingTx (K : Keys) where
  tx : Transaction K
  flag : VerifyType → Bool
  ret : List TXAttr

structure CheckTx (K : Keys) (n : ℕ) where
  workerId : Fin n
  tx : Transaction K

structure CheckResponse (n : ℕ) where
  workerId : Fin n
  type : VerifyType
  hash : Uint256
  height : UInt32
  errCode : ErrCode

structure Worker (K : Keys) (n : ℕ) where
  rcvTXCh : List (Transaction K)
  stfTxCh : List (Transaction K)
  rspCh : List (CheckResponse n)
  pendingTxList : OrderedMap Uint256 (PendingTx K)

/-- The block that the server is processing. The sender is the number of the request. -/
structure PendingBlock (K : Keys) where
  sender : Option ℕ
  height : UInt32
  processedTxs : OrderedMap Uint256 (VerifyTxResult K)
  unProcessedTxs : OrderedMap Uint256 (Transaction K)

/-- The server with `n` workers and what is on its way. -/
structure Server (K : Keys) (n : ℕ) where
  workers : Fin n → Worker K n
  txPool : TXPool K
  allPendingTxs : OrderedMap Uint256 (Transaction K)
  pendingBlock : PendingBlock K
  height : UInt32
  registered : VerifyType → Bool
  disablePreExec : Bool
  maxTxInBlock : ℕ
  /-- What `verifyBlock` has left to do while it holds the lock of the pending block. -/
  checking : Option (CheckBlkResult K)
  /-- Transactions that passed the first checks and wait for a slot. -/
  incoming : List (Transaction K)
  /-- Old transactions that `getTxPool` deletes and verifies again. -/
  stale : List (Transaction K)
  /-- Transactions that are verified again after a block. -/
  remaining : List (Transaction K)
  requests : List (VerifyType × CheckTx K n)
  responses : List (CheckResponse n)
  /-- Calls of `removePendingTx`, and after it of `checkPendingBlockOk`, that are to come. -/
  removals : List (Uint256 × ErrCode)
  checks : List (Uint256 × ErrCode)
  /-- The requests of the consensus and the answers, in order. -/
  asked : List (List (Transaction K))
  replies : List (ℕ × List (VerifyTxResult K))
  /-- The transactions whose signatures a stateless validator has accepted. -/
  checked : List (Transaction K)

variable {K : Keys} {n : ℕ}

def Worker.init : Worker K n := ⟨[], [], [], OrderedMap.empty⟩

def newTxPoolServer (disablePreExec : Bool) (maxTxInBlock : ℕ) : Server K n where
  workers _ := Worker.init
  txPool := OrderedMap.empty
  allPendingTxs := OrderedMap.empty
  pendingBlock := ⟨none, 0, OrderedMap.empty, OrderedMap.empty⟩
  height := 0
  registered _ := false
  disablePreExec := disablePreExec
  maxTxInBlock := maxTxInBlock
  checking := none
  incoming := []
  stale := []
  remaining := []
  requests := []
  responses := []
  removals := []
  checks := []
  asked := []
  replies := []
  checked := []

end State

namespace Server

variable {K : Keys} {n : ℕ} (s : Server K n)

variable (w : Fin n)

def updateWorker (f : Worker K n → Worker K n) : Server K n :=
  { s with workers := Function.update s.workers w (f (s.workers w)) }

variable (tx : Transaction K)

def setPendingTx : Server K n :=
  { s with allPendingTxs := s.allPendingTxs.insert tx.hash tx }

/-- The worker that gets a transaction is the one with the least load; here it may be any. -/
def assignTxToWorker (w : Fin n) : Server K n :=
  match s.allPendingTxs.get tx.hash with
  | some _ => s
  | none => (s.setPendingTx tx).updateWorker w fun k => { k with rcvTXCh := k.rcvTXCh ++ [tx] }

def reVerifyStateful (w : Fin n) : Server K n :=
  match s.allPendingTxs.get tx.hash with
  | some _ => s
  | none => (s.setPendingTx tx).updateWorker w fun k => { k with stfTxCh := k.stfTxCh ++ [tx] }

/-- A request to one validator of each kind that is registered. -/
def sendReq2Validator (req : CheckTx K n) : Server K n :=
  { s with requests := s.requests ++
      (([VerifyType.stateless, .stateful].filter s.registered).map fun k => (k, req)) }

def sendReq2StatefulV (req : CheckTx K n) : Server K n :=
  if s.registered .stateful then { s with requests := s.requests ++ [(.stateful, req)] } else s

variable (hash : Uint256)

variable (err : ErrCode)

/-- The call itself is a later step. -/
def callRemovePendingTx : Server K n :=
  { s with removals := s.removals ++ [(hash, err)] }

variable (pt : PendingTx K)

def setPending : Server K n :=
  s.updateWorker w fun k => { k with pendingTxList := k.pendingTxList.insert hash pt }

def deletePending : Server K n :=
  s.updateWorker w fun k => { k with pendingTxList := k.pendingTxList.erase hash }

def verifyTx : Server K n :=
  match s.txPool.get tx.hash with
  | some _ => s.callRemovePendingTx tx.hash .duplicateInput
  | none =>
    match (s.workers w).pendingTxList.get tx.hash with
    | some _ => s
    | none => (s.sendReq2Validator ⟨w, tx⟩).setPending w tx.hash ⟨tx, fun _ => false, []⟩

/-- The signatures were verified when the transaction came into the pool. -/
def verifyStateful : Server K n :=
  (s.setPending w tx.hash ⟨tx, fun k => k = .stateless, [⟨0, .stateless, .noError⟩]⟩)
    |>.sendReq2StatefulV ⟨w, tx⟩

def putTxPool : Server K n :=
  { s with txPool := s.txPool.addTxList ⟨pt.tx, pt.ret⟩ }.callRemovePendingTx pt.tx.hash .noError

variable (rsp : CheckResponse n)

/-- A first answer of its kind sets the bit and is recorded. -/
def PendingTx.record : PendingTx K :=
  if pt.flag rsp.type then pt
  else { pt with
    flag := Function.update pt.flag rsp.type true
    ret := pt.ret ++ [⟨rsp.height, rsp.type, rsp.errCode⟩] }

/-- An answer belongs to the transaction that is in verification under its hash. -/
def handleRsp : Server K n :=
  match (s.workers w).pendingTxList.get rsp.hash with
  | none => s
  | some pt =>
    if rsp.errCode ≠ .noError then
      (s.deletePending w rsp.hash).callRemovePendingTx rsp.hash rsp.errCode
    else if rsp.type = .stateful ∧ rsp.height < s.height then
      s.sendReq2StatefulV ⟨w, pt.tx⟩
    else
      let pt := PendingTx.record pt rsp
      if pt.flag .stateless && pt.flag .stateful then
        (s.putTxPool pt).deletePending w rsp.hash
      else
        s.setPending w rsp.hash pt

/-- The timer found the transaction unverified for too long; there are no retries. -/
def handleTimeoutEvent : Server K n :=
  match (s.workers w).pendingTxList.get hash with
  | none => s
  | some pt =>
    if pt.flag .stateless && pt.flag .stateful then s
    else (s.deletePending w hash).callRemovePendingTx hash .retryExhausted

def sendBlkResult2Consensus : Server K n :=
  let rsp := s.pendingBlock.processedTxs.entries.map Prod.snd
  { s with
    replies := match s.pendingBlock.sender with
      | some id => s.replies ++ [(id, rsp)]
      | none => s.replies
    pendingBlock := { s.pendingBlock with processedTxs := OrderedMap.empty } }

def setProcessed (entry : VerifyTxResult K) : Server K n :=
  { s with pendingBlock := { s.pendingBlock with
      processedTxs := s.pendingBlock.processedTxs.insert hash entry } }

def setUnProcessed : Server K n :=
  { s with pendingBlock := { s.pendingBlock with
      unProcessedTxs := s.pendingBlock.unProcessedTxs.insert tx.hash tx } }

def removePendingTx : Server K n :=
  match s.allPendingTxs.get hash with
  | none => s
  | some _ => { s with
      allPendingTxs := s.allPendingTxs.erase hash
      checks := s.checks ++ [(hash, err)] }

def checkPendingBlockOk : Server K n :=
  match s.pendingBlock.unProcessedTxs.get hash with
  | none => s
  | some tx =>
    let s := s.setProcessed hash ⟨s.pendingBlock.height, tx, err⟩
    let s := { s with pendingBlock := { s.pendingBlock with
      unProcessedTxs := s.pendingBlock.unProcessedTxs.erase hash } }
    if err ≠ .noError ∨ s.pendingBlock.unProcessedTxs.size = 0 then s.sendBlkResult2Consensus
    else s

/-- The first transaction whose hash occurred before. -/
def findDuplicate : List Uint256 → List (Transaction K) → Option (Transaction K)
  | _, [] => none
  | seen, t :: txs => if t.hash ∈ seen then some t else findDuplicate (t.hash :: seen) txs

/-- The part of `verifyBlock` up to the look into the pool. -/
def verifyBlock (txs : List (Transaction K)) (height : UInt32) : Server K n :=
  let s := { s with
    height := height
    pendingBlock := ⟨some s.asked.length, height, OrderedMap.empty, OrderedMap.empty⟩
    asked := s.asked ++ [txs] }
  match findDuplicate [] txs with
  | some t => (s.setProcessed t.hash ⟨height, t, .doubleSpend⟩).sendBlkResult2Consensus
  | none =>
    let (res, txPool) := s.txPool.getUnverifiedTxs txs height
    { s with txPool := txPool, checking := some res }

/-- The rest of `verifyBlock`, one transaction at a time; the last step gives the lock back. -/
def continueBlock (res : CheckBlkResult K) (w : Fin n) : Server K n :=
  match res.unverifiedTxs, res.oldTxs with
  | t :: unverifiedTxs, _ =>
    { (s.assignTxToWorker t w).setUnProcessed t with
      checking := some { res with unverifiedTxs := unverifiedTxs } }
  | [], t :: oldTxs =>
    { (s.reVerifyStateful t w).setUnProcessed t with
      checking := some { res with oldTxs := oldTxs } }
  | [], [] =>
    let s := res.verifiedTxs.foldl (fun s t => s.setProcessed t.tx.hash t) { s with checking := none }
    if s.pendingBlock.unProcessedTxs.size = 0 then s.sendBlkResult2Consensus else s

/-- `handleTransaction` up to the wait for a slot. `permitted` is whether the ledger knows one of
the signing addresses as a relayer or an operator. -/
def handleTransaction (txn : Transaction K) (permitted : Bool) : Server K n :=
  if permitted = false then s
  else if txn.raw.length > MAX_TX_SIZE then s
  else if (s.txPool.get txn.hash).isSome then s
  else if s.txPool.size ≥ MAX_CAPACITY then s
  else { s with incoming := s.incoming ++ [txn] }

def getTxPool (byCount : Bool) (height : UInt32) : Server K n :=
  { s with
    height := height
    stale := s.stale ++ (s.txPool.getTxPool s.maxTxInBlock byCount height).2 }

def cleanTransactionList (txs : List (Transaction K)) : Server K n :=
  let txPool := s.txPool.cleanTransactionList txs
  if s.disablePreExec then { s with txPool := txPool }
  else { s with txPool := OrderedMap.empty, remaining := s.remaining ++ txPool.remain }

variable (sha256 : Bytes → Uint256) (ripemd160 : Bytes → Address)

/-- A validator answers one request. The height and the code of a stateful answer are those of the
ledger at that moment. -/
def validate (req : VerifyType × CheckTx K n) (height : UInt32) (errCode : ErrCode) : Server K n :=
  match req with
  | (.stateless, ⟨w, tx⟩) =>
    let code := verifyTransaction K sha256 ripemd160 tx
    { s with
      responses := s.responses ++ [⟨w, .stateless, tx.hash, 0, code⟩]
      checked := if code = .noError then s.checked ++ [tx] else s.checked }
  | (.stateful, ⟨w, tx⟩) =>
    { s with responses := s.responses ++ [⟨w, .stateful, tx.hash, height, errCode⟩] }

/-- `assignRspToWorker`. -/
def assignRspToWorker : Server K n :=
  s.updateWorker rsp.workerId fun k => { k with rspCh := k.rspCh ++ [rsp] }

end Server

/-- One event: a message from outside, or a message on its way that is taken. -/
inductive Action (K : Keys) (n : ℕ) where
  | register (type : VerifyType)
  | unregister (type : VerifyType)
  | transaction (txn : Transaction K) (permitted : Bool)
  | assign (w : Fin n)
  | getTxPool (byCount : Bool) (height : UInt32)
  | reverifyStale (w : Fin n)
  | saveBlock (txs : List (Transaction K))
  | reverifyRemaining (w : Fin n)
  | verifyBlock (txs : List (Transaction K)) (height : UInt32)
  | continueBlock (w : Fin n)
  | verifyTx (w : Fin n)
  | verifyStateful (w : Fin n)
  | handleRsp (w : Fin n)
  | timeout (w : Fin n) (hash : Uint256)
  | validate (i : ℕ) (height : UInt32) (errCode : ErrCode)
  | deliver (i : ℕ)
  | removePendingTx (i : ℕ)
  | checkPendingBlockOk (i : ℕ)

section Steps

variable {K : Keys} {n : ℕ} (sha256 : Bytes → Uint256) (ripemd160 : Bytes → Address)

variable (s : Server K n)

/-- The server after an event; an event that cannot happen changes nothing. -/
def step : Action K n → Server K n
  | .register type => { s with registered := Function.update s.registered type true }
  | .unregister type => { s with registered := Function.update s.registered type false }
  | .transaction txn permitted => s.handleTransaction txn permitted
  | .assign w =>
    match s.incoming with
    | [] => s
    | txn :: incoming => { s with incoming := incoming }.assignTxToWorker txn w
  | .getTxPool byCount height => s.getTxPool byCount height
  | .reverifyStale w =>
    match s.stale with
    | [] => s
    | t :: stale => { s with stale := stale, txPool := s.txPool.delTxList t }.reVerifyStateful t w
  | .saveBlock txs => s.cleanTransactionList txs
  | .reverifyRemaining w =>
    match s.remaining with
    | [] => s
    | t :: remaining => { s with remaining := remaining }.reVerifyStateful t w
  | .verifyBlock txs height =>
    if txs = [] ∨ s.checking.isSome then s else s.verifyBlock txs height
  | .continueBlock w =>
    match s.checking with
    | none => s
    | some res => s.continueBlock res w
  | .verifyTx w =>
    match (s.workers w).rcvTXCh with
    | [] => s
    | tx :: rest => (s.updateWorker w fun k => { k with rcvTXCh := rest }).verifyTx w tx
  | .verifyStateful w =>
    match (s.workers w).stfTxCh with
    | [] => s
    | tx :: rest => (s.updateWorker w fun k => { k with stfTxCh := rest }).verifyStateful w tx
  | .handleRsp w =>
    match (s.workers w).rspCh with
    | [] => s
    | rsp :: rest => (s.updateWorker w fun k => { k with rspCh := rest }).handleRsp w rsp
  | .timeout w hash => s.handleTimeoutEvent w hash
  | .validate i height errCode =>
    match s.requests[i]? with
    | none => s
    | some req => { s with requests := s.requests.eraseIdx i }.validate sha256 ripemd160 req height
        errCode
  | .deliver i =>
    match s.responses[i]? with
    | none => s
    | some rsp => { s with responses := s.responses.eraseIdx i }.assignRspToWorker rsp
  | .removePendingTx i =>
    match s.removals[i]? with
    | none => s
    | some (hash, err) =>
      { s with removals := s.removals.eraseIdx i }.removePendingTx hash err
  | .checkPendingBlockOk i =>
    -- `verifyBlock` holds the lock until it is done
    match s.checks[i]?, s.checking with
    | some (hash, err), none =>
      { s with checks := s.checks.eraseIdx i }.checkPendingBlockOk hash err
    | _, _ => s

def run (actions : List (Action K n)) : Server K n :=
  actions.foldl (step sha256 ripemd160) s

/-- What an event comes to. -/
inductive Event (s : Server K n) : Action K n → Server K n → Prop
  | nothing (a : Action K n) : Event s a s
  | register (type : VerifyType) :
      Event s (.register type) { s with registered := Function.update s.registered type true }
  | unregister (type : VerifyType) :
      Event s (.unregister type) { s with registered := Function.update s.registered type false }
  | accepted (txn : Transaction K) (permitted : Bool) :
      Event s (.transaction txn permitted) { s with incoming := s.incoming ++ [txn] }
  | assign {txn : Transaction K} {incoming : List (Transaction K)} (w : Fin n)
      (h : s.incoming = txn :: incoming) :
      Event s (.assign w) ({ s with incoming := incoming }.assignTxToWorker txn w)
  | getTxPool (byCount : Bool) (height : UInt32) :
      Event s (.getTxPool byCount height) (s.getTxPool byCount height)
  | reverifyStale {t : Transaction K} {stale : List (Transaction K)} (w : Fin n)
      (h : s.stale = t :: stale) :
      Event s (.reverifyStale w)
        ({ s with stale := stale, txPool := s.txPool.delTxList t }.reVerifyStateful t w)
  | saveBlock (txs : List (Transaction K)) : Event s (.saveBlock txs) (s.cleanTransactionList txs)
  | reverifyRemaining {t : Transaction K} {remaining : List (Transaction K)} (w : Fin n)
      (h : s.remaining = t :: remaining) :
      Event s (.reverifyRemaining w) ({ s with remaining := remaining }.reVerifyStateful t w)
  | verifyBlock {txs : List (Transaction K)} (height : UInt32) (hne : txs ≠ [])
      (hfree : s.checking = none) : Event s (.verifyBlock txs height) (s.verifyBlock txs height)
  | continueBlock {res : CheckBlkResult K} (w : Fin n) (h : s.checking = some res) :
      Event s (.continueBlock w) (s.continueBlock res w)
  | verifyTx {w : Fin n} {tx : Transaction K} {rest : List (Transaction K)}
      (h : (s.workers w).rcvTXCh = tx :: rest) :
      Event s (.verifyTx w) ((s.updateWorker w fun k => { k with rcvTXCh := rest }).verifyTx w tx)
  | verifyStateful {w : Fin n} {tx : Transaction K} {rest : List (Transaction K)}
      (h : (s.workers w).stfTxCh = tx :: rest) :
      Event s (.verifyStateful w)
        ((s.updateWorker w fun k => { k with stfTxCh := rest }).verifyStateful w tx)
  | handleRsp {w : Fin n} {rsp : CheckResponse n} {rest : List (CheckResponse n)}
      (h : (s.workers w).rspCh = rsp :: rest) :
      Event s (.handleRsp w) ((s.updateWorker w fun k => { k with rspCh := rest }).handleRsp w rsp)
  | timeout (w : Fin n) (hash : Uint256) : Event s (.timeout w hash) (s.handleTimeoutEvent w hash)
  | validate {i : ℕ} {req : VerifyType × CheckTx K n} (height : UInt32) (errCode : ErrCode)
      (h : s.requests[i]? = some req) :
      Event s (.validate i height errCode)
        ({ s with requests := s.requests.eraseIdx i }.validate sha256 ripemd160 req height errCode)
  | deliver {i : ℕ} {rsp : CheckResponse n} (h : s.responses[i]? = some rsp) :
      Event s (.deliver i) ({ s with responses := s.responses.eraseIdx i }.assignRspToWorker rsp)
  | removePendingTx {i : ℕ} {hash : Uint256} {err : ErrCode}
      (h : s.removals[i]? = some (hash, err)) :
      Event s (.removePendingTx i)
        ({ s with removals := s.removals.eraseIdx i }.removePendingTx hash err)
  | checkPendingBlockOk {i : ℕ} {hash : Uint256} {err : ErrCode}
      (h : s.checks[i]? = some (hash, err)) (hfree : s.checking = none) :
      Event s (.checkPendingBlockOk i)
        ({ s with checks := s.checks.eraseIdx i }.checkPendingBlockOk hash err)

theorem step_event (a : Action K n) :
    Event sha256 ripemd160 s a (step sha256 ripemd160 s a) := by
  cases a with
  | register type => exact .register type
  | unregister type => exact .unregister type
  | transaction txn permitted =>
    simp only [step, Server.handleTransaction]
    split_ifs
    · exact .nothing _
    · exact .nothing _
    · exact .nothing _
    · exact .nothing _
    · exact .accepted txn permitted
  | assign w =>
    simp only [step]
    split
    · exact .nothing _
    next h => exact .assign w h
  | getTxPool byCount height => exact .getTxPool byCount height
  | reverifyStale w =>
    simp only [step]
    split
    · exact .nothing _
    next h => exact .reverifyStale w h
  | saveBlock txs => exact .saveBlock txs
  | reverifyRemaining w =>
    simp only [step]
    split
    · exact .nothing _
    next h => exact .reverifyRemaining w h
  | verifyBlock txs height =>
    simp only [step]
    split
    · exact .nothing _
    next h =>
      obtain ⟨hne, hfree⟩ := not_or.mp h
      exact .verifyBlock height hne (Option.not_isSome_iff_eq_none.mp hfree)
  | continueBlock w =>
    simp only [step]
    split
    · exact .nothing _
    next h => exact .continueBlock w h
  | verifyTx w =>
    simp only [step]
    split
    · exact .nothing _
    next h => exact .verifyTx h
  | verifyStateful w =>
    simp only [step]
    split
    · exact .nothing _
    next h => exact .verifyStateful h
  | handleRsp w =>
    simp only [step]
    split
    · exact .nothing _
    next h => exact .handleRsp h
  | timeout w hash => exact .timeout w hash
  | validate i height errCode =>
    simp only [step]
    split
    · exact .nothing _
    next h => exact .validate height errCode h
  | deliver i =>
    simp only [step]
    split
    · exact .nothing _
    next h => exact .deliver h
  | removePendingTx i =>
    simp only [step]
    split
    · exact .nothing _
    next h => exact .removePendingTx h
  | checkPendingBlockOk i =>
    simp only [step]
    split
    next h hfree => exact .checkPendingBlockOk h hfree
    · exact .nothing _

end Steps

variable {K : Keys} {n : ℕ}

/-- How `VerifyBlock` ends for the consensus. -/
inductive Answer where
  | ok
  | failed (errCode : ErrCode)
  | timeout
  deriving DecidableEq

/-- `TxPoolActor.VerifyBlock` on the answer that came in time, if any. -/
def verifyBlockAnswer : Option (List (VerifyTxResult K)) → Answer
  | none => .timeout
  | some txentry =>
    match txentry.find? fun entry => entry.errCode ≠ .noError with
    | some entry => .failed entry.errCode
    | none => .ok

/-- The hashes of the last blocks. -/
structure IncrementValidator where
  blocks : List (List Uint256)
  baseHeight : UInt32

def IncrementValidator.verify (v : IncrementValidator) (tx : Transaction K) (startHeight : UInt32) :
    Bool :=
  if startHeight < v.baseHeight then false
  else (v.blocks.drop (startHeight - v.baseHeight).toNat).all fun hashes => tx.hash ∉ hashes

/-- Whether `processProposalMsg` hands a proposal with these transactions on: a time-out is
logged and passed over. -/
def proposalPassed (v : IncrementValidator) (txs : List (Transaction K)) (validHeight : UInt32)
    (reply : Option (List (VerifyTxResult K))) : Bool :=
  match verifyBlockAnswer reply with
  | .failed _ => false
  | .ok => txs.all fun tx => v.verify tx validHeight
  | .timeout => txs.all fun tx => v.verify tx validHeight

/-- The answer to the request with this number: only the first one counts. -/
def Server.answer (s : Server K n) (id : ℕ) : Option (List (VerifyTxResult K)) :=
  (s.replies.find? fun r => r.1 = id).map Prod.snd

end Poly.TxPool
