import Poly.TxPool.Server

/-! What holds of the pool over every run: a hash counts as verified only where a stateless
validator has accepted some transaction with that hash. -/
namespace Poly.TxPool

open Lib List OrderedMap Option Function

variable {K : Keys} {n : ℕ} {sha256 : Bytes → Uint256} {ripemd160 : Bytes → Address}
  {V : Uint256 → Prop} {s : Server K n}

/-- A good stateless answer is for a vouched hash. -/
def Answered (V : Uint256 → Prop) (rsp : CheckResponse n) : Prop :=
  rsp.type = .stateless → rsp.errCode = .noError → V rsp.hash

/-- One of the transactions has the hash. -/
def Mentions (txs : List (Transaction K)) (h : Uint256) : Prop := ∃ tx ∈ txs, tx.hash = h

theorem forall_mem_concat {α : Type} {p : α → Prop} {l a} (hl : ∀ x ∈ l, p x) (ha : p a) :
    ∀ x ∈ l ++ [a], p x := forall_mem_append.mpr ⟨hl, forall_mem_singleton.mpr ha⟩

def HasStateful (attrs : List TXAttr) : Prop := ∃ v ∈ attrs, v.type = .stateful

/-- A worker marks only vouched hashes, and has the answers that it marks. -/
structure WorkerInv (V : Uint256 → Prop) (k : Worker K n) : Prop where
  pending : ∀ h pt, k.pendingTxList.get h = some pt → pt.tx.hash = h ∧
    (pt.flag .stateless = true → V h) ∧ (pt.flag .stateful = true → HasStateful pt.ret)
  stateful : ∀ tx ∈ k.stfTxCh, V tx.hash
  answers : ∀ rsp ∈ k.rspCh, Answered V rsp

/-- The entries of the pool are under their hash, vouched, and carry a stateful answer. -/
def PoolInv (V : Uint256 → Prop) (tp : TXPool K) : Prop :=
  ∀ h e, tp.get h = some e → e.tx.hash = h ∧ V h ∧ HasStateful e.attrs

/-- What the server takes for verified is vouched. -/
structure Inv (sha256 : Bytes → Uint256) (ripemd160 : Bytes → Address) (V : Uint256 → Prop)
    (s : Server K n) : Prop where
  vouched : ∀ h, V h → ∃ tx ∈ s.checked, tx.hash = h ∧
    verifyTransaction K sha256 ripemd160 tx = .noError
  workers : ∀ w, WorkerInv V (s.workers w)
  pool : PoolInv V s.txPool
  stale : ∀ tx ∈ s.stale, V tx.hash
  remaining : ∀ tx ∈ s.remaining, V tx.hash
  responses : ∀ rsp ∈ s.responses, Answered V rsp
  removals : ∀ x ∈ s.removals, x.2 = .noError → V x.1
  checks : ∀ x ∈ s.checks, x.2 = .noError → V x.1
  waiting : ∀ h tx, s.pendingBlock.unProcessedTxs.get h = some tx → tx.hash = h
  processed : ∀ h r, s.pendingBlock.processedTxs.get h = some r → r.errCode = .noError → V r.tx.hash
  old : ∀ res ∈ s.checking, ∀ t ∈ res.oldTxs, V t.hash
  verified : ∀ res ∈ s.checking, ∀ r ∈ res.verifiedTxs, V r.tx.hash
  replies : ∀ x ∈ s.replies, ∀ r ∈ x.2, r.errCode = .noError → V r.tx.hash

theorem inv_newTxPoolServer (disablePreExec : Bool) (maxTxInBlock : ℕ) :
    Inv sha256 ripemd160 (fun _ => False)
      (newTxPoolServer disablePreExec maxTxInBlock : Server K n) where
  vouched _ h := h.elim
  workers _ := ⟨nofun, nofun, nofun⟩
  pool := nofun
  stale := nofun
  remaining := nofun
  responses := nofun
  removals := nofun
  checks := nofun
  waiting := nofun
  processed := nofun
  old := nofun
  verified := nofun
  replies := nofun

/-- A worker gets a transaction unless it is pending already. -/
def Server.handOver (s : Server K n) (tx : Transaction K) (w : Fin n) (f : Worker K n → Worker K n) :
    Server K n :=
  match s.allPendingTxs.get tx.hash with
  | some _ => s
  | none => (s.setPendingTx tx).updateWorker w f

section Workers

section

variable (h : Inv sha256 ripemd160 V s)
include h

theorem Inv.updateWorker {w} {f : Worker K n → Worker K n} (hf : WorkerInv V (f (s.workers w))) :
    Inv sha256 ripemd160 V (s.updateWorker w f) := by
  refine { h with workers := fun w' => ?_ }
  by_cases hw : w' = w
  · subst hw
    simpa only [Server.updateWorker, update_self] using hf
  · simpa only [Server.updateWorker, update_of_ne hw] using h.workers w'

theorem Inv.callRemovePendingTx {hash err} (hv : err = .noError → V hash) :
    Inv sha256 ripemd160 V (s.callRemovePendingTx hash err) := by
  exact { h with removals := forall_mem_concat h.removals hv }

theorem Inv.sendReq2StatefulV (req : CheckTx K n) :
    Inv sha256 ripemd160 V (s.sendReq2StatefulV req) := by
  unfold Server.sendReq2StatefulV
  split
  · exact { h with }
  · exact h

theorem Inv.setPending (w : Fin n) (pt : PendingTx K) {hash}
    (hpt : pt.tx.hash = hash ∧ (pt.flag .stateless = true → V hash) ∧
      (pt.flag .stateful = true → HasStateful pt.ret)) :
    Inv sha256 ripemd160 V (s.setPending w hash pt) := by
  exact h.updateWorker { h.workers w with
    pending := forall_get_insert (h.workers w).pending hpt }

theorem Inv.deletePending (w : Fin n) (hash : Uint256) :
    Inv sha256 ripemd160 V (s.deletePending w hash) :=
  h.updateWorker { h.workers w with pending := forall_get_erase (h.workers w).pending hash }

theorem Inv.handOver (tx : Transaction K) {w} {f : Worker K n → Worker K n}
    (hf : WorkerInv V (f (s.workers w))) : Inv sha256 ripemd160 V (s.handOver tx w f) := by
  unfold Server.handOver
  split
  · exact h
  · have hset : Inv sha256 ripemd160 V (s.setPendingTx tx) := { h with }
    exact hset.updateWorker hf

theorem Inv.assignTxToWorker (tx : Transaction K) (w : Fin n) :
    Inv sha256 ripemd160 V (s.assignTxToWorker tx w) :=
  h.handOver tx { h.workers w with }

theorem Inv.reVerifyStateful {tx} (w : Fin n) (hv : V tx.hash) :
    Inv sha256 ripemd160 V (s.reVerifyStateful tx w) := by
  refine h.handOver tx { h.workers w with stateful := ?_ }
  exact forall_mem_concat (h.workers w).stateful hv

theorem Inv.verifyTx (w : Fin n) (tx : Transaction K) :
    Inv sha256 ripemd160 V (s.verifyTx w tx) := by
  unfold Server.verifyTx
  split
  · exact h.callRemovePendingTx (fun he => by cases he)
  · split
    · exact h
    · have hsend : Inv sha256 ripemd160 V (s.sendReq2Validator ⟨w, tx⟩) := { h with }
      exact hsend.setPending w _ ⟨rfl, nofun, nofun⟩

theorem Inv.verifyStateful (w : Fin n) {tx} (hv : V tx.hash) :
    Inv sha256 ripemd160 V (s.verifyStateful w tx) :=
  (h.setPending w ⟨tx, fun k => k = .stateless, _⟩ ⟨rfl, fun _ => hv, nofun⟩).sendReq2StatefulV _

end

variable {tp : TXPool K}

theorem PoolInv.addTxList (h : PoolInv V tp) {e} (hv : V e.tx.hash) (he : HasStateful e.attrs) :
    PoolInv V (tp.addTxList e) := by
  unfold TXPool.addTxList
  split
  · exact h
  · exact forall_get_insert h ⟨rfl, hv, he⟩

theorem PoolInv.erase (h : PoolInv V tp) (hash : Uint256) : PoolInv V (tp.erase hash) :=
  forall_get_erase h hash

theorem PoolInv.cleanTransactionList (h : PoolInv V tp) (txs : List (Transaction K)) :
    PoolInv V (tp.cleanTransactionList txs) := by
  unfold TXPool.cleanTransactionList
  induction txs generalizing tp with
  | nil => exact h
  | cons tx txs ih => exact ih (h.erase tx.hash)

theorem PoolInv.mem (h : PoolInv V tp) {x} (hx : x ∈ tp.entries) : V x.2.tx.hash := by
  obtain ⟨heq, hv, -⟩ := h x.1 x.2 (get_eq_some.mpr hx)
  exact heq ▸ hv

theorem Inv.putTxPool (h : Inv sha256 ripemd160 V s) {pt} (hv : V pt.tx.hash)
    (hret : HasStateful pt.ret) : Inv sha256 ripemd160 V (s.putTxPool pt) := by
  have hpool : Inv sha256 ripemd160 V { s with txPool := s.txPool.addTxList ⟨pt.tx, pt.ret⟩ } :=
    { h with pool := h.pool.addTxList hv hret }
  exact hpool.callRemovePendingTx fun _ => hv

/-- An answer is recorded for the transaction under its hash, whichever object it was for. -/
theorem record_inv {pt : PendingTx K} {rsp : CheckResponse n}
    (hpt : pt.tx.hash = rsp.hash ∧ (pt.flag .stateless = true → V rsp.hash) ∧
      (pt.flag .stateful = true → HasStateful pt.ret))
    (hrsp : Answered V rsp) (hok : rsp.errCode = .noError) :
    (Server.PendingTx.record pt rsp).tx.hash = rsp.hash ∧
      ((Server.PendingTx.record pt rsp).flag .stateless = true → V rsp.hash) ∧
      ((Server.PendingTx.record pt rsp).flag .stateful = true →
        HasStateful (Server.PendingTx.record pt rsp).ret) := by
  unfold Server.PendingTx.record
  split
  · exact hpt
  · refine ⟨hpt.1, fun hf => ?_, fun hf => ?_⟩
    · by_cases htype : rsp.type = .stateless
      · exact hrsp htype hok
      · exact hpt.2.1 ((update_of_ne (Ne.symm htype) true pt.flag).symm.trans hf)
    · by_cases htype : rsp.type = .stateful
      · exact ⟨_, mem_append_right _ (mem_singleton_self _), htype⟩
      · obtain ⟨v, hv, hstateful⟩ :=
          hpt.2.2 ((update_of_ne (Ne.symm htype) true pt.flag).symm.trans hf)
        exact ⟨v, mem_append_left _ hv, hstateful⟩

theorem Inv.handleRsp (h : Inv sha256 ripemd160 V s) (w : Fin n) {rsp} (hrsp : Answered V rsp) :
    Inv sha256 ripemd160 V (s.handleRsp w rsp) := by
  unfold Server.handleRsp
  split
  · exact h
  next pt hget =>
    split
    · rename_i herr
      exact (h.deletePending w rsp.hash).callRemovePendingTx fun he => absurd he herr
    · rename_i hok
      have hrecord := record_inv ((h.workers w).pending rsp.hash pt hget) hrsp (not_not.mp hok)
      split
      · exact h.sendReq2StatefulV _
      · dsimp only
        split
        · rename_i hboth
          obtain ⟨hstateless, hstateful⟩ := Bool.and_eq_true_iff.mp hboth
          obtain ⟨hhash, hv, hret⟩ := hrecord
          exact (h.putTxPool (hhash ▸ hv hstateless) (hret hstateful)).deletePending w rsp.hash
        · exact h.setPending w _ hrecord

theorem Inv.handleTimeoutEvent (h : Inv sha256 ripemd160 V s) (w : Fin n) (hash : Uint256) :
    Inv sha256 ripemd160 V (s.handleTimeoutEvent w hash) := by
  unfold Server.handleTimeoutEvent
  split
  · exact h
  · split
    · exact h
    · exact (h.deletePending w hash).callRemovePendingTx fun he => by cases he

end Workers

section

variable (h : Inv sha256 ripemd160 V s)
include h

theorem Inv.sendBlkResult2Consensus : Inv sha256 ripemd160 V s.sendBlkResult2Consensus := by
  refine { h with processed := nofun, replies := ?_ }
  cases hsender : s.pendingBlock.sender with
  | none =>
    simp only [Server.sendBlkResult2Consensus, hsender]
    exact h.replies
  | some id =>
    simp only [Server.sendBlkResult2Consensus, hsender]
    refine forall_mem_concat h.replies ?_
    intro r hr
    obtain ⟨⟨k, r⟩, hmem, rfl⟩ := mem_map.mp hr
    exact h.processed k r (get_eq_some.mpr hmem)

theorem Inv.setProcessed (hash : Uint256) {r} (hv : r.errCode = .noError → V r.tx.hash) :
    Inv sha256 ripemd160 V (s.setProcessed hash r) :=
  { h with processed := forall_get_insert h.processed hv }

theorem Inv.foldl_setProcessed {l : List (VerifyTxResult K)} (hl : ∀ r ∈ l, V r.tx.hash) :
    Inv sha256 ripemd160 V (l.foldl (fun s t => s.setProcessed t.tx.hash t) s) := by
  induction l generalizing s with
  | nil => exact h
  | cons r l ih =>
    obtain ⟨hr, hl⟩ := forall_mem_cons.mp hl
    exact ih (h.setProcessed r.tx.hash fun _ => hr) hl

theorem Inv.checkPendingBlockOk {hash err} (hv : err = .noError → V hash) :
    Inv sha256 ripemd160 V (s.checkPendingBlockOk hash err) := by
  unfold Server.checkPendingBlockOk
  split
  · exact h
  next tx hget =>
    have hset := h.setProcessed hash (r := ⟨s.pendingBlock.height, tx, err⟩)
      ((h.waiting hash tx hget).symm ▸ hv)
    have herased : Inv sha256 ripemd160 V
        { s.setProcessed hash ⟨s.pendingBlock.height, tx, err⟩ with
          pendingBlock := { (s.setProcessed hash ⟨s.pendingBlock.height, tx, err⟩).pendingBlock with
            unProcessedTxs := s.pendingBlock.unProcessedTxs.erase hash } } :=
      { hset with waiting := forall_get_erase h.waiting hash }
    dsimp only
    split
    · exact herased.sendBlkResult2Consensus
    · exact herased

theorem Inv.setUnProcessed (t : Transaction K) :
    Inv sha256 ripemd160 V (s.setUnProcessed t) :=
  { h with waiting := forall_get_insert h.waiting rfl }

end

/-- The look into the pool sorts the transactions of a block; it loses none. -/
structure Looked (V : Uint256 → Prop) (txs : List (Transaction K))
    (acc : CheckBlkResult K × TXPool K) : Prop where
  pool : PoolInv V acc.2
  unverified : ∀ t ∈ acc.1.unverifiedTxs, Mentions txs t.hash
  old : ∀ t ∈ acc.1.oldTxs, Mentions txs t.hash ∧ V t.hash
  verified : ∀ r ∈ acc.1.verifiedTxs, Mentions txs r.tx.hash ∧ V r.tx.hash
  all : ∀ tx ∈ txs, Mentions acc.1.unverifiedTxs tx.hash ∨ Mentions acc.1.oldTxs tx.hash ∨
    ∃ r ∈ acc.1.verifiedTxs, r.tx.hash = tx.hash

theorem Mentions.append_left {txs h} (hm : Mentions txs h) (rest : List (Transaction K)) :
    Mentions (txs ++ rest) h := by
  obtain ⟨tx, htx, hhash⟩ := hm
  exact ⟨tx, mem_append_left rest htx, hhash⟩

theorem mentions_last (txs : List (Transaction K)) (tx : Transaction K) :
    Mentions (txs ++ [tx]) tx.hash :=
  ⟨tx, mem_append_right txs (mem_singleton_self tx), rfl⟩

theorem Looked.checkBlkTx {txs acc} (h : Looked V txs acc) (height : UInt32) (tx : Transaction K) :
    Looked V (txs ++ [tx]) (TXPool.checkBlkTx height acc tx) := by
  obtain ⟨res, tp⟩ := acc
  have hunverified : ∀ t ∈ res.unverifiedTxs, Mentions (txs ++ [tx]) t.hash := fun t ht =>
    (h.unverified t ht).append_left [tx]
  have hold : ∀ t ∈ res.oldTxs, Mentions (txs ++ [tx]) t.hash ∧ V t.hash := fun t ht =>
    (h.old t ht).imp_left fun hm => hm.append_left [tx]
  have hverified : ∀ r ∈ res.verifiedTxs, Mentions (txs ++ [tx]) r.tx.hash ∧ V r.tx.hash :=
    fun r hr => (h.verified r hr).imp_left fun hm => hm.append_left [tx]
  have hlast := mentions_last txs tx
  unfold TXPool.checkBlkTx
  dsimp only
  split
  · refine ⟨h.pool, ?_, hold, hverified, ?_⟩
    · exact forall_mem_concat hunverified hlast
    · refine forall_mem_concat ?_ ?_
      · intro t ht
        exact (h.all t ht).imp_left fun hm => hm.append_left [tx]
      · exact .inl (mentions_last res.unverifiedTxs tx)
  next e he =>
    obtain ⟨hhash, hv, v, hmem, htype⟩ := h.pool tx.hash e he
    split
    · refine ⟨h.pool.erase tx.hash, hunverified, ?_, hverified, ?_⟩
      · exact forall_mem_concat hold (hhash ▸ ⟨hlast, hv⟩)
      · refine forall_mem_concat ?_ ?_
        · intro t ht
          exact (h.all t ht).imp_right fun hm => hm.imp_left fun hm => hm.append_left [e.tx]
        · exact .inr (.inl (hhash ▸ mentions_last res.oldTxs e.tx))
    · split
      · refine ⟨h.pool, hunverified, hold, ?_, ?_⟩
        · exact forall_mem_concat hverified ⟨hlast, hv⟩
        · refine forall_mem_concat ?_ ?_
          · intro t ht
            refine (h.all t ht).imp_right fun hm => hm.imp_right ?_
            rintro ⟨r, hr, heq⟩
            exact ⟨r, mem_append_left _ hr, heq⟩
          · exact .inr (.inr ⟨_, mem_append_right _ (mem_singleton_self _), rfl⟩)
      · -- an entry without a stateful answer would drop out of the block
        rename_i hnone
        exact absurd (decide_eq_true htype) (find?_eq_none.mp hnone v hmem)

theorem PoolInv.getUnverifiedTxs {tp} (h : PoolInv V tp) (txs : List (Transaction K))
    (height : UInt32) : Looked V txs (tp.getUnverifiedTxs txs height) := by
  induction txs using List.reverseRecOn with
  | nil => exact ⟨h, nofun, nofun, nofun, nofun⟩
  | append_singleton txs tx ih =>
    rw [TXPool.getUnverifiedTxs, foldl_concat]
    exact ih.checkBlkTx height tx

section

variable (h : Inv sha256 ripemd160 V s)
include h

theorem Inv.verifyBlock (txs : List (Transaction K)) (height : UInt32) :
    Inv sha256 ripemd160 V (s.verifyBlock txs height) := by
  have hask : Inv sha256 ripemd160 V { s with
      height := height
      pendingBlock := ⟨some s.asked.length, height, OrderedMap.empty, OrderedMap.empty⟩
      asked := s.asked ++ [txs] } := { h with waiting := nofun, processed := nofun }
  unfold Server.verifyBlock
  split
  next t _ =>
    have hset := hask.setProcessed t.hash (r := ⟨height, t, .doubleSpend⟩) nofun
    exact hset.sendBlkResult2Consensus
  · have hlooked := h.pool.getUnverifiedTxs txs height
    refine { hask with pool := hlooked.pool, old := ?_, verified := ?_ }
    · rintro res ⟨⟩ t ht
      exact (hlooked.old t ht).2
    · rintro res ⟨⟩ r hr
      exact (hlooked.verified r hr).2

theorem Inv.continueBlock {res : CheckBlkResult K} (hres : s.checking = some res) (w : Fin n) :
    Inv sha256 ripemd160 V (s.continueBlock res w) := by
  have hold := h.old res hres
  have hverified := h.verified res hres
  unfold Server.continueBlock
  split
  · refine { (h.assignTxToWorker _ w).setUnProcessed _ with old := ?_, verified := ?_ }
    · rintro res ⟨⟩
      exact hold
    · rintro res ⟨⟩
      exact hverified
  next t old _ holds =>
    obtain ⟨hv, hrest⟩ := forall_mem_cons.mp (holds ▸ hold)
    refine { (h.reVerifyStateful w hv).setUnProcessed _ with old := ?_, verified := ?_ }
    · rintro res ⟨⟩
      exact hrest
    · rintro res ⟨⟩
      exact hverified
  · have hfree : Inv sha256 ripemd160 V { s with checking := none } :=
      { h with old := nofun, verified := nofun }
    have hdone := hfree.foldl_setProcessed hverified
    dsimp only
    split
    · exact hdone.sendBlkResult2Consensus
    · exact hdone

theorem Inv.removePendingTx {hash err} (hv : err = .noError → V hash) :
    Inv sha256 ripemd160 V (s.removePendingTx hash err) := by
  unfold Server.removePendingTx
  split
  · exact h
  · exact { h with checks := forall_mem_concat h.checks hv }

end

theorem PoolInv.pickTxs {entries : List (TXEntry K)} (h : ∀ e ∈ entries, V e.tx.hash)
    (height : UInt32) (count num : ℕ) :
    ∀ t ∈ (TXPool.pickTxs height count entries num).2, V t.hash := by
  induction entries generalizing num with
  | nil => exact nofun
  | cons e entries ih =>
    obtain ⟨he, hrest⟩ := forall_mem_cons.mp h
    unfold TXPool.pickTxs
    split_ifs
    · exact forall_mem_cons.mpr ⟨he, ih hrest num⟩
    · exact nofun
    · exact ih hrest (num + 1)

theorem Inv.getTxPool (h : Inv sha256 ripemd160 V s) (byCount : Bool) (height : UInt32) :
    Inv sha256 ripemd160 V (s.getTxPool byCount height) := by
  refine { h with stale := forall_mem_append.mpr ⟨h.stale, ?_⟩ }
  refine PoolInv.pickTxs (fun e he => ?_) height _ 0
  obtain ⟨x, hx, rfl⟩ := mem_map.mp he
  exact h.pool.mem hx

theorem Inv.cleanTransactionList (h : Inv sha256 ripemd160 V s) (txs : List (Transaction K)) :
    Inv sha256 ripemd160 V (s.cleanTransactionList txs) := by
  have hclean := h.pool.cleanTransactionList txs
  unfold Server.cleanTransactionList
  split
  · exact { h with pool := hclean }
  · refine { h with pool := nofun, remaining := forall_mem_append.mpr ⟨h.remaining, ?_⟩ }
    exact forall_mem_map.mpr fun x hx => hclean.mem hx

variable {rsp : CheckResponse n}

theorem Inv.assignRspToWorker (h : Inv sha256 ripemd160 V s) (hrsp : Answered V rsp) :
    Inv sha256 ripemd160 V (s.assignRspToWorker rsp) := by
  refine h.updateWorker { h.workers rsp.workerId with answers := ?_ }
  exact forall_mem_concat (h.workers rsp.workerId).answers hrsp

theorem Answered.mono {V' : Uint256 → Prop} (h : Answered V rsp) (hV : ∀ k, V k → V' k) :
    Answered V' rsp :=
  fun ht he => hV _ (h ht he)

variable (h : Inv sha256 ripemd160 V s)
include h

theorem Inv.mono {V' : Uint256 → Prop} (hV : ∀ k, V k → V' k)
    (hvouched : ∀ k, V' k → ∃ tx ∈ s.checked, tx.hash = k ∧
      verifyTransaction K sha256 ripemd160 tx = .noError) : Inv sha256 ripemd160 V' s where
  vouched := hvouched
  workers w :=
    { pending := fun k pt hpt => ((h.workers w).pending k pt hpt).imp_right
        fun hflags => hflags.imp_left fun hv hf => hV k (hv hf)
      stateful := fun tx htx => hV _ ((h.workers w).stateful tx htx)
      answers := fun rsp hrsp => ((h.workers w).answers rsp hrsp).mono hV }
  pool k e he := (h.pool k e he).imp_right fun hv => hv.imp_left (hV k)
  stale tx htx := hV _ (h.stale tx htx)
  remaining tx htx := hV _ (h.remaining tx htx)
  responses rsp hrsp := (h.responses rsp hrsp).mono hV
  removals x hx he := hV _ (h.removals x hx he)
  checks x hx he := hV _ (h.checks x hx he)
  waiting := h.waiting
  processed k r hr he := hV _ (h.processed k r hr he)
  old res hres t ht := hV _ (h.old res hres t ht)
  verified res hres r hr := hV _ (h.verified res hres r hr)
  replies x hx r hr he := hV _ (h.replies x hx r hr he)

theorem Inv.respond (hrsp : Answered V rsp) :
    Inv sha256 ripemd160 V { s with responses := s.responses ++ [rsp] } := by
  exact { h with responses := forall_mem_concat h.responses hrsp }

/-- A validator vouches for a hash only where the signatures of a transaction with it check. -/
theorem Inv.validate (req : VerifyType × CheckTx K n) (height : UInt32) (errCode : ErrCode) :
    ∃ V', Inv sha256 ripemd160 V' (s.validate sha256 ripemd160 req height errCode) := by
  obtain ⟨type, w, tx⟩ := req
  cases type with
  | stateful =>
    refine ⟨V, h.respond fun ht => ?_⟩
    cases ht
  | stateless =>
    by_cases hcode : verifyTransaction K sha256 ripemd160 tx = .noError
    · have hlog : Inv sha256 ripemd160 V { s with checked := s.checked ++ [tx] } := by
        refine { h with vouched := fun k hk => ?_ }
        obtain ⟨t, ht, heq⟩ := h.vouched k hk
        exact ⟨t, mem_append_left _ ht, heq⟩
      have hmore : Inv sha256 ripemd160 (fun k => V k ∨ k = tx.hash)
          { s with checked := s.checked ++ [tx] } := by
        refine hlog.mono (fun k hk => .inl hk) fun k hk => ?_
        rcases hk with hk | rfl
        · exact hlog.vouched k hk
        · exact ⟨tx, mem_append_right _ (mem_singleton_self tx), rfl, hcode⟩
      refine ⟨fun k => V k ∨ k = tx.hash, ?_⟩
      simp only [Server.validate, hcode, if_true]
      exact hmore.respond fun _ _ => .inr rfl
    · refine ⟨V, ?_⟩
      simp only [Server.validate, hcode, if_false]
      exact h.respond fun _ he => absurd he hcode

theorem Inv.step {a t} (hst : Event sha256 ripemd160 s a t) : ∃ V', Inv sha256 ripemd160 V' t := by
  cases hst with
  | nothing => exact ⟨V, h⟩
  | register | unregister | accepted => exact ⟨V, { h with }⟩
  | @assign txn incoming w =>
    have htake : Inv sha256 ripemd160 V { s with incoming := incoming } := { h with }
    exact ⟨V, htake.assignTxToWorker txn w⟩
  | getTxPool byCount height => exact ⟨V, h.getTxPool byCount height⟩
  | @reverifyStale t stale w hstale =>
    obtain ⟨hv, hrest⟩ := forall_mem_cons.mp (hstale ▸ h.stale)
    have htake : Inv sha256 ripemd160 V { s with stale := stale, txPool := s.txPool.delTxList t } :=
      { h with stale := hrest, pool := h.pool.erase t.hash }
    exact ⟨V, htake.reVerifyStateful w hv⟩
  | saveBlock txs => exact ⟨V, h.cleanTransactionList txs⟩
  | @reverifyRemaining t remaining w hremaining =>
    obtain ⟨hv, hrest⟩ := forall_mem_cons.mp (hremaining ▸ h.remaining)
    have htake : Inv sha256 ripemd160 V { s with remaining := remaining } := { h with remaining := hrest }
    exact ⟨V, htake.reVerifyStateful w hv⟩
  | verifyBlock height => exact ⟨V, h.verifyBlock _ height⟩
  | continueBlock w hres => exact ⟨V, h.continueBlock hres w⟩
  | @verifyTx w tx rest hch =>
    have htake := h.updateWorker (f := fun k => { k with rcvTXCh := rest }) { h.workers w with }
    exact ⟨V, htake.verifyTx w tx⟩
  | @verifyStateful w tx rest hch =>
    obtain ⟨hv, hrest⟩ := forall_mem_cons.mp (hch ▸ (h.workers w).stateful)
    have htake := h.updateWorker (f := fun k => { k with stfTxCh := rest })
      { h.workers w with stateful := hrest }
    exact ⟨V, htake.verifyStateful w hv⟩
  | @handleRsp w rsp rest hch =>
    obtain ⟨hrsp, hrest⟩ := forall_mem_cons.mp (hch ▸ (h.workers w).answers)
    have htake := h.updateWorker (f := fun k => { k with rspCh := rest })
      { h.workers w with answers := hrest }
    exact ⟨V, htake.handleRsp w hrsp⟩
  | timeout w hash => exact ⟨V, h.handleTimeoutEvent w hash⟩
  | @validate i req height errCode =>
    have htake : Inv sha256 ripemd160 V { s with requests := s.requests.eraseIdx i } := { h with }
    exact htake.validate req height errCode
  | @deliver i rsp hrsp =>
    have htake : Inv sha256 ripemd160 V { s with responses := s.responses.eraseIdx i } :=
      { h with responses := fun r hr => h.responses r (mem_of_mem_eraseIdx hr) }
    exact ⟨V, htake.assignRspToWorker (h.responses rsp (mem_of_getElem? hrsp))⟩
  | @removePendingTx i hash err hx =>
    have htake : Inv sha256 ripemd160 V { s with removals := s.removals.eraseIdx i } :=
      { h with removals := fun x hx => h.removals x (mem_of_mem_eraseIdx hx) }
    exact ⟨V, htake.removePendingTx (h.removals (hash, err) (mem_of_getElem? hx))⟩
  | @checkPendingBlockOk i hash err hx =>
    have htake : Inv sha256 ripemd160 V { s with checks := s.checks.eraseIdx i } :=
      { h with checks := fun x hx => h.checks x (mem_of_mem_eraseIdx hx) }
    exact ⟨V, htake.checkPendingBlockOk (h.checks (hash, err) (mem_of_getElem? hx))⟩

end Poly.TxPool
