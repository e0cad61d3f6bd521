import Poly.TxPool.Requests

/-! Where a pending transaction is: with a worker, on its way out of the pending list, or on its way to
the block under verification. -/
namespace Poly.TxPool

open Lib OrderedMap Function

variable {K : Keys} {n : ℕ} {sha256 : Bytes → Uint256} {ripemd160 : Bytes → Address}
  {s t : Server K n} {a : Action K n}

/-- The worker has the hash in one of its channels or in its list. -/
def Worker.Verifying (k : Worker K n) (h : Uint256) : Prop :=
  Mentions k.rcvTXCh h ∨ Mentions k.stfTxCh h ∨ (k.pendingTxList.get h).isSome

/-- Some worker has not finished with the hash. -/
def Server.Verifying (s : Server K n) (h : Uint256) : Prop := ∃ w, (s.workers w).Verifying h

variable (calls : List (Uint256 × ErrCode))

/-- A call for the hash is to come. -/
def Noted (h : Uint256) : Prop := ∃ x ∈ calls, x.1 = h

theorem Noted.append_left {calls h} (hn : Noted calls h) (rest : List (Uint256 × ErrCode)) :
    Noted (calls ++ rest) h := by
  obtain ⟨x, hx, heq⟩ := hn
  exact ⟨x, List.mem_append_left rest hx, heq⟩

theorem noted_last (h : Uint256) (err : ErrCode) :
    Noted (calls ++ [(h, err)]) h :=
  ⟨(h, err), List.mem_append_right calls (List.mem_singleton_self _), rfl⟩

/-- A call for another hash is still to come after this one was made. -/
theorem Noted.eraseIdx {calls h hash err i} (hn : Noted calls h) (hi : calls[i]? = some (hash, err))
    (hne : h ≠ hash) : Noted (calls.eraseIdx i) h := by
  obtain ⟨x, hx, rfl⟩ := hn
  obtain ⟨j, hj⟩ := List.mem_iff_getElem?.mp hx
  refine ⟨x, List.mem_eraseIdx_iff_getElem?.mpr ⟨j, ?_, hj⟩, rfl⟩
  rintro rfl
  rw [hi] at hj
  cases hj
  exact hne rfl

/-- A pending transaction is with a worker or about to be removed; a transaction that the block under
verification waits for is pending or about to be checked off. -/
structure FlowInv (s : Server K n) : Prop where
  tracked : ∀ h, (s.allPendingTxs.get h).isSome → s.Verifying h ∨ Noted s.removals h
  waiting : ∀ h, (s.pendingBlock.unProcessedTxs.get h).isSome →
    (s.allPendingTxs.get h).isSome ∨ Noted s.checks h

theorem FlowInv.work (h : FlowInv s) (hpending : t.allPendingTxs = s.allPendingTxs)
    (hwaiting : t.pendingBlock.unProcessedTxs = s.pendingBlock.unProcessedTxs)
    (hchecks : t.checks = s.checks)
    (hplaces : ∀ k, s.Verifying k ∨ Noted s.removals k → t.Verifying k ∨ Noted t.removals k) :
    FlowInv t := by
  constructor
  · intro k hk
    rw [hpending] at hk
    exact hplaces k (h.tracked k hk)
  · intro k hk
    rw [hwaiting] at hk
    rw [hpending, hchecks]
    exact h.waiting k hk

section Workers

variable {w : Fin n} {f : Worker K n → Worker K n}

theorem verifying_updateWorker {h} {Q : Prop} (hv : s.Verifying h)
    (hf : (s.workers w).Verifying h → (f (s.workers w)).Verifying h ∨ Q) :
    (s.updateWorker w f).Verifying h ∨ Q := by
  obtain ⟨w', hw'⟩ := hv
  by_cases hw : w' = w
  · subst hw
    refine (hf hw').imp_left fun hv => ⟨w', ?_⟩
    simp only [Server.updateWorker, update_self]
    exact hv
  · refine .inl ⟨w', ?_⟩
    simp only [Server.updateWorker, update_of_ne hw]
    exact hw'

theorem verifying_of_worker {h} (hf : (f (s.workers w)).Verifying h) :
    (s.updateWorker w f).Verifying h := by
  refine ⟨w, ?_⟩
  simp only [Server.updateWorker, update_self]
  exact hf

theorem FlowInv.updateWorker (h : FlowInv s)
    (hf : ∀ k, (s.workers w).Verifying k → (f (s.workers w)).Verifying k) :
    FlowInv (s.updateWorker w f) := by
  refine h.work rfl rfl rfl ?_
  rintro k (hv | hn)
  · exact (verifying_updateWorker hv fun hw => .inl (hf k hw)).imp_right False.elim
  · exact .inr hn

variable {tx : Transaction K}

theorem FlowInv.handOver (h : FlowInv s) (hnew : (f (s.workers w)).Verifying tx.hash)
    (hkeep : ∀ k, (s.workers w).Verifying k → (f (s.workers w)).Verifying k) :
    FlowInv (s.handOver tx w f) := by
  unfold Server.handOver
  split
  · exact h
  constructor
  · intro k hk
    by_cases heq : k = tx.hash
    · subst heq
      exact .inl (verifying_of_worker hnew)
    · simp only [Server.updateWorker, Server.setPendingTx, get_insert_of_ne _ _ heq] at hk
      rcases h.tracked k hk with hv | hn
      · have hv' : (s.setPendingTx tx).Verifying k := hv
        exact (verifying_updateWorker hv' fun hw => .inl (hkeep k hw)).imp_right False.elim
      · exact .inr hn
  · intro k hk
    rcases h.waiting k hk with hp | hn
    · exact .inl (isSome_get_insert (.inl hp) tx)
    · exact .inr hn

theorem FlowInv.assignTxToWorker (h : FlowInv s) (tx : Transaction K) (w : Fin n) :
    FlowInv (s.assignTxToWorker tx w) := by
  apply h.handOver
  · exact .inl (mentions_last _ tx)
  · intro k hv
    exact hv.imp_left fun hm => hm.append_left [tx]

theorem FlowInv.reVerifyStateful (h : FlowInv s) (tx : Transaction K) (w : Fin n) :
    FlowInv (s.reVerifyStateful tx w) := by
  apply h.handOver
  · exact .inr (.inl (mentions_last _ tx))
  · intro k hv
    exact hv.imp_right fun hv => hv.imp_left fun hm => hm.append_left [tx]

theorem verifying_setPending {hash h} (pt : PendingTx K) (hv : s.Verifying h ∨ h = hash) :
    (s.setPending w hash pt).Verifying h := by
  rcases hv with hv | rfl
  · refine (verifying_updateWorker hv fun hw => .inl ?_).elim id False.elim
    exact hw.imp_right fun hw => hw.imp_right fun hp => isSome_get_insert (.inl hp) pt
  · refine verifying_of_worker (.inr (.inr ?_))
    simp only [get_insert_self, Option.isSome_some]

theorem verifying_deletePending (w : Fin n) (hash : Uint256) {h} (hv : s.Verifying h) :
    (s.deletePending w hash).Verifying h ∨ h = hash := by
  apply verifying_updateWorker hv
  intro hw
  by_cases heq : h = hash
  · exact .inr heq
  · exact .inl (hw.imp_right fun hw => hw.imp_right fun hp => isSome_get_erase.mpr ⟨heq, hp⟩)

variable {rest : List (Transaction K)}

/-- A worker that takes a transaction out of a channel has it in hand. -/
theorem verifying_pop {h} (hch : (s.workers w).rcvTXCh = tx :: rest) (hv : s.Verifying h) :
    (s.updateWorker w fun k => { k with rcvTXCh := rest }).Verifying h ∨ h = tx.hash := by
  apply verifying_updateWorker hv
  rintro (⟨t, ht, heq⟩ | hw)
  · rw [hch] at ht
    rcases List.mem_cons.mp ht with rfl | ht
    · exact .inr heq.symm
    · exact .inl (.inl ⟨t, ht, heq⟩)
  · exact .inl (.inr hw)

theorem verifying_popStateful {h} (hch : (s.workers w).stfTxCh = tx :: rest) (hv : s.Verifying h) :
    (s.updateWorker w fun k => { k with stfTxCh := rest }).Verifying h ∨ h = tx.hash := by
  apply verifying_updateWorker hv
  rintro (hw | ⟨t, ht, heq⟩ | hw)
  · exact .inl (.inl hw)
  · rw [hch] at ht
    rcases List.mem_cons.mp ht with rfl | ht
    · exact .inr heq.symm
    · exact .inl (.inr (.inl ⟨t, ht, heq⟩))
  · exact .inl (.inr (.inr hw))

variable (h : FlowInv s)
include h

theorem FlowInv.verifyTx (hch : (s.workers w).rcvTXCh = tx :: rest) :
    FlowInv ((s.updateWorker w fun k => { k with rcvTXCh := rest }).verifyTx w tx) := by
  have hpop := fun k => verifying_pop (h := k) hch
  generalize hs₁ : (s.updateWorker w fun k => { k with rcvTXCh := rest }) = s₁ at hpop ⊢
  have hframe : s₁.allPendingTxs = s.allPendingTxs ∧ s₁.pendingBlock = s.pendingBlock ∧
      s₁.checks = s.checks ∧ s₁.removals = s.removals := by
    subst hs₁
    exact ⟨rfl, rfl, rfl, rfl⟩
  obtain ⟨hpending, hblock, hchecks, hremovals⟩ := hframe
  unfold Server.verifyTx
  split
  · refine h.work hpending (congrArg _ hblock) hchecks ?_
    rintro k (hv | hn)
    · rcases hpop k hv with hv | rfl
      · exact .inl hv
      · exact .inr (noted_last _ _ _)
    · rw [← hremovals] at hn
      exact .inr (hn.append_left _)
  · split
    next pt hpt =>
      refine h.work hpending (congrArg _ hblock) hchecks ?_
      rintro k (hv | hn)
      · rcases hpop k hv with hv | rfl
        · exact .inl hv
        · exact .inl ⟨w, .inr (.inr (Option.isSome_of_eq_some hpt))⟩
      · exact .inr (hremovals ▸ hn)
    · refine h.work hpending (congrArg _ hblock) hchecks ?_
      rintro k (hv | hn)
      · exact .inl (verifying_setPending _ (hpop k hv))
      · exact .inr (hremovals ▸ hn)

theorem FlowInv.sendReq2StatefulV (req : CheckTx K n) :
    FlowInv (s.sendReq2StatefulV req) := by
  unfold Server.sendReq2StatefulV
  split
  · exact { h with }
  · exact h

theorem FlowInv.verifyStateful (hch : (s.workers w).stfTxCh = tx :: rest) :
    FlowInv ((s.updateWorker w fun k => { k with stfTxCh := rest }).verifyStateful w tx) := by
  apply FlowInv.sendReq2StatefulV
  refine h.work rfl rfl rfl ?_
  rintro k (hv | hn)
  · exact .inl (verifying_setPending _ (verifying_popStateful hch hv))
  · exact .inr hn

/-- A worker that is done with a hash hands it over to `removePendingTx`. -/
theorem FlowInv.finished {hash} (err : ErrCode) (hpending : t.allPendingTxs = s.allPendingTxs)
    (hblock : t.pendingBlock = s.pendingBlock) (hchecks : t.checks = s.checks)
    (hremovals : t.removals = s.removals ++ [(hash, err)])
    (hworkers : t.workers = (s.deletePending w hash).workers) : FlowInv t := by
  refine h.work hpending (congrArg _ hblock) hchecks ?_
  rw [hremovals]
  rintro k (hv | hn)
  · rcases verifying_deletePending w hash hv with hv | rfl
    · refine .inl ?_
      unfold Server.Verifying
      rw [hworkers]
      exact hv
    · exact .inr (noted_last _ _ _)
  · exact .inr (hn.append_left _)

theorem FlowInv.handleRsp (w : Fin n) (rsp : CheckResponse n)
    (hhashes : ∀ k pt, (s.workers w).pendingTxList.get k = some pt → pt.tx.hash = k) :
    FlowInv (s.handleRsp w rsp) := by
  unfold Server.handleRsp
  split
  · exact h
  next pt hpt =>
    split_ifs
    · exact h.finished rsp.errCode rfl rfl rfl rfl rfl
    · exact h.sendReq2StatefulV _
    · dsimp only
      split
      · have hhash : (Server.PendingTx.record pt rsp).tx.hash = rsp.hash := by
          unfold Server.PendingTx.record
          split
          · exact hhashes rsp.hash pt hpt
          · exact hhashes rsp.hash pt hpt
        refine h.finished .noError rfl rfl rfl ?_ rfl
        change s.removals ++ [((Server.PendingTx.record pt rsp).tx.hash, ErrCode.noError)] = _
        rw [hhash]
      · refine h.work rfl rfl rfl ?_
        rintro k (hv | hn)
        · exact .inl (verifying_setPending _ (.inl hv))
        · exact .inr hn

theorem FlowInv.handleTimeoutEvent (w : Fin n) (hash : Uint256) :
    FlowInv (s.handleTimeoutEvent w hash) := by
  unfold Server.handleTimeoutEvent
  split
  · exact h
  · split
    · exact h
    · exact h.finished .retryExhausted rfl rfl rfl rfl rfl

end Workers

theorem FlowInv.setUnProcessed (h : FlowInv s) {tx} (htx : (s.allPendingTxs.get tx.hash).isSome) :
    FlowInv (s.setUnProcessed tx) := by
  refine { h with waiting := ?_ }
  intro k hk
  by_cases heq : k = tx.hash
  · exact .inl (heq ▸ htx)
  · simp only [Server.setUnProcessed, get_insert_of_ne _ _ heq] at hk
    exact h.waiting k hk

theorem pending_handOver (tx : Transaction K) (w : Fin n) (f : Worker K n → Worker K n) :
    ((s.handOver tx w f).allPendingTxs.get tx.hash).isSome := by
  unfold Server.handOver
  split
  next hget => exact Option.isSome_of_eq_some hget
  · exact isSome_get_insert (.inr rfl) tx

variable (h : FlowInv s)
include h

theorem FlowInv.foldl_setProcessed {l : List (VerifyTxResult K)} :
    FlowInv (l.foldl (fun s t => s.setProcessed t.tx.hash t) s) := by
  induction l generalizing s with
  | nil => exact h
  | cons r l ih =>
    apply ih
    exact { h with }

theorem FlowInv.verifyBlock (txs : List (Transaction K)) (height : UInt32) :
    FlowInv (s.verifyBlock txs height) := by
  have hnone : ∀ k, ((OrderedMap.empty : OrderedMap Uint256 (Transaction K)).get k).isSome →
      (s.allPendingTxs.get k).isSome ∨ Noted s.checks k := by
    intro k hk
    cases hk
  unfold Server.verifyBlock
  split <;> exact { h with waiting := hnone }

theorem FlowInv.continueBlock (res : CheckBlkResult K) (w : Fin n) :
    FlowInv (s.continueBlock res w) := by
  unfold Server.continueBlock
  split
  next tx _ _ =>
    have hset := (h.assignTxToWorker tx w).setUnProcessed (pending_handOver tx w _)
    exact { hset with }
  next tx _ _ _ =>
    have hset := (h.reVerifyStateful tx w).setUnProcessed (pending_handOver tx w _)
    exact { hset with }
  · have hfree : FlowInv { s with checking := none } := { h with }
    have hdone := hfree.foldl_setProcessed (l := res.verifiedTxs)
    dsimp only
    split
    · exact { hdone with }
    · exact hdone

theorem FlowInv.removePendingTx {i hash err} (hi : s.removals[i]? = some (hash, err)) :
    FlowInv ({ s with removals := s.removals.eraseIdx i }.removePendingTx hash err) := by
  have htracked : ∀ k, k ≠ hash → (s.allPendingTxs.get k).isSome →
      s.Verifying k ∨ Noted (s.removals.eraseIdx i) k := by
    intro k hne hk
    exact (h.tracked k hk).imp_right fun hn => hn.eraseIdx hi hne
  unfold Server.removePendingTx
  split
  next hnone =>
    refine ⟨?_, h.waiting⟩
    intro k hk
    refine htracked k ?_ hk
    rintro rfl
    rw [hnone] at hk
    cases hk
  · constructor
    · intro k hk
      obtain ⟨hne, hk⟩ := isSome_get_erase.mp hk
      exact htracked k hne hk
    · intro k hk
      by_cases heq : k = hash
      · exact .inr (heq ▸ noted_last _ _ _)
      · rcases h.waiting k hk with hp | hn
        · exact .inl (isSome_get_erase.mpr ⟨heq, hp⟩)
        · exact .inr (hn.append_left _)

theorem FlowInv.checkPendingBlockOk {i hash err} (hi : s.checks[i]? = some (hash, err)) :
    FlowInv ({ s with checks := s.checks.eraseIdx i }.checkPendingBlockOk hash err) := by
  have hwaiting : ∀ k, k ≠ hash → (s.pendingBlock.unProcessedTxs.get k).isSome →
      (s.allPendingTxs.get k).isSome ∨ Noted (s.checks.eraseIdx i) k := by
    intro k hne hk
    exact (h.waiting k hk).imp_right fun hn => hn.eraseIdx hi hne
  unfold Server.checkPendingBlockOk
  split
  next hnone =>
    refine ⟨h.tracked, ?_⟩
    intro k hk
    refine hwaiting k ?_ hk
    rintro rfl
    rw [show s.pendingBlock.unProcessedTxs.get k = none from hnone] at hk
    cases hk
  · have herased : ∀ k, ((s.pendingBlock.unProcessedTxs.erase hash).get k).isSome →
        (s.allPendingTxs.get k).isSome ∨ Noted (s.checks.eraseIdx i) k := by
      intro k hk
      obtain ⟨hne, hk⟩ := isSome_get_erase.mp hk
      exact hwaiting k hne hk
    dsimp only
    split
    · exact ⟨h.tracked, herased⟩
    · exact ⟨h.tracked, herased⟩

/-- Taking a message that belongs to no pending transaction changes no place. -/
theorem FlowInv.step
    (hhashes : ∀ w k pt, (s.workers w).pendingTxList.get k = some pt → pt.tx.hash = k)
    (hst : Event sha256 ripemd160 s a t) : FlowInv t := by
  cases hst with
  | nothing => exact h
  | register | unregister | accepted | getTxPool => exact { h with }
  | @assign txn incoming w =>
    have htake : FlowInv { s with incoming := incoming } := { h with }
    exact htake.assignTxToWorker txn w
  | @reverifyStale t stale w =>
    have htake : FlowInv { s with stale := stale, txPool := s.txPool.delTxList t } := { h with }
    exact htake.reVerifyStateful t w
  | saveBlock =>
    unfold Server.cleanTransactionList
    split <;> exact { h with }
  | @reverifyRemaining t remaining w =>
    have htake : FlowInv { s with remaining := remaining } := { h with }
    exact htake.reVerifyStateful t w
  | verifyBlock height => exact h.verifyBlock _ height
  | continueBlock w => exact h.continueBlock _ w
  | verifyTx hch => exact h.verifyTx hch
  | verifyStateful hch => exact h.verifyStateful hch
  | @handleRsp w rsp rest hch =>
    have hpop : FlowInv (s.updateWorker w fun k => { k with rspCh := rest }) :=
      h.updateWorker fun _ hv => hv
    apply hpop.handleRsp
    intro k pt hget
    simp only [Server.updateWorker, update_self] at hget
    exact hhashes w k pt hget
  | timeout w hash => exact h.handleTimeoutEvent w hash
  | @validate i req =>
    obtain ⟨type, req⟩ := req
    cases type with
    | stateless => exact { h with }
    | stateful => exact { h with }
  | @deliver i rsp =>
    have htake : FlowInv { s with responses := s.responses.eraseIdx i } := { h with }
    exact htake.updateWorker fun _ hv => hv
  | removePendingTx hi => exact h.removePendingTx hi
  | checkPendingBlockOk hi => exact h.checkPendingBlockOk hi

end Poly.TxPool
