import Poly.TxPool.Answers

/-! The slots for pending transactions: the actor takes one for each transaction from the network or
http, and the server gives one back for each pending transaction that it removes. -/
namespace Poly.TxPool

open Lib OrderedMap

variable {K : Keys} {n : ℕ} (sha256 : Bytes → Uint256) (ripemd160 : Bytes → Address)

def MAX_LIMITATION : ℕ := 10000

/-- Where a submitted transaction comes from. What the server verifies on its own has no sender. -/
inductive SenderType where
  | net
  | http
  deriving DecidableEq

/-- The actor for submitted transactions handles one at a time. -/
inductive TxActor (K : Keys) where
  | idle
  /-- The transaction passed the checks; `<-slots` blocks until a slot is free. -/
  | waiting (txn : Transaction K) (sender : SenderType)
  /-- The actor has taken a slot for it. -/
  | holding (txn : Transaction K) (sender : SenderType)

/-- The transaction that the actor has in hand. -/
def TxActor.txns : TxActor K → List (Transaction K)
  | .idle => []
  | .waiting txn _ | .holding txn _ => [txn]

/-- The slots that the actor has in hand. -/
def TxActor.held : TxActor K → ℕ
  | .idle | .waiting _ _ => 0
  | .holding _ _ => 1

structure SlotServer (K : Keys) (n : ℕ) where
  server : Server K n
  actor : TxActor K
  /-- Free slots in the channel. -/
  slots : ℕ
  /-- The pending transactions from the network and http. -/
  limited : OrderedMap Uint256 SenderType

def newSlotServer (disablePreExec : Bool) (maxTxInBlock : ℕ) : SlotServer K n where
  server := newTxPoolServer disablePreExec maxTxInBlock
  actor := .idle
  slots := MAX_LIMITATION
  limited := OrderedMap.empty

inductive SlotAction (K : Keys) (n : ℕ) where
  | transaction (txn : Transaction K) (sender : SenderType) (permitted : Bool)
  | takeSlot
  | assign (w : Fin n)
  | removePendingTx (i : ℕ)
  /-- Whatever else the server does. -/
  | other (a : Action K n)

namespace SlotServer

variable (s : SlotServer K n)

/-- A message for the actor; it goes on to the next one if the checks fail. -/
def handleTransaction (txn : Transaction K) (sender : SenderType) (permitted : Bool) :
    SlotServer K n :=
  match s.actor with
  | .idle =>
    let server := step sha256 ripemd160 s.server (.transaction txn permitted)
    match server.incoming with
    | [] => s
    | _ => { s with server := server, actor := .waiting txn sender }
  | _ => s

def takeSlot : SlotServer K n :=
  match s.actor with
  | .waiting txn sender =>
    if s.slots = 0 then s else { s with slots := s.slots - 1, actor := .holding txn sender }
  | _ => s

/-- The slot stays with the transaction if it becomes pending now. -/
def assignTxToWorker (w : Fin n) : SlotServer K n :=
  match s.actor with
  | .holding txn sender =>
    { s with
      server := step sha256 ripemd160 s.server (.assign w)
      actor := .idle
      limited := match s.server.allPendingTxs.get txn.hash with
        | some _ => s.limited
        | none => s.limited.insert txn.hash sender }
  | _ => s

/-- A slot is given back unless too many transactions are pending or the channel is full. -/
def giveBack (pending : ℕ) : ℕ :=
  if pending < MAX_LIMITATION ∧ s.slots < MAX_LIMITATION then s.slots + 1 else s.slots

def removePendingTx (i : ℕ) : SlotServer K n :=
  match s.server.removals[i]? with
  | none => s
  | some (hash, _) =>
    let server := step sha256 ripemd160 s.server (.removePendingTx i)
    match s.server.allPendingTxs.get hash with
    | none => { s with server := server }
    | some _ => { s with
        server := server
        slots := s.giveBack server.allPendingTxs.size
        limited := s.limited.erase hash }

end SlotServer

def slotStep (s : SlotServer K n) : SlotAction K n → SlotServer K n
  | .transaction txn sender permitted => s.handleTransaction sha256 ripemd160 txn sender permitted
  | .takeSlot => s.takeSlot
  | .assign w => s.assignTxToWorker sha256 ripemd160 w
  | .removePendingTx i => s.removePendingTx sha256 ripemd160 i
  | .other (.transaction _ _) | .other (.assign _) | .other (.removePendingTx _) => s
  | .other a => { s with server := step sha256 ripemd160 s.server a }

/-- The states of a server whose actions are all allowed. -/
inductive SlotRun (allowed : SlotServer K n → SlotAction K n → Prop) : SlotServer K n → Prop
  | start (disablePreExec : Bool) (maxTxInBlock : ℕ) :
      SlotRun allowed (newSlotServer disablePreExec maxTxInBlock)
  | step {s : SlotServer K n} {a : SlotAction K n} (h : SlotRun allowed s) (ha : allowed s a) :
      SlotRun allowed (slotStep sha256 ripemd160 s a)

/-- No slot is taken for a transaction that is pending when it is handed to a worker, and a submitted
transaction is removed only while at most `MAX_LIMITATION` transactions are pending. -/
def Orderly (s : SlotServer K n) : SlotAction K n → Prop
  | .assign _ => ∀ txn sender, s.actor = .holding txn sender →
      s.server.allPendingTxs.get txn.hash = none
  | .removePendingTx i => ∀ hash err, s.server.removals[i]? = some (hash, err) →
      (s.limited.get hash).isSome → s.server.allPendingTxs.size ≤ MAX_LIMITATION
  | _ => True

section Server

variable {sha256 ripemd160} {s t : Server K n} {a : Action K n}

/-- An action that takes no submitted transaction in and no pending one out. -/
def Action.Inner : Action K n → Prop
  | .transaction _ _ | .assign _ | .removePendingTx _ => False
  | _ => True

theorem foldl_setProcessed_frame (l : List (VerifyTxResult K)) (s : Server K n) :
    (l.foldl (fun s t => s.setProcessed t.tx.hash t) s).incoming = s.incoming ∧
      (l.foldl (fun s t => s.setProcessed t.tx.hash t) s).allPendingTxs = s.allPendingTxs := by
  induction l generalizing s with
  | nil => exact ⟨rfl, rfl⟩
  | cons r l ih => exact ih (s.setProcessed r.tx.hash r)

theorem Works.keeps {u} (hworks : Works u t) (hincoming : u.incoming = s.incoming)
    (hpending : u.allPendingTxs = s.allPendingTxs) : t.incoming = s.incoming ∧
      ∀ h, (s.allPendingTxs.get h).isSome → (t.allPendingTxs.get h).isSome := by
  rw [← hincoming, ← hpending]
  exact ⟨hworks.incoming, hworks.pending⟩

theorem continueBlock_keeps (res : CheckBlkResult K) (w : Fin n) :
    (s.continueBlock res w).incoming = s.incoming ∧ ∀ h, (s.allPendingTxs.get h).isSome →
      ((s.continueBlock res w).allPendingTxs.get h).isSome := by
  unfold Server.continueBlock
  split
  · exact (works_assignTxToWorker _ w).keeps rfl rfl
  · exact (works_reVerifyStateful _ w).keeps rfl rfl
  · obtain ⟨hincoming, hpending⟩ := foldl_setProcessed_frame res.verifiedTxs { s with checking := none }
    dsimp only
    split
    · refine ⟨hincoming, fun h hp => ?_⟩
      change (OrderedMap.get (List.foldl _ _ _ : Server K n).allPendingTxs h).isSome
      rw [hpending]
      exact hp
    · refine ⟨hincoming, fun h hp => ?_⟩
      rw [hpending]
      exact hp

theorem Event.keeps (hst : Event sha256 ripemd160 s a t) (ha : a.Inner) :
    t.incoming = s.incoming ∧
      ∀ h, (s.allPendingTxs.get h).isSome → (t.allPendingTxs.get h).isSome := by
  cases hst with
  | nothing | register | unregister | getTxPool | deliver => exact ⟨rfl, fun _ hp => hp⟩
  | accepted | assign | removePendingTx => exact ha.elim
  | reverifyStale w | reverifyRemaining w => exact (works_reVerifyStateful _ w).keeps rfl rfl
  | saveBlock txs => exact (works_cleanTransactionList txs).keeps rfl rfl
  | verifyBlock =>
    unfold Server.verifyBlock
    split <;> exact ⟨rfl, fun _ hp => hp⟩
  | continueBlock w => exact continueBlock_keeps _ w
  | verifyTx => exact (works_verifyTx _ _).keeps rfl rfl
  | verifyStateful => exact (works_sendReq2StatefulV _).keeps rfl rfl
  | handleRsp => exact (works_handleRsp _ _).keeps rfl rfl
  | timeout w hash => exact (works_handleTimeoutEvent w hash).keeps rfl rfl
  | validate height errCode => exact (works_validate _ height errCode).keeps rfl rfl
  | checkPendingBlockOk =>
    unfold Server.checkPendingBlockOk
    split
    · exact ⟨rfl, fun _ hp => hp⟩
    · dsimp only
      split
      · exact ⟨rfl, fun _ hp => hp⟩
      · exact ⟨rfl, fun _ hp => hp⟩

end Server

section Accounting

variable {sha256 ripemd160} {s : SlotServer K n}

/-- What holds in every run. -/
structure SlotInv (s : SlotServer K n) : Prop where
  incoming : s.server.incoming = s.actor.txns
  limited : ∀ h, (s.limited.get h).isSome → (s.server.allPendingTxs.get h).isSome
  bound : s.slots ≤ MAX_LIMITATION
  alive : s.server.allPendingTxs.size = 0 → 0 < s.slots + s.actor.held

/-- Each slot is free, with a submitted transaction or in the hand of the actor. -/
def Accounted (s : SlotServer K n) : Prop :=
  MAX_LIMITATION ≤ s.slots + s.limited.size + s.actor.held

theorem slotInv_newSlotServer (disablePreExec : Bool) (maxTxInBlock : ℕ) :
    SlotInv (newSlotServer disablePreExec maxTxInBlock : SlotServer K n) ∧
      Accounted (newSlotServer disablePreExec maxTxInBlock : SlotServer K n) := by
  refine ⟨⟨rfl, nofun, le_rfl, fun _ => ?_⟩, le_rfl⟩
  exact Nat.succ_pos 9999

theorem handleTransaction_cases (hinv : SlotInv s) (txn : Transaction K) (sender : SenderType)
    (permitted : Bool) :
    s.handleTransaction sha256 ripemd160 txn sender permitted = s ∨
      s.actor = .idle ∧ s.handleTransaction sha256 ripemd160 txn sender permitted =
        { s with server := { s.server with incoming := [txn] }, actor := .waiting txn sender } := by
  unfold SlotServer.handleTransaction
  split
  next hidle =>
    have hempty : s.server.incoming = [] := by
      rw [hinv.incoming, hidle]
      rfl
    dsimp only
    split
    · exact .inl rfl
    · rename_i hsome
      refine .inr ⟨hidle, ?_⟩
      simp only [step, Server.handleTransaction] at hsome ⊢
      split_ifs at hsome ⊢
      · exact absurd hempty hsome
      · exact absurd hempty hsome
      · exact absurd hempty hsome
      · exact absurd hempty hsome
      · rw [hempty, List.nil_append]
  · exact .inl rfl

theorem SlotInv.handleTransaction (h : SlotInv s) (txn : Transaction K) (sender : SenderType)
    (permitted : Bool) : SlotInv (s.handleTransaction sha256 ripemd160 txn sender permitted) := by
  rcases handleTransaction_cases h txn sender permitted with heq | ⟨hidle, heq⟩
  · rw [heq]
    exact h
  · rw [heq]
    have halive := h.alive
    rw [hidle] at halive
    exact ⟨rfl, h.limited, h.bound, halive⟩

theorem Accounted.handleTransaction (h : Accounted s) (hinv : SlotInv s) (txn : Transaction K)
    (sender : SenderType) (permitted : Bool) :
    Accounted (s.handleTransaction sha256 ripemd160 txn sender permitted) := by
  rcases handleTransaction_cases hinv txn sender permitted with heq | ⟨hidle, heq⟩
  · rw [heq]
    exact h
  · rw [heq]
    unfold Accounted at h
    rw [hidle] at h
    exact h

theorem SlotInv.takeSlot (h : SlotInv s) : SlotInv s.takeSlot := by
  unfold SlotServer.takeSlot
  split
  next txn sender hwait =>
    split
    · exact h
    · rename_i hslots
      refine ⟨?_, h.limited, ?_, ?_⟩
      · rw [h.incoming, hwait]
        rfl
      · exact (Nat.sub_le _ _).trans h.bound
      · intro _
        exact Nat.succ_pos _
  · exact h

theorem Accounted.takeSlot (h : Accounted s) : Accounted s.takeSlot := by
  unfold SlotServer.takeSlot
  split
  next txn sender hwait =>
    split
    · exact h
    · rename_i hslots
      unfold Accounted at h ⊢
      rw [hwait] at h
      simp only [TxActor.held] at h ⊢
      omega
  · exact h

theorem SlotInv.assignTxToWorker (h : SlotInv s) (w : Fin n) :
    SlotInv (s.assignTxToWorker sha256 ripemd160 w) := by
  unfold SlotServer.assignTxToWorker
  split
  next txn sender hhold =>
    have hworks := works_assignTxToWorker (s := { s.server with incoming := [] }) txn w
    have hnew : (({ s.server with incoming := [] }.assignTxToWorker txn w).allPendingTxs.get
        txn.hash).isSome := pending_handOver txn w _
    have hincoming : s.server.incoming = [txn] := by
      rw [h.incoming, hhold]
      rfl
    simp only [step, hincoming]
    refine ⟨hworks.incoming, ?_, h.bound, ?_⟩
    · intro k hk
      split at hk
      · exact hworks.pending k (h.limited k hk)
      · rw [get_insert] at hk
        split at hk
        · rename_i heq
          rw [heq]
          exact hnew
        · exact hworks.pending k (h.limited k hk)
    · intro hzero
      rw [size_eq_zero.mp hzero] at hnew
      cases hnew
  · exact h

theorem Accounted.assignTxToWorker (h : Accounted s) (hinv : SlotInv s) {w}
    (horderly : Orderly s (.assign w)) : Accounted (s.assignTxToWorker sha256 ripemd160 w) := by
  unfold SlotServer.assignTxToWorker
  split
  next txn sender hhold =>
    have hfresh := horderly txn sender hhold
    have hnew : s.limited.get txn.hash = none := by
      cases hget : s.limited.get txn.hash with
      | none => rfl
      | some sender' =>
        have hp := hinv.limited txn.hash (Option.isSome_of_eq_some hget)
        rw [hfresh] at hp
        cases hp
    have hsize := size_insert hnew sender
    unfold Accounted at h ⊢
    rw [hhold] at h
    rw [hfresh]
    simp only [TxActor.held] at h ⊢
    omega
  · exact h

theorem pending_removed {i hash err tx} (hi : s.server.removals[i]? = some (hash, err))
    (hp : s.server.allPendingTxs.get hash = some tx) :
    (step sha256 ripemd160 s.server (.removePendingTx i)).allPendingTxs =
      s.server.allPendingTxs.erase hash := by
  simp only [step, hi, Server.removePendingTx, hp]

theorem pending_not_removed {i hash err} (hi : s.server.removals[i]? = some (hash, err))
    (hp : s.server.allPendingTxs.get hash = none) :
    (step sha256 ripemd160 s.server (.removePendingTx i)).allPendingTxs = s.server.allPendingTxs := by
  simp only [step, hi, Server.removePendingTx, hp]

variable (sha256 ripemd160) in
theorem incoming_removePendingTx (i : ℕ) :
    (step sha256 ripemd160 s.server (.removePendingTx i)).incoming = s.server.incoming := by
  simp only [step]
  split
  · rfl
  · exact (removePendingTx_frame _ _).2

theorem SlotInv.removePendingTx (h : SlotInv s) (i : ℕ) :
    SlotInv (s.removePendingTx sha256 ripemd160 i) := by
  unfold SlotServer.removePendingTx
  split
  · exact h
  next hash err hi =>
    dsimp only
    split
    · rename_i hnone
      refine ⟨?_, ?_, h.bound, ?_⟩
      · exact (incoming_removePendingTx sha256 ripemd160 i).trans h.incoming
      · rw [pending_not_removed hi hnone]
        exact h.limited
      · rw [pending_not_removed hi hnone]
        exact h.alive
    · rename_i tx htx
      rw [pending_removed hi htx]
      refine ⟨?_, ?_, ?_, ?_⟩
      · exact (incoming_removePendingTx sha256 ripemd160 i).trans h.incoming
      · intro k hk
        rw [pending_removed hi htx]
        obtain ⟨hne, hk⟩ := isSome_get_erase.mp hk
        exact isSome_get_erase.mpr ⟨hne, h.limited k hk⟩
      · have hbound := h.bound
        unfold SlotServer.giveBack
        split
        · rename_i hroom
          exact hroom.2
        · exact hbound
      · intro hzero
        rw [pending_removed hi htx] at hzero
        have hmax : 0 < MAX_LIMITATION := Nat.succ_pos 9999
        unfold SlotServer.giveBack
        dsimp only
        split
        · omega
        · omega

theorem Accounted.removePendingTx (h : Accounted s) {i : ℕ}
    (horderly : Orderly s (.removePendingTx i)) :
    Accounted (s.removePendingTx sha256 ripemd160 i) := by
  unfold SlotServer.removePendingTx
  split
  · exact h
  next hash err hi =>
    dsimp only
    split
    · exact h
    · rename_i tx htx
      rw [pending_removed hi htx]
      have hpending := size_erase htx
      unfold Accounted SlotServer.giveBack at *
      dsimp only
      cases hlimited : s.limited.get hash with
      | none =>
        rw [erase_eq_self hlimited]
        split
        · omega
        · omega
      | some sender =>
        have hroom := horderly hash err hi (Option.isSome_of_eq_some hlimited)
        have hsize := size_erase hlimited
        split
        · omega
        · omega

theorem SlotInv.other (h : SlotInv s) {a} (ha : a.Inner) :
    SlotInv { s with server := step sha256 ripemd160 s.server a } := by
  obtain ⟨hincoming, hpending⟩ := (step_event sha256 ripemd160 s.server a).keeps ha
  refine ⟨hincoming.trans h.incoming, ?_, h.bound, ?_⟩
  · intro k hk
    exact hpending k (h.limited k hk)
  · intro hzero
    apply h.alive
    apply size_eq_zero.mpr
    intro k
    cases hget : s.server.allPendingTxs.get k with
    | none => rfl
    | some tx =>
      have hp := hpending k (Option.isSome_of_eq_some hget)
      rw [size_eq_zero.mp hzero] at hp
      cases hp

theorem slotStep_other (s : SlotServer K n) (b : Action K n) :
    slotStep sha256 ripemd160 s (.other b) = s ∨ b.Inner ∧
      slotStep sha256 ripemd160 s (.other b) = { s with server := step sha256 ripemd160 s.server b } := by
  cases b with
  | transaction | assign | removePendingTx => exact .inl rfl
  | _ => exact .inr ⟨trivial, rfl⟩

theorem SlotInv.step (h : SlotInv s) (a : SlotAction K n) :
    SlotInv (slotStep sha256 ripemd160 s a) := by
  cases a with
  | transaction txn sender permitted => exact h.handleTransaction txn sender permitted
  | takeSlot => exact h.takeSlot
  | assign w => exact h.assignTxToWorker w
  | removePendingTx i => exact h.removePendingTx i
  | other b =>
    rcases slotStep_other s b with heq | ⟨hinner, heq⟩
    · rw [heq]
      exact h
    · rw [heq]
      exact h.other hinner

theorem Accounted.step (h : Accounted s) (hinv : SlotInv s) {a} (ha : Orderly s a) :
    Accounted (slotStep sha256 ripemd160 s a) := by
  cases a with
  | transaction txn sender permitted => exact h.handleTransaction hinv txn sender permitted
  | takeSlot => exact h.takeSlot
  | assign w => exact h.assignTxToWorker hinv ha
  | removePendingTx i => exact h.removePendingTx ha
  | other b =>
    rcases slotStep_other s b with heq | ⟨-, heq⟩
    · rw [heq]
      exact h
    · rw [heq]
      exact h

/-- A transaction that is pending already costs a slot: nothing gives it back later. -/
theorem duplicate_loses_slot {txn tx sender} (hhold : s.actor = .holding txn sender)
    (hdup : s.server.allPendingTxs.get txn.hash = some tx) (w : Fin n) :
    (s.assignTxToWorker sha256 ripemd160 w).slots + (s.assignTxToWorker sha256 ripemd160 w).limited.size +
        (s.assignTxToWorker sha256 ripemd160 w).actor.held + 1 =
      s.slots + s.limited.size + s.actor.held := by
  unfold SlotServer.assignTxToWorker
  simp only [hhold, hdup, TxActor.held]

/-- With the slots the server takes the steps of the server without them. -/
theorem slotStep_server (s : SlotServer K n) (a : SlotAction K n) :
    (slotStep sha256 ripemd160 s a).server = s.server ∨
      ∃ b, (slotStep sha256 ripemd160 s a).server = step sha256 ripemd160 s.server b := by
  cases a with
  | transaction txn sender permitted =>
    simp only [slotStep, SlotServer.handleTransaction]
    split
    · split
      · exact .inl rfl
      · exact .inr ⟨.transaction txn permitted, rfl⟩
    · exact .inl rfl
  | takeSlot =>
    simp only [slotStep, SlotServer.takeSlot]
    split
    · split
      · exact .inl rfl
      · exact .inl rfl
    · exact .inl rfl
  | assign w =>
    simp only [slotStep, SlotServer.assignTxToWorker]
    split
    · exact .inr ⟨.assign w, rfl⟩
    · exact .inl rfl
  | removePendingTx i =>
    simp only [slotStep, SlotServer.removePendingTx]
    split
    · exact .inl rfl
    · split
      · exact .inr ⟨.removePendingTx i, rfl⟩
      · exact .inr ⟨.removePendingTx i, rfl⟩
  | other b =>
    rcases slotStep_other s b with heq | ⟨-, heq⟩
    · exact .inl (congrArg _ heq)
    · exact .inr ⟨b, congrArg _ heq⟩

variable {allowed : SlotServer K n → SlotAction K n → Prop}

theorem SlotRun.inv (h : SlotRun sha256 ripemd160 allowed s) : SlotInv s := by
  induction h with
  | start disablePreExec maxTxInBlock => exact (slotInv_newSlotServer disablePreExec maxTxInBlock).1
  | step _ _ ih => exact ih.step _

theorem SlotRun.accounted (h : SlotRun sha256 ripemd160 Orderly s) : Accounted s := by
  induction h with
  | start disablePreExec maxTxInBlock => exact (slotInv_newSlotServer disablePreExec maxTxInBlock).2
  | step hrun ha ih => exact ih.step hrun.inv ha

/-- The pool does not come to a stop: with nothing pending a slot is free, whatever was lost. -/
theorem slot_left (h : SlotRun sha256 ripemd160 allowed s) (hactor : s.actor.held = 0)
    (hnone : s.server.allPendingTxs.size = 0) : 0 < s.slots := by
  have halive := h.inv.alive hnone
  omega

/-- In orderly runs no slot is lost, so that with nothing pending all of them are free. -/
theorem no_slot_lost (h : SlotRun sha256 ripemd160 Orderly s) (hactor : s.actor.held = 0) :
    MAX_LIMITATION ≤ s.slots + s.limited.size ∧
      (s.server.allPendingTxs.size = 0 → s.slots = MAX_LIMITATION) := by
  have haccount := h.accounted
  unfold Accounted at haccount
  refine ⟨by omega, ?_⟩
  intro hzero
  have hinv := h.inv
  have hlimited : s.limited.size = 0 := by
    apply size_eq_zero.mpr
    intro k
    cases hget : s.limited.get k with
    | none => rfl
    | some sender =>
      have hp := hinv.limited k (Option.isSome_of_eq_some hget)
      rw [size_eq_zero.mp hzero] at hp
      cases hp
  have hbound := hinv.bound
  omega

end Accounting

variable (actions : List (SlotAction echoCrypto.keys 1))

def slotActions : SlotServer echoCrypto.keys 1 :=
  actions.foldl (slotStep echoCrypto.sha256 echoCrypto.ripemd160) (newSlotServer false 10)

theorem slotRun_slotActions :
    SlotRun echoCrypto.sha256 echoCrypto.ripemd160 (fun _ _ => True) (slotActions actions) := by
  induction actions using List.reverseRecOn with
  | nil => exact .start false 10
  | append_singleton actions a ih =>
    rw [slotActions, List.foldl_append]
    exact .step ih trivial

/-- The second copy comes by http while the first one is verified. -/
def duplicateActions : List (SlotAction echoCrypto.keys 1) :=
  [.other (.register .stateless), .other (.register .stateful), .transaction sampleSigned .net true,
    .takeSlot, .assign 0, .transaction sampleSigned .http true, .takeSlot, .assign 0,
    .other (.verifyTx 0), .other (.validate 0 0 .noError), .other (.validate 0 0 .noError),
    .other (.deliver 0), .other (.deliver 0), .other (.handleRsp 0), .other (.handleRsp 0),
    .removePendingTx 0]

/-- The slot of the second copy is lost for good. -/
theorem duplicate_slot_lost :
    SlotRun echoCrypto.sha256 echoCrypto.ripemd160 (fun _ _ => True) (slotActions duplicateActions) ∧
      (slotActions duplicateActions).actor.held = 0 ∧
      (slotActions duplicateActions).server.allPendingTxs.size = 0 ∧
      (slotActions duplicateActions).slots + (slotActions duplicateActions).limited.size <
        MAX_LIMITATION := by
  refine ⟨slotRun_slotActions duplicateActions, ?_⟩
  decide +kernel

/-- One transaction that is pending, with its slot. -/
theorem no_slot_lost_pending :
    MAX_LIMITATION ≤ (slotActions [.transaction sampleSigned .net true, .takeSlot, .assign 0]).slots +
      (slotActions [.transaction sampleSigned .net true, .takeSlot, .assign 0]).limited.size := by
  have hrun : SlotRun echoCrypto.sha256 echoCrypto.ripemd160 Orderly
      (slotActions [.transaction sampleSigned .net true, .takeSlot, .assign 0]) := by
    have htaken : SlotRun echoCrypto.sha256 echoCrypto.ripemd160 Orderly
        (slotActions [.transaction sampleSigned .net true, .takeSlot]) :=
      .step (a := .takeSlot) (.step (a := .transaction sampleSigned .net true) (.start false 10) trivial)
        trivial
    have hnone : (slotActions [.transaction sampleSigned .net true, .takeSlot]).server.allPendingTxs.size
        = 0 := by decide +kernel
    exact htaken.step (a := .assign 0) fun txn _ _ => size_eq_zero.mp hnone txn.hash
  exact (no_slot_lost hrun (by decide +kernel)).1

theorem slot_left_duplicate : 0 < (slotActions duplicateActions).slots :=
  slot_left (slotRun_slotActions duplicateActions) (by decide +kernel) (by decide +kernel)

end Poly.TxPool
