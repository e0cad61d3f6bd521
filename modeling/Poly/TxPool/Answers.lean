import Poly.TxPool.Flow
import Poly.TxPool.Proposals

/-! Executions of the pool without end, and the requests that they answer. -/
namespace Poly.TxPool

open Lib BlockView List Option

variable {K : Keys} {n : ℕ} {sha256 : Bytes → Uint256} {ripemd160 : Bytes → Address}

section Growth

variable {b c : BlockView K} {s t : Server K n} {a : Action K n}

/-- What is asked and answered stays; without a new request the pending block only shrinks. -/
structure Grows (b c : BlockView K) : Prop where
  asked : b.asked <+: c.asked
  replies : ∃ rest, c.replies = b.replies ++ rest ∧ ∀ x ∈ rest, c.pendingBlock.sender = some x.1
  quiet : c.asked = b.asked → b.checking = none → c.checking = none ∧
    ∀ k, b.pendingBlock.unProcessedTxs.get k = none → c.pendingBlock.unProcessedTxs.get k = none

theorem Grows.refl (b : BlockView K) : Grows b b where
  asked := prefix_refl b.asked
  replies := ⟨[], (append_nil _).symm, nofun⟩
  quiet _ hfree := ⟨hfree, fun _ hk => hk⟩

theorem send_replies (b : BlockView K) : ∃ rest, b.send.replies = b.replies ++ rest ∧
    ∀ x ∈ rest, b.send.pendingBlock.sender = some x.1 := by
  cases hsender : b.pendingBlock.sender with
  | none => exact ⟨[], (send_of_no_sender hsender).trans (append_nil _).symm, nofun⟩
  | some id =>
    refine ⟨[(id, b.pendingBlock.processedTxs.entries.map Prod.snd)], ?_, ?_⟩
    · simp only [BlockView.send, hsender]
    · intro x hx
      cases mem_singleton.mp hx
      exact hsender

theorem sendBlkResult2Consensus_view : s.sendBlkResult2Consensus.blockView = s.blockView.send := rfl

theorem grows_verifyBlock (txs : List (Transaction K)) (height : UInt32) :
    Grows s.blockView (s.verifyBlock txs height).blockView := by
  have hnew : s.asked ++ [txs] ≠ s.asked := by
    intro h
    have hlen := congrArg List.length h
    rw [length_append, length_singleton] at hlen
    omega
  unfold Server.verifyBlock
  split
  · rw [sendBlkResult2Consensus_view]
    exact ⟨prefix_append _ _, send_replies _, fun h => absurd h hnew⟩
  · exact ⟨prefix_append _ _, ⟨[], (append_nil _).symm, nofun⟩, fun h => absurd h hnew⟩

theorem grows_continueBlock {res} (hres : s.checking = some res) (w : Fin n) :
    Grows s.blockView (s.continueBlock res w).blockView := by
  have hbusy : s.checking ≠ none := by
    rw [hres]
    exact some_ne_none res
  have hsame : ∀ c : BlockView K, c.asked = s.asked → c.replies = s.replies →
      Grows s.blockView c := by
    intro c hasked hreplies
    refine ⟨?_, ⟨[], ?_, nofun⟩, fun _ hfree => absurd hfree hbusy⟩
    · rw [hasked]
      exact prefix_refl s.asked
    · rw [hreplies]
      exact (append_nil _).symm
  unfold Server.continueBlock
  split
  · rw [setUnProcessed_view (works_assignTxToWorker _ w).blockView]
    exact hsame _ rfl rfl
  · rw [setUnProcessed_view (works_reVerifyStateful _ w).blockView]
    exact hsame _ rfl rfl
  · obtain ⟨processedTxs, hview, -⟩ :=
      foldl_setProcessed_view res.verifiedTxs { s with checking := none }
    dsimp only
    split
    · rw [sendBlkResult2Consensus_view, hview]
      exact ⟨prefix_refl s.asked, send_replies _, fun _ hfree => absurd hfree hbusy⟩
    · rw [hview]
      exact hsame _ rfl rfl

theorem grows_checkPendingBlockOk (hash : Uint256) (err : ErrCode) :
    Grows s.blockView (s.checkPendingBlockOk hash err).blockView := by
  have herase : ∀ k, s.pendingBlock.unProcessedTxs.get k = none →
      (s.pendingBlock.unProcessedTxs.erase hash).get k = none := by
    intro k hk
    rw [OrderedMap.get_erase]
    split
    · rfl
    · exact hk
  unfold Server.checkPendingBlockOk
  split
  · exact Grows.refl s.blockView
  · dsimp only
    split
    · rw [sendBlkResult2Consensus_view]
      exact ⟨prefix_refl s.asked, send_replies _, fun _ hfree => ⟨hfree, herase⟩⟩
    · exact ⟨prefix_refl s.asked, ⟨[], (append_nil _).symm, nofun⟩,
        fun _ hfree => ⟨hfree, herase⟩⟩

theorem Event.grows (hst : Event sha256 ripemd160 s a t) : Grows s.blockView t.blockView := by
  cases hst.blockEvent with
  | none hview => exact hview ▸ Grows.refl s.blockView
  | verifyBlock height hne hfree ht => exact ht ▸ grows_verifyBlock _ height
  | continueBlock w hres ht => exact ht ▸ grows_continueBlock hres w
  | @checkPendingBlockOk i hash err hi hfree ht =>
    have hgrow := grows_checkPendingBlockOk (s := { s with checks := s.checks.eraseIdx i }) hash err
    exact ht ▸ hgrow

theorem Grows.answer (h : Grows b c) {id reply} (hreply : b.answer id = some reply) :
    c.answer id = some reply := by
  obtain ⟨rest, hrest, -⟩ := h.replies
  obtain ⟨r, hr, rfl⟩ := map_eq_some_iff.mp hreply
  simp only [BlockView.answer, hrest, find?_append, hr, some_or, map_some]

/-- A request without an answer that another one has followed gets none. -/
theorem Grows.no_answer (h : Grows b c) (hc : c.Books) {id : ℕ} (hnone : b.answer id = none)
    (hover : id + 1 < c.asked.length) : c.answer id = none := by
  obtain ⟨rest, hrest, hsender⟩ := h.replies
  have hfind : (rest.find? fun r => r.1 = id) = none := by
    apply find?_eq_none.mpr
    intro x hx heq
    have hlen := (hc.sender x.1).mp (hsender x hx)
    simp only [decide_eq_true_eq] at heq
    omega
  simp only [BlockView.answer, map_eq_none_iff] at hnone
  simp [BlockView.answer, hrest, find?_append, hnone, hfind, map_none]

end Growth

/-- An execution of the pool from its start on. -/
structure Execution (sha256 : Bytes → Uint256) (ripemd160 : Bytes → Address) (K : Keys) (n : ℕ) where
  state : ℕ → Server K n
  action : ℕ → Action K n
  start : ∃ disablePreExec maxTxInBlock, state 0 = newTxPoolServer disablePreExec maxTxInBlock
  next : ∀ t, state (t + 1) = step sha256 ripemd160 (state t) (action t)

namespace Execution

variable (E : Execution sha256 ripemd160 K n) {id t t' : ℕ}

theorem event (t : ℕ) : Event sha256 ripemd160 (E.state t) (E.action t) (E.state (t + 1)) := by
  rw [E.next t]
  exact step_event sha256 ripemd160 (E.state t) (E.action t)

theorem consistent (t : ℕ) : Kept sha256 ripemd160 (E.state t) ∧ FlowInv (E.state t) := by
  induction t with
  | zero =>
    obtain ⟨disablePreExec, maxTxInBlock, hstart⟩ := E.start
    rw [hstart]
    exact ⟨kept_newTxPoolServer disablePreExec maxTxInBlock,
      ⟨nofun, nofun⟩⟩
  | succ t ih =>
    obtain ⟨V, hinv⟩ := ih.1.inv
    refine ⟨ih.1.step (E.event t), ih.2.step ?_ (E.event t)⟩
    intro w k pt hpt
    exact ((hinv.workers w).pending k pt hpt).1

theorem books (t : ℕ) : (E.state t).blockView.BooksClosed := (E.consistent t).1.books

theorem asked_mono (h : t ≤ t') : (E.state t).asked <+: (E.state t').asked := by
  induction t', h using Nat.le_induction with
  | base => exact prefix_refl _
  | succ t' _ ih => exact ih.trans (E.event t').grows.asked

theorem asked_later (h : t ≤ t') {txs} (hasked : (E.state t).asked[id]? = some txs) :
    (E.state t').asked[id]? = some txs := by
  obtain ⟨rest, hrest⟩ := E.asked_mono h
  rw [← hrest, getElem?_append_left (List.getElem?_eq_some_iff.mp hasked).1]
  exact hasked

theorem answer_later (h : t ≤ t') {reply} (hreply : (E.state t).answer id = some reply) :
    (E.state t').answer id = some reply := by
  induction t', h using Nat.le_induction with
  | base => exact hreply
  | succ t' _ ih => exact (E.event t').grows.answer ih

theorem overtaken (hover : id + 1 < (E.state t).asked.length) (hnone : (E.state t).answer id = none)
    (h : t ≤ t') : (E.state t').answer id = none := by
  induction t', h using Nat.le_induction with
  | base => exact hnone
  | succ t' h ih =>
    have hlen := (E.asked_mono (Nat.le_succ_of_le h)).length_le
    exact (E.event t').grows.no_answer (E.books (t' + 1)).toBooks ih
      (hover.trans_le hlen)

end Execution

section Progress

variable {s : Server K n}

theorem checkPendingBlockOk_settles {i x} (hi : s.checks[i]? = some x) (hfree : s.checking = none) :
    (step sha256 ripemd160 s (.checkPendingBlockOk i)).pendingBlock.unProcessedTxs.get x.1 = none := by
  obtain ⟨hash, err⟩ := x
  simp only [step, hi, hfree, Server.checkPendingBlockOk]
  split
  next hnone => exact hnone
  · have herased : (s.pendingBlock.unProcessedTxs.erase hash).get hash = none := by
      rw [OrderedMap.get_erase, if_pos rfl]
    split_ifs
    · exact herased
    · exact herased

/-- Calls of `removePendingTx` and `checkPendingBlockOk` are made in the end. -/
structure Served (E : Execution sha256 ripemd160 K n) : Prop where
  removals : ∀ t, ∀ x ∈ (E.state t).removals, ∃ t' ≥ t, ∃ i,
    E.action t' = .removePendingTx i ∧ (E.state t').removals[i]? = some x
  checks : ∀ t, ∀ x ∈ (E.state t).checks, ∃ t' ≥ t, ∃ i,
    E.action t' = .checkPendingBlockOk i ∧ (E.state t').checks[i]? = some x ∧
      (E.state t').checking = none

/-- After the work on a request was laid out the validators are done with the hash. -/
def AnsweredAfter (E : Execution sha256 ripemd160 K n) (t₀ : ℕ) (h : Uint256) : Prop :=
  ∃ t ≥ t₀, (E.state t).checking = none ∧ ¬ (E.state t).Verifying h

section Alone

variable {E : Execution sha256 ripemd160 K n} {t₀ t t' id : ℕ} {txs : List (Transaction K)}

theorem quiet_later (hlast : ∀ t ≥ t₀, (E.state t).asked = (E.state t₀).asked) (ht : t ≥ t₀)
    (h : t ≤ t') (hfree : (E.state t).checking = none) : (E.state t').checking = none ∧
      ∀ k, (E.state t).pendingBlock.unProcessedTxs.get k = none →
        (E.state t').pendingBlock.unProcessedTxs.get k = none := by
  induction t', h using Nat.le_induction with
  | base => exact ⟨hfree, fun _ hk => hk⟩
  | succ t' h ih =>
    have hsame : (E.state (t' + 1)).asked = (E.state t').asked :=
      (hlast (t' + 1) (by omega)).trans (hlast t' (by omega)).symm
    obtain ⟨hfree', hkeep⟩ := (E.event t').grows.quiet hsame ih.1
    exact ⟨hfree', fun k hk => hkeep k (ih.2 k hk)⟩

variable (hserved : Served E)
include hserved

variable (hlast : ∀ t ≥ t₀, (E.state t).asked = (E.state t₀).asked)
include hlast

/-- The validators are done with the hash, so it passes through the calls that are left. -/
theorem settled_of_answered {h} (hanswered : AnsweredAfter E t₀ h) :
    ∃ T ≥ t₀, (E.state T).checking = none ∧
      (E.state T).pendingBlock.unProcessedTxs.get h = none := by
  obtain ⟨t, ht, hfree, hdone⟩ := hanswered
  have hquiet : ∀ t' ≥ t, (E.state t').checking = none := fun t' h =>
    (quiet_later hlast ht h hfree).1
  -- once a check is to come, what is left is to make it
  have hnoted : ∀ t' ≥ t, Noted (E.state t').checks h → ∃ T ≥ t₀, (E.state T).checking = none ∧
      (E.state T).pendingBlock.unProcessedTxs.get h = none := by
    rintro t' ht' ⟨x, hx, rfl⟩
    obtain ⟨T, hT, i, haction, hi, hfree'⟩ := hserved.checks t' x hx
    refine ⟨T + 1, by omega, hquiet _ (by omega), ?_⟩
    rw [E.next T, haction]
    exact checkPendingBlockOk_settles hi hfree'
  have hwaits : ∀ t' ≥ t, (∃ T ≥ t₀, (E.state T).checking = none ∧
      (E.state T).pendingBlock.unProcessedTxs.get h = none) ∨
        ((E.state t').allPendingTxs.get h).isSome := by
    intro t' ht'
    cases hget : (E.state t').pendingBlock.unProcessedTxs.get h with
    | none => exact .inl ⟨t', by omega, hquiet t' ht', hget⟩
    | some tx =>
      rcases (E.consistent t').2.waiting h (isSome_of_eq_some hget) with hp | hn
      · exact .inr hp
      · exact .inl (hnoted t' ht' hn)
  rcases hwaits t le_rfl with hset | hpending
  · exact hset
  rcases (E.consistent t).2.tracked h hpending with hv | ⟨x, hx, rfl⟩
  · exact absurd hv hdone
  obtain ⟨t', ht', i, haction, hi⟩ := hserved.removals t x hx
  rcases hwaits t' ht' with hset | hpending'
  · exact hset
  apply hnoted (t' + 1) (by omega)
  rw [E.next t', haction]
  obtain ⟨tx, htx⟩ := isSome_iff_exists.mp hpending'
  simp only [step, hi, Server.removePendingTx, htx]
  exact noted_last _ x.1 x.2

/-- From some time on the block waits for none of these transactions. -/
theorem settled_all (hfree : ∃ t ≥ t₀, (E.state t).checking = none) (txs : List (Transaction K))
    (hanswered : ∀ tx ∈ txs, AnsweredAfter E t₀ tx.hash) :
    ∃ T ≥ t₀, (E.state T).checking = none ∧
      ∀ tx ∈ txs, (E.state T).pendingBlock.unProcessedTxs.get tx.hash = none := by
  induction txs with
  | nil =>
    obtain ⟨t, ht, hfree⟩ := hfree
    exact ⟨t, ht, hfree, nofun⟩
  | cons tx txs ih =>
    obtain ⟨hhead, htail⟩ := forall_mem_cons.mp hanswered
    obtain ⟨T, hT, hfree₁, hall⟩ := ih htail
    obtain ⟨T', hT', hfree₂, hnone⟩ := settled_of_answered hserved hlast hhead
    obtain ⟨hfree', hkeep⟩ := quiet_later hlast hT (le_max_left T T') hfree₁
    obtain ⟨-, hkeep'⟩ := quiet_later hlast hT' (le_max_right T T') hfree₂
    refine ⟨max T T', by omega, hfree', forall_mem_cons.mpr ⟨hkeep' _ hnone, ?_⟩⟩
    intro t ht
    exact hkeep _ (hall t ht)

end Alone

/-- A request that no other one follows is answered once the validators are done with all of its
transactions. -/
theorem last_request_answered {E : Execution sha256 ripemd160 K n} (hserved : Served E) {t₀ id txs}
    (hasked : (E.state t₀).asked[id]? = some txs)
    (hanswered : ∀ tx ∈ txs, AnsweredAfter E t₀ tx.hash)
    (hlen : ∀ t ≥ t₀, (E.state t).asked.length ≤ id + 1) : ∃ t, ((E.state t).answer id).isSome := by
  have hid : id < (E.state t₀).asked.length := (List.getElem?_eq_some_iff.mp hasked).1
  have hlast : ∀ t ≥ t₀, (E.state t).asked = (E.state t₀).asked := by
    intro t ht
    have hle := hlen t ht
    have hmono := E.asked_mono ht
    have hge := hmono.length_le
    exact (hmono.eq_of_length (by omega)).symm
  obtain ⟨tx, htx⟩ : ∃ tx, tx ∈ txs := by
    apply exists_mem_of_ne_nil
    rintro rfl
    exact (E.books t₀).nonempty (mem_of_getElem? hasked)
  obtain ⟨t, ht, hfree, -⟩ := hanswered tx htx
  obtain ⟨T, hT, hfree', hnone⟩ := settled_all hserved hlast ⟨t, ht, hfree⟩ txs hanswered
  have hbooks := E.books T
  have hcurrent : (E.state T).blockView.Current id txs := by
    refine ⟨(hbooks.sender id).mpr ?_, E.asked_later hT hasked⟩
    have hle := hlen T hT
    have hge := (E.asked_mono hT).length_le
    change (E.state T).asked.length = id + 1
    omega
  refine ⟨T, hbooks.closed id txs hcurrent hfree' (OrderedMap.size_eq_zero.mpr ?_)⟩
  intro k
  cases hget : (E.state T).pendingBlock.unProcessedTxs.get k with
  | none => exact hget
  | some tx' =>
    obtain ⟨-, tx'', htx'', rfl⟩ := (hbooks.listed id txs hcurrent).unProcessed k tx' hget
    exact hnone tx'' htx''

/-- The first answer to a request lists its transactions only, and all of them if it reports no
error. A request whose transactions the validators are done with is answered exactly if no other
request came before the answer. -/
theorem request_answered (E : Execution sha256 ripemd160 K n) (hserved : Served E) {t₀ id : ℕ}
    {txs : List (Transaction K)} (hasked : (E.state t₀).asked[id]? = some txs) :
    (∀ t reply, (E.state t).answer id = some reply →
      (∀ r ∈ reply, ∃ tx ∈ txs, tx.hash = r.tx.hash) ∧
        ((∀ r ∈ reply, r.errCode = .noError) → ∀ tx ∈ txs, ∃ r ∈ reply, r.tx.hash = tx.hash)) ∧
      ((∀ tx ∈ txs, AnsweredAfter E t₀ tx.hash) →
        ((∃ t, ((E.state t).answer id).isSome) ↔
          ∀ t, id + 1 < (E.state t).asked.length → ((E.state t).answer id).isSome)) := by
  refine ⟨?_, fun hanswered => ⟨?_, ?_⟩⟩
  · intro t reply hreply
    have hbooks := E.books (max t t₀)
    have hasked' := E.asked_later (le_max_right t t₀) hasked
    have hreply' := E.answer_later (le_max_left t t₀) hreply
    exact ⟨hbooks.only id txs reply hasked' hreply', hbooks.all id txs reply hasked' hreply'⟩
  · rintro ⟨t, hsome⟩ t' hover
    obtain ⟨reply, hreply⟩ := isSome_iff_exists.mp hsome
    by_contra hnot
    have hnone := E.overtaken hover (not_isSome_iff_eq_none.mp hnot) (le_max_right t t')
    rw [E.answer_later (le_max_left t t') hreply] at hnone
    cases hnone
  · intro halone
    by_contra hnever
    refine hnever (last_request_answered hserved hasked hanswered ?_)
    intro t _
    by_contra hlen
    exact hnever ⟨t, halone t (by omega)⟩

end Progress

/-- The calls are made as soon as they are due. -/
def prompt (s : Server K n) : Action K n → Bool
  | .removePendingTx 0 => s.removals.length == 1 && s.checks.isEmpty
  | .checkPendingBlockOk 0 => s.removals.isEmpty && s.checks.length == 1 && s.checking.isNone
  | _ => s.removals.isEmpty && s.checks.isEmpty

theorem served_of_prompt {E : Execution sha256 ripemd160 K n}
    (h : ∀ t, prompt (E.state t) (E.action t) = true) : Served E := by
  constructor
  · intro t x hx
    have hprompt := h t
    unfold prompt at hprompt
    split at hprompt
    next haction =>
      have hone := (Bool.and_eq_true_iff.mp hprompt).1
      obtain ⟨y, hy⟩ := length_eq_one_iff.mp (eq_of_beq hone)
      rw [hy] at hx
      cases mem_singleton.mp hx
      refine ⟨t, le_rfl, 0, haction, ?_⟩
      rw [hy]
      rfl
    · simp only [Bool.and_eq_true, List.isEmpty_iff] at hprompt
      rw [hprompt.1.1] at hx
      cases hx
    · simp only [Bool.and_eq_true, List.isEmpty_iff] at hprompt
      rw [hprompt.1] at hx
      cases hx
  · intro t x hx
    have hprompt := h t
    unfold prompt at hprompt
    split at hprompt
    · simp only [Bool.and_eq_true, List.isEmpty_iff] at hprompt
      rw [hprompt.2] at hx
      cases hx
    next haction =>
      simp only [Bool.and_eq_true, beq_iff_eq, isNone_iff_eq_none] at hprompt
      obtain ⟨⟨-, hone⟩, hfree⟩ := hprompt
      obtain ⟨y, hy⟩ := length_eq_one_iff.mp hone
      rw [hy] at hx
      cases mem_singleton.mp hx
      refine ⟨t, le_rfl, 0, haction, ?_, hfree⟩
      rw [hy]
      rfl
    · simp only [Bool.and_eq_true, List.isEmpty_iff] at hprompt
      rw [hprompt.2] at hx
      cases hx

/-- The actions of the list, and then nothing. -/
def executionOf (actions : List (Action echoCrypto.keys 1)) :
    Execution echoCrypto.sha256 echoCrypto.ripemd160 echoCrypto.keys 1 where
  action t := actions.getD t (.assign 0)
  state t := run echoCrypto.sha256 echoCrypto.ripemd160 (newTxPoolServer false 10)
    ((List.range t).map fun i => actions.getD i (.assign 0))
  start := ⟨false, 10, rfl⟩
  next t := by
    rw [range_succ, map_append]
    exact foldl_append

variable {actions : List (Action echoCrypto.keys 1)}

section

variable (hidle : ((executionOf actions).state actions.length).incoming = [])
include hidle

theorem executionOf_after {t : ℕ} (h : actions.length ≤ t) :
    (executionOf actions).action t = .assign 0 ∧
      (executionOf actions).state t = (executionOf actions).state actions.length := by
  have haction : ∀ t, actions.length ≤ t → (executionOf actions).action t = .assign 0 := by
    intro t ht
    exact getD_eq_default actions _ ht
  refine ⟨haction t h, ?_⟩
  induction t, h using Nat.le_induction with
  | base => rfl
  | succ t h ih =>
    rw [(executionOf actions).next t, haction t h, ih]
    simp only [step, hidle]

theorem executionOf_served (hprompt : ∀ t < actions.length + 1,
      prompt ((executionOf actions).state t) ((executionOf actions).action t) = true) :
    Served (executionOf actions) := by
  apply served_of_prompt
  intro t
  by_cases ht : t < actions.length
  · exact hprompt t (by omega)
  · obtain ⟨haction, hstate⟩ := executionOf_after hidle (Nat.le_of_not_lt ht)
    have hend := hprompt actions.length (by omega)
    rw [(executionOf_after hidle le_rfl).1] at hend
    rw [haction, hstate]
    exact hend

end

def otherSigned : Transaction echoCrypto.keys :=
  { sampleTx [⟨[2 :: (zeroPad 32 [2] : Uint256).val], [[2]], 1⟩] with hash := zeroPad 32 [2] }

/-- The validators answer for the transactions that the worker has, and the answers are taken. -/
def answerActions : List (Action echoCrypto.keys 1) :=
  [.verifyTx 0, .validate 0 0 .noError, .validate 0 0 .noError, .deliver 0, .deliver 0, .handleRsp 0,
    .handleRsp 0, .removePendingTx 0, .checkPendingBlockOk 0]

/-- One request. -/
def aloneActions : List (Action echoCrypto.keys 1) :=
  [.register .stateless, .register .stateful, .verifyBlock [sampleSigned] 0, .continueBlock 0,
    .continueBlock 0] ++ answerActions

/-- A second request before the first one is answered. -/
def overlapActions : List (Action echoCrypto.keys 1) :=
  [.register .stateless, .register .stateful, .verifyBlock [sampleSigned] 0, .continueBlock 0,
    .continueBlock 0, .verifyBlock [otherSigned] 0, .continueBlock 0, .continueBlock 0] ++
    (answerActions ++ answerActions)

theorem not_verifying {s : Server echoCrypto.keys 1} {h}
    (hdone : ((s.workers 0).rcvTXCh.isEmpty && (s.workers 0).stfTxCh.isEmpty &&
      ((s.workers 0).pendingTxList.get h).isNone) = true) : ¬ s.Verifying h := by
  simp only [Bool.and_eq_true, List.isEmpty_iff, isNone_iff_eq_none] at hdone
  obtain ⟨⟨hrcv, hstf⟩, hpending⟩ := hdone
  rintro ⟨w, hw⟩
  obtain rfl : w = 0 := Subsingleton.elim w 0
  rcases hw with ⟨t, ht, -⟩ | ⟨t, ht, -⟩ | hp
  · rw [hrcv] at ht
    cases ht
  · rw [hstf] at ht
    cases ht
  · rw [hpending] at hp
    cases hp

/-- The second request takes the record over; the answers for the first one find nobody. -/
theorem overtaken_request :
    Served (executionOf overlapActions) ∧
      ((executionOf overlapActions).state 3).asked[0]? = some [sampleSigned] ∧
      (∀ tx ∈ [sampleSigned], AnsweredAfter (executionOf overlapActions) 3 tx.hash) ∧
      ∀ t, ((executionOf overlapActions).state t).answer 0 = none := by
  have hfree : ((executionOf overlapActions).state 26).checking.isNone = true := by decide +kernel
  have hlate : ((executionOf overlapActions).state 6).answer 0 = none :=
    isNone_iff_eq_none.mp (by decide +kernel)
  refine ⟨executionOf_served (List.isEmpty_iff.mp (by decide +kernel)) (by decide +kernel), rfl, ?_, ?_⟩
  · intro tx htx
    cases mem_singleton.mp htx
    exact ⟨26, by omega, isNone_iff_eq_none.mp hfree, not_verifying (by decide +kernel)⟩
  · intro t
    have hmax := (executionOf overlapActions).overtaken (t := 6) (by decide +kernel) hlate
      (le_max_left 6 t)
    cases hanswer : ((executionOf overlapActions).state t).answer 0 with
    | none => rfl
    | some reply =>
      rw [(executionOf overlapActions).answer_later (le_max_right 6 t) hanswer] at hmax
      cases hmax

/-- One request alone is answered. -/
theorem request_answered_alone :
    ((executionOf aloneActions).state 3).asked[0]? = some [sampleSigned] ∧
      ∃ t, (((executionOf aloneActions).state t).answer 0).isSome := by
  have hidle : ((executionOf aloneActions).state 14).incoming = [] :=
    List.isEmpty_iff.mp (by decide +kernel)
  have hserved : Served (executionOf aloneActions) := executionOf_served hidle (by decide +kernel)
  have hfree : ((executionOf aloneActions).state 14).checking.isNone = true := by decide +kernel
  have hasked : ((executionOf aloneActions).state 3).asked[0]? = some [sampleSigned] := rfl
  have hanswered : ∀ tx ∈ [sampleSigned], AnsweredAfter (executionOf aloneActions) 3 tx.hash := by
    intro tx htx
    cases mem_singleton.mp htx
    exact ⟨14, by omega, isNone_iff_eq_none.mp hfree, not_verifying (by decide +kernel)⟩
  have hone : ((executionOf aloneActions).state 14).asked.length = 1 := by decide +kernel
  refine ⟨hasked, ((request_answered (executionOf aloneActions) hserved hasked).2 hanswered).mpr ?_⟩
  intro t hover
  have hlen := ((executionOf aloneActions).asked_mono (le_max_left t 14)).length_le
  rw [(executionOf_after hidle (le_max_right t 14)).2] at hlen
  change _ ≤ ((executionOf aloneActions).state 14).asked.length at hlen
  omega

end Poly.TxPool
