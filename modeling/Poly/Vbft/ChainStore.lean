import Poly.Vbft.Messages

/-! The chain store keeps the sealed blocks that the ledger has executed and not yet stored. A block
is submitted to the ledger when the next one is added; block synchronisation may move the ledger at
any time. -/
namespace Poly.Vbft

open Lib OrderedMap List

section ChainStore

variable {K : Keys} {R : Type}

structure PendingBlock (K : Keys) (R : Type) where
  block : VbftBlock K
  execResult : R
  hasSubmitted : Bool

structure ChainStore (K : Keys) (R : Type) where
  chainedBlockNum : UInt32
  pendingBlocks : OrderedMap UInt32 (PendingBlock K R)

/-- Of the ledger the chain store sees the height of the last block; it has every block up to it. -/
structure LedgerView where
  height : UInt32

/-- The ledger's `SubmitBlock`. It may fail for the next block only, which it then does not store. -/
def LedgerView.submitBlock (ledger : LedgerView) (blockHeight : UInt32) (failure : Option String) :
    Result LedgerView :=
  if blockHeight ≤ ledger.height then .ok ledger
  else if blockHeight ≠ ledger.height + 1 then
    .error (.error s!"block height {blockHeight} not equal next block height {ledger.height + 1}")
  else match failure with
    | some msg => .error (.error msg)
    | none => .ok ⟨ledger.height + 1⟩

/-- The ledger's `ExecuteBlock`; for a stored block it reads the roots back. -/
def LedgerView.executeBlock (ledger : LedgerView) (blockHeight : UInt32) (outcome : Result R) :
    Result R :=
  if blockHeight ≤ ledger.height then outcome
  else if blockHeight ≠ ledger.height + 1 then
    .error (.error s!"block height {blockHeight} not equal next block height {ledger.height + 1}")
  else outcome

def LedgerView.syncTo (ledger : LedgerView) (height : UInt32) : LedgerView :=
  if ledger.height < height then ⟨height⟩ else ledger

/-- The chain store and the ledger, with the `AddBlock` calls that have not taken the lock yet. -/
structure ChainState (K : Keys) (R : Type) where
  store : ChainStore K R
  ledger : LedgerView
  /-- Calls past the check of the block number. -/
  checked : List (VbftBlock K) := []
  /-- Calls that have also chosen the number under which to keep the block. -/
  numbered : List (VbftBlock K × UInt32) := []

def VbftBlock.getBlockNum (block : VbftBlock K) : UInt32 := block.block.header.height

/-- `OpenBlockStore`, where `block` is the ledger's last block and `execResult` holds its roots. -/
def openBlockStore (ledger : LedgerView) (block : VbftBlock K) (execResult : R) : ChainState K R where
  store := ⟨ledger.height, OrderedMap.empty.insert ledger.height ⟨block, execResult, false⟩⟩
  ledger := ledger

variable (store : ChainStore K R)

def ChainStore.reloadFromLedger (height : UInt32) : ChainStore K R :=
  if height > store.chainedBlockNum then
    ⟨height, store.pendingBlocks.filterKeys (height < ·)⟩
  else store

/-- What the store keeps once a pending block went to the ledger. -/
def ChainStore.markSubmitted (blkNum : UInt32) (submitBlk : PendingBlock K R) : ChainStore K R :=
  { store with
    pendingBlocks :=
      (store.pendingBlocks.erase (blkNum - 1)).insert blkNum { submitBlk with hasSubmitted := true } }

def ChainState.submitBlock (s : ChainState K R) (blkNum : UInt32) (failure : Option String) :
    Result Unit × ChainState K R :=
  if blkNum = 0 then (.ok (), s)
  else match s.store.pendingBlocks.get blkNum with
    | none => (.ok (), s)
    | some submitBlk =>
      if submitBlk.hasSubmitted then (.ok (), s)
      else match s.ledger.submitBlock submitBlk.block.getBlockNum failure with
        | .ok ledger =>
          (.ok (), { s with store := s.store.markSubmitted blkNum submitBlk, ledger := ledger })
        | .error e =>
          if blkNum > s.store.chainedBlockNum then
            (wrapError s!"ledger add submitBlk ({blkNum}, {s.store.chainedBlockNum}) failed: "
              (.error e), s)
          else (.ok (), { s with store := s.store.markSubmitted blkNum submitBlk })

/-- What the ledger answers while one `AddBlock` holds the lock. -/
structure AddAnswers (R : Type) where
  submitFailure : Option String
  /-- Where block synchronisation has moved the ledger by the time of the execution. -/
  syncedTo : UInt32
  outcome : Result R

/-- `AddBlock` under the lock. -/
def ChainState.addBlockLocked (s : ChainState K R) (block : VbftBlock K) (blkNum : UInt32)
    (answers : AddAnswers R) : Result Unit × ChainState K R :=
  match s.submitBlock (blkNum - 1) answers.submitFailure with
  | (.error e, s') => (wrapError "chainstore AddBlock submitBlock: " (.error e), s')
  | (.ok (), s') =>
    let s' := { s' with ledger := s'.ledger.syncTo answers.syncedTo }
    match s'.ledger.executeBlock block.getBlockNum answers.outcome with
    | .error e => (wrapError "chainstore AddBlock GetBlockExecResult: " (.error e), s')
    | .ok execResult =>
      (.ok (), { s' with
        store := ⟨blkNum, s'.store.pendingBlocks.insert blkNum ⟨block, execResult, false⟩⟩ })

/-- `AddBlock` when no other call of the store comes in between. -/
def ChainState.addBlock (s : ChainState K R) (block : Option (VbftBlock K))
    (answers : AddAnswers R) : Result Unit × ChainState K R :=
  match block with
  | none => (.error (.error "try add nil block"), s)
  | some block =>
    if block.getBlockNum ≤ s.store.chainedBlockNum then (.ok (), s)
    else s.addBlockLocked block (s.store.chainedBlockNum + 1) answers

inductive ChainAction (K : Keys) (R : Type) where
  /-- Block synchronisation moves the ledger. -/
  | sync (height : UInt32)
  /-- An `AddBlock` call passes the check of the block number. -/
  | check (block : VbftBlock K)
  /-- An `AddBlock` call reads the chained number again and chooses the next one. -/
  | number (block : VbftBlock K)
  /-- An `AddBlock` call takes the lock and runs to its end. -/
  | add (block : VbftBlock K) (blkNum : UInt32) (answers : AddAnswers R)
  | submit (blkNum : UInt32) (failure : Option String)
  /-- `ReloadFromLedger`, with the height that it read before it took the lock. -/
  | reload (height : UInt32)

inductive ChainStep : ChainState K R → ChainAction K R → ChainState K R → Prop
  | sync (s : ChainState K R) (height : UInt32) :
      ChainStep s (.sync height) { s with ledger := s.ledger.syncTo height }
  | check {s : ChainState K R} {block : VbftBlock K}
      (hnum : s.store.chainedBlockNum < block.getBlockNum) :
      ChainStep s (.check block) { s with checked := block :: s.checked }
  | number {s : ChainState K R} {block : VbftBlock K} {before after : List (VbftBlock K)}
      (hcall : s.checked = before ++ block :: after) :
      ChainStep s (.number block)
        { s with
          checked := before ++ after
          numbered := (block, s.store.chainedBlockNum + 1) :: s.numbered }
  | add {s : ChainState K R} {block : VbftBlock K} {blkNum : UInt32}
      {before after : List (VbftBlock K × UInt32)} (answers : AddAnswers R)
      (hcall : s.numbered = before ++ (block, blkNum) :: after) :
      ChainStep s (.add block blkNum answers)
        (({ s with numbered := before ++ after }).addBlockLocked block blkNum answers).2
  | submit (s : ChainState K R) (blkNum : UInt32) (failure : Option String) :
      ChainStep s (.submit blkNum failure) (s.submitBlock blkNum failure).2
  | reload {s : ChainState K R} {height : UInt32} (hread : height ≤ s.ledger.height) :
      ChainStep s (.reload height) { s with store := s.store.reloadFromLedger height }

/-- The states of a chain store opened on some ledger, over the actions that `allowed` admits. -/
inductive ChainRun (allowed : ChainState K R → ChainAction K R → Prop) : ChainState K R → Prop
  | start (ledger : LedgerView) {block : VbftBlock K} (execResult : R)
      (hblock : block.getBlockNum = ledger.height) :
      ChainRun allowed (openBlockStore ledger block execResult)
  | step {s t : ChainState K R} {a : ChainAction K R} (h : ChainRun allowed s) (ha : allowed s a)
      (hst : ChainStep s a t) : ChainRun allowed t

/-- No submission of the ledger fails, a block is added under its own number, and `submitBlock` is
not called past the chained block. -/
def Orderly (s : ChainState K R) : ChainAction K R → Prop
  | .number block => block.getBlockNum = s.store.chainedBlockNum + 1
  | .add _ _ answers => answers.submitFailure = none
  | .submit blkNum failure => blkNum ≤ s.store.chainedBlockNum ∧ failure = none
  | _ => True

/-- The block waits in the chain store to be submitted. -/
def ChainState.Waiting (s : ChainState K R) (n : UInt32) : Prop :=
  ∃ p, s.store.pendingBlocks.get n = some p ∧ p.hasSubmitted = false

/-- The ledger has block `n`, or lacks only this one and the chain store is about to submit it. -/
def ChainState.Covered (s : ChainState K R) (n : UInt32) : Prop :=
  n ≤ s.ledger.height ∨ n.toNat = s.ledger.height.toNat + 1 ∧ s.Waiting n

structure ChainInv (s : ChainState K R) : Prop where
  keyed : ∀ n p, s.store.pendingBlocks.get n = some p → p.block.getBlockNum = n
  chained : s.Covered s.store.chainedBlockNum
  numbered : ∀ x ∈ s.numbered, x.1.getBlockNum = x.2 ∧ s.Covered (x.2 - 1)

/-- The ledger did not fall back, and no block that it lacks left the chain store. -/
structure Extends (s t : ChainState K R) : Prop where
  height : s.ledger.height ≤ t.ledger.height
  waiting : ∀ n, t.ledger.height < n → s.Waiting n → t.Waiting n

variable {s t : ChainState K R} {n : UInt32}

theorem ChainState.Covered.of_le {m : UInt32} (hn : s.Covered n) (hm : m ≤ n) : s.Covered m := by
  rcases hn with hn | ⟨hn, hw⟩
  · exact .inl (hm.trans hn)
  · rcases hm.eq_or_lt with rfl | hlt
    · exact .inr ⟨hn, hw⟩
    · have hlt := UInt32.lt_iff_toNat_lt.mp hlt
      exact .inl (UInt32.le_iff_toNat_le.mpr (by omega))

theorem ChainState.Covered.mono (h : Extends s t) (hn : s.Covered n) : t.Covered n := by
  rcases hn with hn | ⟨hn, hw⟩
  · exact .inl (hn.trans h.height)
  · by_cases ht : n ≤ t.ledger.height
    · exact .inl ht
    · refine .inr ⟨?_, h.waiting n (not_le.mp ht) hw⟩
      have hst := UInt32.le_iff_toNat_le.mp h.height
      have hnt := UInt32.lt_iff_toNat_lt.mp (not_le.mp ht)
      omega

theorem LedgerView.le_syncTo (ledger : LedgerView) (height : UInt32) :
    ledger.height ≤ (ledger.syncTo height).height := by
  unfold LedgerView.syncTo
  split_ifs with h
  · exact h.le
  · exact le_rfl

theorem toNat_add_one {a b : UInt32} (h : a.toNat = b.toNat + 1) : a = b + 1 := by
  apply UInt32.toNat_inj.mp
  rw [h]
  have := a.toNat_lt
  simp
  omega

/-- A ledger that stores its next block when asked to has the block afterwards. -/
theorem LedgerView.submitBlock_next (ledger : LedgerView)
    (h : n ≤ ledger.height ∨ n.toNat = ledger.height.toNat + 1) :
    ∃ ledger', ledger.submitBlock n none = .ok ledger' ∧ n ≤ ledger'.height ∧
      ledger.height ≤ ledger'.height := by
  unfold LedgerView.submitBlock
  by_cases hn : n ≤ ledger.height
  · exact ⟨ledger, if_pos hn, hn, le_rfl⟩
  · have hnext := toNat_add_one (h.resolve_left hn)
    refine ⟨⟨ledger.height + 1⟩, ?_, hnext.le, ?_⟩
    · rw [if_neg hn, if_neg (not_not.mpr hnext)]
    · rw [← hnext]
      exact (not_le.mp hn).le

theorem get_markSubmitted (blkNum : UInt32) (p : PendingBlock K R) :
    (store.markSubmitted blkNum p).pendingBlocks.get n =
      if n = blkNum then some { p with hasSubmitted := true }
      else if n = blkNum - 1 then none else store.pendingBlocks.get n := by
  rw [ChainStore.markSubmitted, get_insert, get_erase]
  split_ifs <;> rfl

/-- What a submission does when the ledger does not fail and has all blocks before this one. -/
structure Submitted (s t : ChainState K R) (n : UInt32) : Prop where
  stored : n ≤ t.ledger.height
  keeps : Extends s t
  chained : t.store.chainedBlockNum = s.store.chainedBlockNum
  numbered : t.numbered = s.numbered
  pending : ∀ m p, t.store.pendingBlocks.get m = some p →
    ∃ q, s.store.pendingBlocks.get m = some q ∧ q.block = p.block

theorem Submitted.refl (h : n ≤ s.ledger.height) : Submitted s s n :=
  ⟨h, ⟨le_rfl, fun _ _ hw => hw⟩, rfl, rfl, fun _ p hp => ⟨p, hp, rfl⟩⟩

theorem submitBlock_of_not_waiting (h : n = 0 ∨ ¬ s.Waiting n) (failure : Option String) :
    s.submitBlock n failure = (.ok (), s) := by
  unfold ChainState.submitBlock
  by_cases hzero : n = 0
  · rw [if_pos hzero]
  rw [if_neg hzero]
  cases hget : s.store.pendingBlocks.get n with
  | none => rfl
  | some p =>
    have hsub : p.hasSubmitted = true := by
      by_contra hnot
      exact h.resolve_left hzero ⟨p, hget, Bool.not_eq_true _ ▸ hnot⟩
    simp [hsub]

variable {ledger : LedgerView}

theorem pred_le (hzero : n ≠ 0) : n - 1 ≤ n := by
  have hpos : n.toNat ≠ 0 := fun h => hzero (UInt32.toNat_inj.mp h)
  have hone : (1 : UInt32) ≤ n := UInt32.le_iff_toNat_le.mpr (Nat.one_le_iff_ne_zero.mpr hpos)
  rw [UInt32.le_iff_toNat_le, UInt32.toNat_sub_of_le _ _ hone]
  exact Nat.sub_le _ _

theorem markSubmitted_submitted {p} (hzero : n ≠ 0) (hget : s.store.pendingBlocks.get n = some p)
    (hhas : n ≤ ledger.height) (hle : s.ledger.height ≤ ledger.height) :
    Submitted s { s with store := s.store.markSubmitted n p, ledger := ledger } n := by
  refine ⟨hhas, ⟨hle, ?_⟩, rfl, rfl, ?_⟩
  · -- The entries that change are this block's and the one's before it, and the ledger has both.
    rintro m hm ⟨q, hq, hnot⟩
    have hlt : n < m := lt_of_le_of_lt hhas hm
    have hpred : m ≠ n - 1 := fun he => absurd (he ▸ pred_le hzero) (not_le.mpr hlt)
    refine ⟨q, ?_, hnot⟩
    rw [get_markSubmitted, if_neg hlt.ne', if_neg hpred, hq]
  · intro m q hq
    rw [get_markSubmitted] at hq
    split_ifs at hq with h₁ h₂
    · subst h₁
      cases hq
      exact ⟨p, hget, rfl⟩
    · exact ⟨q, hq, rfl⟩

theorem submitBlock_spec (hkeyed : ∀ p, s.store.pendingBlocks.get n = some p →
    p.block.getBlockNum = n) (hn : s.Covered n) :
    (s.submitBlock n none).1 = .ok () ∧ Submitted s (s.submitBlock n none).2 n := by
  by_cases hidle : n = 0 ∨ ¬ s.Waiting n
  · rw [submitBlock_of_not_waiting hidle]
    refine ⟨rfl, Submitted.refl ?_⟩
    rcases hidle with rfl | hnot
    · exact UInt32.zero_le
    · exact hn.resolve_right fun h => hnot h.2
  · rw [not_or, not_not] at hidle
    obtain ⟨hzero, p, hget, hsub⟩ := hidle
    obtain ⟨ledger', hok, hhas, hle⟩ := s.ledger.submitBlock_next (hn.imp id And.left)
    rw [← hkeyed p hget] at hok
    rw [ChainState.submitBlock, if_neg hzero]
    simp only [hget, hsub, hok, Bool.false_eq_true, if_false]
    exact ⟨trivial, markSubmitted_submitted hzero hget hhas hle⟩

theorem Submitted.inv {t} (hsub : Submitted s t n) (h : ChainInv s) : ChainInv t := by
  refine ⟨?_, ?_, ?_⟩
  · intro m p hp
    obtain ⟨q, hq, hblock⟩ := hsub.pending m p hp
    rw [← hblock]
    exact h.keyed m q hq
  · rw [hsub.chained]
    exact h.chained.mono hsub.keeps
  · intro x hx
    rw [hsub.numbered] at hx
    exact ⟨(h.numbered x hx).1, (h.numbered x hx).2.mono hsub.keeps⟩

variable {block : VbftBlock K}

theorem openBlockStore_inv (execResult : R) (hblock : block.getBlockNum = ledger.height) :
    ChainInv (openBlockStore ledger block execResult) := by
  refine ⟨?_, .inl le_rfl, nofun⟩
  intro m p hp
  rw [openBlockStore, get_insert] at hp
  split_ifs at hp with hm
  · cases hp
    rw [hblock, hm]
  · cases hp

theorem sync_extends (s : ChainState K R) (height : UInt32) :
    Extends s { s with ledger := s.ledger.syncTo height } :=
  ⟨s.ledger.le_syncTo height, fun _ _ hw => hw⟩

section

variable (h : ChainInv s)
include h

theorem sync_inv (height : UInt32) :
    ChainInv { s with ledger := s.ledger.syncTo height } :=
  ⟨h.keyed, h.chained.mono (sync_extends s height),
    fun x hx => ⟨(h.numbered x hx).1, (h.numbered x hx).2.mono (sync_extends s height)⟩⟩

theorem reload_inv {height : UInt32} (hread : height ≤ s.ledger.height) :
    ChainInv { s with store := s.store.reloadFromLedger height } := by
  unfold ChainStore.reloadFromLedger
  split_ifs with hgt
  · -- Only blocks that the ledger has leave the store.
    have hext : Extends s { s with
        store := ⟨height, s.store.pendingBlocks.filterKeys (height < ·)⟩ } := by
      refine ⟨le_rfl, ?_⟩
      rintro m hm ⟨p, hp, hnot⟩
      refine ⟨p, ?_, hnot⟩
      rw [get_filterKeys, if_pos (lt_of_le_of_lt hread hm), hp]
    refine ⟨?_, .inl hread, fun x hx => ⟨(h.numbered x hx).1, (h.numbered x hx).2.mono hext⟩⟩
    intro m p hp
    rw [get_filterKeys] at hp
    split_ifs at hp
    exact h.keyed m p hp
  · exact h

/-- Adding the next block to a store whose ledger has all blocks before it. -/
theorem insert_inv {blkNum : UInt32} (execResult : R)
    (hblock : block.getBlockNum = blkNum) (hprev : blkNum - 1 ≤ s.ledger.height) :
    ChainInv { s with
      store := ⟨blkNum, s.store.pendingBlocks.insert blkNum ⟨block, execResult, false⟩⟩ } := by
  have hext : Extends s { s with
      store := ⟨blkNum, s.store.pendingBlocks.insert blkNum ⟨block, execResult, false⟩⟩ } := by
    refine ⟨le_rfl, ?_⟩
    rintro m - ⟨p, hp, hnot⟩
    by_cases hm : m = blkNum
    · subst hm
      exact ⟨_, get_insert_self _ _ _, rfl⟩
    · refine ⟨p, ?_, hnot⟩
      rw [get_insert_of_ne _ _ hm, hp]
  refine ⟨?_, ?_, fun x hx => ⟨(h.numbered x hx).1, (h.numbered x hx).2.mono hext⟩⟩
  · exact forall_get_insert h.keyed hblock
  · by_cases hle : blkNum ≤ s.ledger.height
    · exact .inl hle
    · refine .inr ⟨?_, _, get_insert_self _ _ _, rfl⟩
      have hlt := UInt32.lt_iff_toNat_lt.mp (not_le.mp hle)
      have hone : (1 : UInt32) ≤ blkNum :=
        UInt32.le_iff_toNat_le.mpr (by rw [UInt32.toNat_one]; omega)
      have hprev := UInt32.le_iff_toNat_le.mp hprev
      rw [UInt32.toNat_sub_of_le _ _ hone, UInt32.toNat_one] at hprev
      change blkNum.toNat = s.ledger.height.toNat + 1
      omega

theorem addBlockLocked_inv {blkNum answers} (hblock : block.getBlockNum = blkNum)
    (hcov : s.Covered (blkNum - 1)) (hanswers : answers.submitFailure = none) :
    ChainInv (s.addBlockLocked block blkNum answers).2 := by
  obtain ⟨hok, hsub⟩ := submitBlock_spec (h.keyed (blkNum - 1)) hcov
  have hinv := sync_inv (hsub.inv h) answers.syncedTo
  have hprev := hsub.stored.trans (LedgerView.le_syncTo _ answers.syncedTo)
  unfold ChainState.addBlockLocked
  rw [hanswers]
  generalize s.submitBlock (blkNum - 1) none = r at *
  obtain ⟨res, s'⟩ := r
  cases hok
  dsimp only at hinv hprev ⊢
  cases (s'.ledger.syncTo answers.syncedTo).executeBlock block.getBlockNum answers.outcome with
  | error e => exact hinv
  | ok execResult => exact insert_inv hinv execResult hblock hprev

theorem ChainInv.step {a} (ha : Orderly s a) (hst : ChainStep s a t) : ChainInv t := by
  cases hst with
  | sync height => exact sync_inv h height
  | check hnum => exact ⟨h.keyed, h.chained, h.numbered⟩
  | number hcall =>
    refine ⟨h.keyed, h.chained, ?_⟩
    intro x hx
    rcases mem_cons.mp hx with rfl | hx
    · refine ⟨ha, ?_⟩
      rw [UInt32.add_sub_cancel]
      exact h.chained
    · exact h.numbered x hx
  | add answers hcall =>
    rename_i block blkNum before after
    have hmem : (block, blkNum) ∈ s.numbered := by
      rw [hcall]
      exact mem_append_right _ mem_cons_self
    have hrest : ChainInv { s with numbered := before ++ after } := by
      refine ⟨h.keyed, h.chained, ?_⟩
      intro x hx
      refine h.numbered x ?_
      rw [hcall]
      rcases mem_append.mp hx with hx | hx
      · exact mem_append_left _ hx
      · exact mem_append_right _ (mem_cons_of_mem _ hx)
    exact addBlockLocked_inv hrest (h.numbered _ hmem).1 (h.numbered _ hmem).2 ha
  | submit blkNum failure =>
    obtain ⟨hle, rfl⟩ := ha
    exact (submitBlock_spec (h.keyed blkNum) (h.chained.of_le hle)).2.inv h
  | reload hread => exact reload_inv h hread

end

theorem ChainRun.inv (h : ChainRun Orderly s) : ChainInv s := by
  induction h with
  | start ledger execResult hblock => exact openBlockStore_inv execResult hblock
  | step _ ha hst ih => exact ih.step ha hst

/-- In an orderly run every pending block stands under its own number, and a block up to the chained
one, or before one that is being added, is in the ledger after its submission. -/
theorem chainStore_follows_ledger (h : ChainRun Orderly s) :
    (∀ n p, s.store.pendingBlocks.get n = some p → p.block.getBlockNum = n) ∧
    ∀ n, (n ≤ s.store.chainedBlockNum ∨ ∃ block, (block, n + 1) ∈ s.numbered) →
      (s.submitBlock n none).1 = .ok () ∧ n ≤ (s.submitBlock n none).2.ledger.height := by
  refine ⟨h.inv.keyed, ?_⟩
  intro n hn
  have hcov : s.Covered n := by
    rcases hn with hle | ⟨block, hmem⟩
    · exact h.inv.chained.of_le hle
    · have hcov := (h.inv.numbered _ hmem).2
      rwa [UInt32.add_sub_cancel] at hcov
  obtain ⟨hok, hsub⟩ := submitBlock_spec (h.inv.keyed n) hcov
  exact ⟨hok, hsub.stored⟩

/-- `AddBlock` without interruption is one call that goes through all its phases. -/
theorem ChainRun.addBlock {allowed : ChainState K R → ChainAction K R → Prop}
    (h : ChainRun allowed s) (block : VbftBlock K) (answers : AddAnswers R)
    (hcheck : allowed s (.check block))
    (hnumber : allowed { s with checked := block :: s.checked } (.number block))
    (hadd : allowed { s with numbered := (block, s.store.chainedBlockNum + 1) :: s.numbered }
      (.add block (s.store.chainedBlockNum + 1) answers)) :
    ChainRun allowed (s.addBlock (some block) answers).2 := by
  by_cases hnum : block.getBlockNum ≤ s.store.chainedBlockNum
  · simpa only [ChainState.addBlock, if_pos hnum] using h
  · have h₁ := h.step hcheck (.check (not_le.mp hnum))
    have h₂ := h₁.step hnumber (.number (s := { s with checked := block :: s.checked })
      (nil_append _).symm)
    have h₃ := h₂.step hadd (.add answers (nil_append _).symm)
    simpa only [ChainState.addBlock, if_neg hnum, nil_append] using h₃

end ChainStore

def sampleVbftBlock (height : UInt32) : VbftBlock openKeys where
  block := ⟨⟨⟨0, 0, Uint256.empty, Uint256.empty, Uint256.empty, Uint256.empty, 0, height, 0, [],
    Address.empty⟩, [], []⟩, []⟩
  emptyBlock := none
  proposer := 1

/-- A store opened on the genesis block. -/
def sampleOpened : ChainState openKeys Unit := openBlockStore ⟨0⟩ (sampleVbftBlock 0) ()

def sampleAnswers : AddAnswers Unit := ⟨none, 0, .ok ()⟩

/-- A failed submission of a chained block is not reported. A block that is added while the ledger
is ahead stands under the number after the chained one. -/
theorem chainStore_outruns_ledger :
    (∃ s : ChainState openKeys Unit, ChainRun (fun _ _ => True) s ∧
      (s.submitBlock 1 (some "no space left on device")).1 = .ok () ∧
      (s.submitBlock 1 (some "no space left on device")).2.ledger.height = 0) ∧
    (∃ s : ChainState openKeys Unit, ChainRun (fun _ _ => True) s ∧
      ∃ p, s.store.pendingBlocks.get 1 = some p ∧ p.block.getBlockNum = 6) := by
  have hopen : ChainRun (fun _ _ => True) sampleOpened := .start _ _ rfl
  constructor
  · exact ⟨_, hopen.addBlock (sampleVbftBlock 1) sampleAnswers trivial trivial trivial,
      rfl, rfl⟩
  · have hahead := hopen.step trivial (.sync sampleOpened 5)
    exact ⟨_, hahead.addBlock (sampleVbftBlock 6) sampleAnswers trivial trivial trivial,
      _, rfl, rfl⟩

/-- The store after block 1 was added in order. -/
theorem chainStore_follows_ledger_one :
    ((sampleOpened.addBlock (some (sampleVbftBlock 1)) sampleAnswers).2.submitBlock 1 none).1 =
        .ok () ∧
      1 ≤ ((sampleOpened.addBlock (some (sampleVbftBlock 1)) sampleAnswers).2.submitBlock 1
        none).2.ledger.height := by
  have hopen : ChainRun Orderly sampleOpened := .start _ _ rfl
  have hrun := hopen.addBlock (sampleVbftBlock 1) sampleAnswers trivial rfl rfl
  exact (chainStore_follows_ledger hrun).2 1 (.inl (by decide +kernel))

end Poly.Vbft
