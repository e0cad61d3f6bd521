import Poly.TxPool.Invariant

/-! The requests of the consensus to verify a block, and the record of the pending block that they
share. -/
namespace Poly.TxPool

open Lib List OrderedMap Option

variable {K : Keys} {n : ℕ} {sha256 : Bytes → Uint256} {ripemd160 : Bytes → Address}

/-- What the server knows of the requests. -/
structure BlockView (K : Keys) where
  pendingBlock : PendingBlock K
  checking : Option (CheckBlkResult K)
  asked : List (List (Transaction K))
  replies : List (ℕ × List (VerifyTxResult K))

def Server.blockView (s : Server K n) : BlockView K :=
  ⟨s.pendingBlock, s.checking, s.asked, s.replies⟩

namespace BlockView

variable (b : BlockView K)

/-- The first answer to the request with this number. -/
def answer (id : ℕ) : Option (List (VerifyTxResult K)) :=
  (b.replies.find? fun r => r.1 = id).map Prod.snd

/-- The request that the pending block belongs to. -/
def Current (id : ℕ) (txs : List (Transaction K)) : Prop :=
  b.pendingBlock.sender = some id ∧ b.asked[id]? = some txs

/-- A hash that was answered, waits for an answer or is still to be looked at. -/
def Held (h : Uint256) : Prop :=
  (b.pendingBlock.unProcessedTxs.get h).isSome ∨ (b.pendingBlock.processedTxs.get h).isSome ∨
    ∃ res ∈ b.checking, Mentions res.unverifiedTxs h ∨ Mentions res.oldTxs h ∨
      ∃ r ∈ res.verifiedTxs, r.tx.hash = h

/-- The pending block is about these transactions only. -/
structure Listed (txs : List (Transaction K)) : Prop where
  unProcessed : ∀ h tx, b.pendingBlock.unProcessedTxs.get h = some tx → tx.hash = h ∧ Mentions txs h
  processed : ∀ h r, b.pendingBlock.processedTxs.get h = some r → r.tx.hash = h ∧ Mentions txs h
  unverified : ∀ res ∈ b.checking, ∀ t ∈ res.unverifiedTxs, Mentions txs t.hash
  old : ∀ res ∈ b.checking, ∀ t ∈ res.oldTxs, Mentions txs t.hash
  verified : ∀ res ∈ b.checking, ∀ r ∈ res.verifiedTxs, Mentions txs r.tx.hash

/-- The requests and their answers. -/
structure Books : Prop where
  sender : ∀ id, b.pendingBlock.sender = some id ↔ b.asked.length = id + 1
  nonempty : [] ∉ b.asked
  replies : ∀ r ∈ b.replies, r.1 < b.asked.length
  listed : ∀ id txs, b.Current id txs → b.Listed txs
  only : ∀ id txs reply, b.asked[id]? = some txs → b.answer id = some reply →
    ∀ r ∈ reply, Mentions txs r.tx.hash
  all : ∀ id txs reply, b.asked[id]? = some txs → b.answer id = some reply →
    (∀ r ∈ reply, r.errCode = .noError) → ∀ tx ∈ txs, ∃ r ∈ reply, r.tx.hash = tx.hash

/-- Until it is answered no transaction of a request gets lost. -/
structure BooksCovered : Prop extends b.Books where
  covered : ∀ id txs, b.Current id txs → b.answer id = none → ∀ tx ∈ txs, b.Held tx.hash

/-- Between the critical sections a request with nothing left to wait for is answered. -/
structure BooksClosed : Prop extends b.BooksCovered where
  closed : ∀ id txs, b.Current id txs → b.checking = none →
    b.pendingBlock.unProcessedTxs.size = 0 → (b.answer id).isSome

def setProcessed (hash : Uint256) (entry : VerifyTxResult K) : BlockView K :=
  { b with pendingBlock := { b.pendingBlock with
      processedTxs := b.pendingBlock.processedTxs.insert hash entry } }

def setUnProcessed (tx : Transaction K) : BlockView K :=
  { b with pendingBlock := { b.pendingBlock with
      unProcessedTxs := b.pendingBlock.unProcessedTxs.insert tx.hash tx } }

def eraseUnProcessed (hash : Uint256) : BlockView K :=
  { b with pendingBlock := { b.pendingBlock with
      unProcessedTxs := b.pendingBlock.unProcessedTxs.erase hash } }

def send : BlockView K :=
  { b with
    replies := match b.pendingBlock.sender with
      | some id => b.replies ++ [(id, b.pendingBlock.processedTxs.entries.map Prod.snd)]
      | none => b.replies
    pendingBlock := { b.pendingBlock with processedTxs := OrderedMap.empty } }

/-- The next request takes the record over. -/
def ask (txs : List (Transaction K)) (height : UInt32) (checking : Option (CheckBlkResult K)) :
    BlockView K :=
  { b with
    pendingBlock := ⟨some b.asked.length, height, OrderedMap.empty, OrderedMap.empty⟩
    checking := checking
    asked := b.asked ++ [txs] }

end BlockView

section Answers

variable {b : BlockView K}

namespace BlockView

variable {checking : Option (CheckBlkResult K)}

theorem Books.update (h : b.Books) {pendingBlock}
    (hsender : pendingBlock.sender = b.pendingBlock.sender)
    (hlisted : ∀ id txs, b.Current id txs → b.Listed txs →
      Listed ⟨pendingBlock, checking, b.asked, b.replies⟩ txs) :
    Books ⟨pendingBlock, checking, b.asked, b.replies⟩ := by
  refine { h with sender := ?_, listed := ?_ }
  · intro id
    rw [← h.sender id]
    exact iff_of_eq (congrArg (· = some id) hsender)
  · rintro id txs ⟨hs, hasked⟩
    have hc : b.Current id txs := ⟨hsender.symm.trans hs, hasked⟩
    exact hlisted id txs hc (h.listed id txs hc)

theorem BooksCovered.update (h : b.BooksCovered) {pendingBlock}
    (hsender : pendingBlock.sender = b.pendingBlock.sender)
    (hlisted : ∀ id txs, b.Current id txs → b.Listed txs →
      Listed ⟨pendingBlock, checking, b.asked, b.replies⟩ txs)
    (hheld : ∀ k, b.Held k → Held ⟨pendingBlock, checking, b.asked, b.replies⟩ k) :
    BooksCovered ⟨pendingBlock, checking, b.asked, b.replies⟩ := by
  refine { h.toBooks.update hsender hlisted with covered := ?_ }
  rintro id txs ⟨hs, hasked⟩ hnone tx htx
  exact hheld tx.hash (h.covered id txs ⟨hsender.symm.trans hs, hasked⟩ hnone tx htx)

variable {txs : List (Transaction K)} {r : VerifyTxResult K}

theorem Listed.setProcessed (h : b.Listed txs) {hash} (hr : r.tx.hash = hash)
    (hm : Mentions txs hash) : (b.setProcessed hash r).Listed txs := by
  exact { h with processed := forall_get_insert h.processed ⟨hr, hm⟩ }

theorem Held.setProcessed {k} (h : b.Held k) (hash : Uint256) (r : VerifyTxResult K) :
    (b.setProcessed hash r).Held k := by
  rcases h with h | h | h
  · exact .inl h
  · exact .inr (.inl (isSome_get_insert (.inl h) r))
  · exact .inr (.inr h)

theorem BooksCovered.setProcessed (h : b.BooksCovered) {hash}
    (hr : ∀ id txs, b.Current id txs → r.tx.hash = hash ∧ Mentions txs hash) :
    (b.setProcessed hash r).BooksCovered := by
  refine h.update rfl ?_ ?_
  · intro id txs hc hlisted
    exact hlisted.setProcessed (hr id txs hc).1 (hr id txs hc).2
  · intro k hheld
    exact hheld.setProcessed hash r

theorem Listed.setUnProcessed (h : b.Listed txs) {t} (hm : Mentions txs t.hash) :
    (b.setUnProcessed t).Listed txs := by
  exact { h with unProcessed := forall_get_insert h.unProcessed ⟨rfl, hm⟩ }

theorem BooksCovered.eraseUnProcessed (h : b.BooksCovered) {hash}
    (hdone : (b.pendingBlock.processedTxs.get hash).isSome) :
    (b.eraseUnProcessed hash).BooksCovered := by
  refine h.update rfl ?_ ?_
  · intro id txs _ hlisted
    exact { hlisted with unProcessed := forall_get_erase hlisted.unProcessed hash }
  · intro k hheld
    rcases hheld with hc | hc
    · by_cases heq : k = hash
      · exact .inr (.inl (heq ▸ hdone))
      · exact .inl (isSome_get_erase.mpr ⟨heq, hc⟩)
    · exact .inr hc

variable {id : ℕ}

theorem answer_append {id : ℕ} {x : ℕ × List (VerifyTxResult K)}
    {replies : List (ℕ × List (VerifyTxResult K))} :
    ((replies ++ [x]).find? fun r => r.1 = id) =
      (replies.find? fun r => r.1 = id).or (if x.1 = id then some x else none) := by
  rw [find?_append]
  by_cases hx : x.1 = id <;> simp [hx]

theorem answer_send (hsender : b.pendingBlock.sender = some id) :
    b.send.answer id =
      (b.answer id).or (some (b.pendingBlock.processedTxs.entries.map Prod.snd)) := by
  simp only [BlockView.answer, BlockView.send, hsender, answer_append, if_true, map_or,
    map_some]

theorem send_of_no_sender (hsender : b.pendingBlock.sender = none) : b.send.replies = b.replies := by
  simp only [BlockView.send, hsender]

theorem mem_processed {h} (hget : b.pendingBlock.processedTxs.get h = some r) :
    r ∈ b.pendingBlock.processedTxs.entries.map Prod.snd :=
  mem_map.mpr ⟨(h, r), get_eq_some.mp hget, rfl⟩

/-- An answer that is sent lists the processed transactions: all of them are of the request, and
where none failed nothing of the request is missing. -/
theorem Books.answer_sent (h : b.Books) (hc : b.Current id txs)
    (hready : b.answer id = none →
      (∃ k r, b.pendingBlock.processedTxs.get k = some r ∧ r.errCode ≠ .noError) ∨
        ∀ tx ∈ txs, (b.pendingBlock.processedTxs.get tx.hash).isSome) {reply}
    (hreply : b.send.answer id = some reply) :
    (∀ r ∈ reply, Mentions txs r.tx.hash) ∧
      ((∀ r ∈ reply, r.errCode = .noError) → ∀ tx ∈ txs, ∃ r ∈ reply, r.tx.hash = tx.hash) := by
  have hlisted := h.listed id txs hc
  rw [answer_send hc.1] at hreply
  cases hold : b.answer id with
  | some reply' =>
    rw [hold] at hreply
    obtain rfl := Option.some.inj hreply
    exact ⟨h.only id txs reply' hc.2 hold, h.all id txs reply' hc.2 hold⟩
  | none =>
    rw [hold] at hreply
    cases hreply
    constructor
    · intro r hr
      obtain ⟨⟨k, r⟩, hmem, rfl⟩ := mem_map.mp hr
      obtain ⟨hhash, hm⟩ := hlisted.processed k r (get_eq_some.mpr hmem)
      exact hhash ▸ hm
    · intro hgood tx htx
      rcases hready hold with ⟨k, r, hget, herr⟩ | hall
      · exact absurd (hgood r (mem_processed hget)) herr
      · obtain ⟨r, hget⟩ := isSome_iff_exists.mp (hall tx htx)
        exact ⟨r, mem_processed hget, (hlisted.processed _ r hget).1⟩

theorem Books.send (h : b.Books) (hready : ∀ id txs, b.Current id txs → b.answer id = none →
      (∃ k r, b.pendingBlock.processedTxs.get k = some r ∧ r.errCode ≠ .noError) ∨
        ∀ tx ∈ txs, (b.pendingBlock.processedTxs.get tx.hash).isSome) :
    b.send.BooksClosed := by
  -- the request is answered now, whatever was true of it before
  have hanswered : ∀ id, b.pendingBlock.sender = some id → (b.send.answer id).isSome := by
    intro id hsender
    rw [answer_send hsender, or_some]
    rfl
  have hsame : ∀ id, b.pendingBlock.sender ≠ some id → b.send.answer id = b.answer id := by
    intro id hne
    cases hsender : b.pendingBlock.sender with
    | none => simp only [BlockView.answer, send_of_no_sender hsender]
    | some id' =>
      have hother : id' ≠ id := fun heq => hne (heq ▸ hsender)
      simp [BlockView.answer, BlockView.send, hsender, hother]
  refine { sender := h.sender, nonempty := h.nonempty, replies := ?_, listed := ?_, only := ?_,
           all := ?_, covered := ?_, closed := ?_ }
  · intro r hr
    cases hsender : b.pendingBlock.sender with
    | none =>
      rw [send_of_no_sender hsender] at hr
      exact h.replies r hr
    | some id =>
      simp only [BlockView.send, hsender] at hr
      rcases mem_append.mp hr with hr | hr
      · exact h.replies r hr
      · cases mem_singleton.mp hr
        have hlen := (h.sender id).mp hsender
        exact Nat.lt_of_succ_le hlen.ge
  · intro id txs hc
    have hlisted := h.listed id txs hc
    refine { hlisted with processed := ?_ }
    intro k r hget
    cases hget
  · intro id txs reply hasked hreply
    by_cases hsender : b.pendingBlock.sender = some id
    · exact (h.answer_sent ⟨hsender, hasked⟩ (hready id txs ⟨hsender, hasked⟩) hreply).1
    · rw [hsame id hsender] at hreply
      exact h.only id txs reply hasked hreply
  · intro id txs reply hasked hreply
    by_cases hsender : b.pendingBlock.sender = some id
    · exact (h.answer_sent ⟨hsender, hasked⟩ (hready id txs ⟨hsender, hasked⟩) hreply).2
    · rw [hsame id hsender] at hreply
      exact h.all id txs reply hasked hreply
  · intro id txs hc hnone
    have hsome := hanswered id hc.1
    rw [hnone] at hsome
    cases hsome
  · intro id txs hc _ _
    exact hanswered id hc.1

/-- With nothing left to wait for, everything of the request was processed. -/
theorem BooksCovered.send_of_empty (h : b.BooksCovered) (hchecking : b.checking = none)
    (hsize : b.pendingBlock.unProcessedTxs.size = 0) : b.send.BooksClosed := by
  apply h.send
  intro id txs hc hnone
  right
  intro tx htx
  rcases h.covered id txs hc hnone tx htx with hwait | hdone | ⟨res, hres, -⟩
  · rw [size_eq_zero.mp hsize] at hwait
    cases hwait
  · exact hdone
  · rw [hchecking] at hres
    cases hres

theorem Books.answer_fresh (h : b.Books) (hid : b.asked.length ≤ id) : b.answer id = none := by
  cases hfind : b.replies.find? fun r => r.1 = id with
  | none => simp only [BlockView.answer, hfind, map_none]
  | some r =>
    have heq := find?_some hfind
    have hlt := h.replies r (mem_of_find?_eq_some hfind)
    simp only [decide_eq_true_eq] at heq
    omega

theorem current_ask {txs' height} (h : (b.ask txs height checking).Current id txs') :
    id = b.asked.length ∧ txs' = txs := by
  obtain ⟨hsender, hasked⟩ := h
  cases hsender
  simp only [BlockView.ask, getElem?_append_right (Nat.le_refl _), Nat.sub_self] at hasked
  exact ⟨rfl, (Option.some.inj hasked).symm⟩

theorem Books.ask (h : b.Books) (hne : txs ≠ []) (height : UInt32)
    (hlisted : (b.ask txs height checking).Listed txs) : (b.ask txs height checking).Books := by
  have hlen : (b.asked ++ [txs]).length = b.asked.length + 1 := by
    rw [length_append, length_singleton]
  have hold : ∀ id txs' reply, (b.asked ++ [txs])[id]? = some txs' → b.answer id = some reply →
      b.asked[id]? = some txs' := by
    intro id txs' reply hasked hreply
    have hlt : id < b.asked.length := by
      by_contra hge
      rw [h.answer_fresh (Nat.le_of_not_lt hge)] at hreply
      cases hreply
    rw [getElem?_append_left hlt] at hasked
    exact hasked
  refine { sender := ?_, nonempty := ?_, replies := ?_, listed := ?_, only := ?_, all := ?_ }
  · intro id
    change some b.asked.length = some id ↔ (b.asked ++ [txs]).length = id + 1
    rw [Option.some.injEq]
    omega
  · intro hmem
    rcases mem_append.mp hmem with hmem | hmem
    · exact h.nonempty hmem
    · exact hne (mem_singleton.mp hmem).symm
  · intro r hr
    have hlt := h.replies r hr
    change r.1 < (b.asked ++ [txs]).length
    omega
  · intro id txs' hc
    obtain ⟨-, rfl⟩ := current_ask hc
    exact hlisted
  · intro id txs' reply hasked hreply
    exact h.only id txs' reply (hold id txs' reply hasked hreply) hreply
  · intro id txs' reply hasked hreply
    exact h.all id txs' reply (hold id txs' reply hasked hreply) hreply

end BlockView

end Answers

variable {s t : Server K n} {a : Action K n}

open BlockView

/-- Work on transactions: the requests and what waits for a slot stay as they are, and no pending
transaction is removed. -/
structure Works (s t : Server K n) : Prop where
  blockView : t.blockView = s.blockView
  incoming : t.incoming = s.incoming
  pending : ∀ h, (s.allPendingTxs.get h).isSome → (t.allPendingTxs.get h).isSome

theorem Works.refl (s : Server K n) : Works s s := ⟨rfl, rfl, fun _ hp => hp⟩

variable (tx : Transaction K)

variable (w : Fin n)

theorem works_handOver (f : Worker K n → Worker K n) : Works s (s.handOver tx w f) := by
  unfold Server.handOver
  split
  · exact Works.refl s
  · exact ⟨rfl, rfl, fun _ hp => isSome_get_insert (.inl hp) tx⟩

theorem works_assignTxToWorker : Works s (s.assignTxToWorker tx w) := works_handOver tx w _

theorem works_reVerifyStateful : Works s (s.reVerifyStateful tx w) := works_handOver tx w _

theorem works_sendReq2StatefulV (req : CheckTx K n) : Works s (s.sendReq2StatefulV req) := by
  unfold Server.sendReq2StatefulV
  split
  · exact ⟨rfl, rfl, fun _ hp => hp⟩
  · exact Works.refl s

theorem works_verifyTx (tx : Transaction K) : Works s (s.verifyTx w tx) := by
  unfold Server.verifyTx
  split
  · exact ⟨rfl, rfl, fun _ hp => hp⟩
  · split
    · exact Works.refl s
    · exact ⟨rfl, rfl, fun _ hp => hp⟩

theorem works_handleRsp (rsp : CheckResponse n) : Works s (s.handleRsp w rsp) := by
  unfold Server.handleRsp
  split
  · exact Works.refl s
  · split_ifs
    · exact ⟨rfl, rfl, fun _ hp => hp⟩
    · exact works_sendReq2StatefulV _
    · dsimp only
      split
      · exact ⟨rfl, rfl, fun _ hp => hp⟩
      · exact ⟨rfl, rfl, fun _ hp => hp⟩

theorem works_handleTimeoutEvent (hash : Uint256) :
    Works s (s.handleTimeoutEvent w hash) := by
  unfold Server.handleTimeoutEvent
  split
  · exact Works.refl s
  · split
    · exact Works.refl s
    · exact ⟨rfl, rfl, fun _ hp => hp⟩

theorem works_cleanTransactionList (txs : List (Transaction K)) :
    Works s (s.cleanTransactionList txs) := by
  unfold Server.cleanTransactionList
  split <;> exact ⟨rfl, rfl, fun _ hp => hp⟩

theorem works_validate (req : VerifyType × CheckTx K n) (height : UInt32) (errCode : ErrCode) :
    Works s (s.validate sha256 ripemd160 req height errCode) := by
  obtain ⟨type, req⟩ := req
  cases type with
  | stateless | stateful => exact ⟨rfl, rfl, fun _ hp => hp⟩

theorem removePendingTx_frame (hash : Uint256) (err : ErrCode) :
    (s.removePendingTx hash err).blockView = s.blockView ∧
      (s.removePendingTx hash err).incoming = s.incoming := by
  unfold Server.removePendingTx
  split <;> exact ⟨rfl, rfl⟩

theorem findDuplicate_mem {seen txs} {tx : Transaction K}
    (h : Server.findDuplicate seen txs = some tx) : tx ∈ txs := by
  induction txs generalizing seen with
  | nil => cases h
  | cons t txs ih =>
    unfold Server.findDuplicate at h
    split at h
    · cases h
      exact mem_cons_self
    · exact mem_cons_of_mem t (ih h)

/-- A block with a transaction twice is answered at once; for any other the work is laid out. -/
theorem closed_verifyBlock (h : s.blockView.BooksClosed) {V : Uint256 → Prop}
    (hpool : PoolInv V s.txPool) (hfree : s.checking = none) {txs : List (Transaction K)}
    (hne : txs ≠ []) (height : UInt32) : (s.verifyBlock txs height).blockView.BooksClosed := by
  unfold Server.verifyBlock
  dsimp only
  split
  next tx hdup =>
    have hlisted : (s.blockView.ask txs height s.checking).Listed txs := by
      rw [hfree]
      exact ⟨nofun, nofun, nofun, nofun, nofun⟩
    have hask := h.toBooks.ask hne height hlisted
    have hset : ((s.blockView.ask txs height s.checking).setProcessed tx.hash
        ⟨height, tx, .doubleSpend⟩).Books := by
      refine hask.update rfl ?_
      intro id txs' hc hl
      obtain ⟨-, rfl⟩ := current_ask hc
      exact hl.setProcessed rfl ⟨tx, findDuplicate_mem hdup, rfl⟩
    apply hset.send
    intro id txs' _ _
    exact .inl ⟨tx.hash, ⟨height, tx, .doubleSpend⟩, get_insert_self _ _ _, nofun⟩
  · have hlooked := hpool.getUnverifiedTxs txs height
    generalize s.txPool.getUnverifiedTxs txs height = found at hlooked ⊢
    have hlisted : (s.blockView.ask txs height (some found.1)).Listed txs := by
      refine ⟨nofun, nofun, ?_, ?_, ?_⟩
      · rintro res ⟨⟩
        exact hlooked.unverified
      · rintro res ⟨⟩ t ht
        exact (hlooked.old t ht).1
      · rintro res ⟨⟩ r hr
        exact (hlooked.verified r hr).1
    change (s.blockView.ask txs height (some found.1)).BooksClosed
    refine { h.toBooks.ask hne height hlisted with covered := ?_, closed := nofun }
    intro id txs' hc _ tx htx
    obtain ⟨-, rfl⟩ := current_ask hc
    exact .inr (.inr ⟨found.1, rfl, hlooked.all tx htx⟩)

theorem foldl_setProcessed_view (l : List (VerifyTxResult K)) (s : Server K n) :
    ∃ processedTxs, (l.foldl (fun s t => s.setProcessed t.tx.hash t) s).blockView =
        { s.blockView with pendingBlock := { s.pendingBlock with processedTxs := processedTxs } } ∧
      (∀ k, (s.pendingBlock.processedTxs.get k).isSome → (processedTxs.get k).isSome) ∧
      (∀ r ∈ l, (processedTxs.get r.tx.hash).isSome) ∧
      ∀ k r, processedTxs.get k = some r →
        s.pendingBlock.processedTxs.get k = some r ∨ r ∈ l ∧ r.tx.hash = k := by
  induction l generalizing s with
  | nil => exact ⟨_, rfl, fun _ hk => hk, nofun, fun _ _ hr => .inl hr⟩
  | cons r l ih =>
    obtain ⟨processedTxs, hview, hkeep, hnew, hfrom⟩ := ih (s.setProcessed r.tx.hash r)
    have hstart : ∀ k, (s.pendingBlock.processedTxs.get k).isSome ∨ r.tx.hash = k →
        ((s.setProcessed r.tx.hash r).pendingBlock.processedTxs.get k).isSome :=
      fun k hk => isSome_get_insert hk r
    refine ⟨processedTxs, hview, ?_, ?_, ?_⟩
    · intro k hk
      exact hkeep k (hstart k (.inl hk))
    · intro r' hr'
      rcases mem_cons.mp hr' with rfl | hr'
      · exact hkeep _ (hstart _ (.inr rfl))
      · exact hnew r' hr'
    · intro k r' hr'
      rcases hfrom k r' hr' with hold | ⟨hmem, heq⟩
      · simp only [Server.setProcessed, get_insert] at hold
        split at hold
        next heq =>
          cases hold
          exact .inr ⟨mem_cons_self, heq.symm⟩
        · exact .inl hold
      · exact .inr ⟨mem_cons_of_mem r hmem, heq⟩

theorem setUnProcessed_view {b} (hview : s.blockView = b) (tx : Transaction K)
    (checking : Option (CheckBlkResult K)) :
    ({ s.setUnProcessed tx with checking := checking } : Server K n).blockView =
      ⟨(b.setUnProcessed tx).pendingBlock, checking, b.asked, b.replies⟩ := by
  subst hview
  rfl

theorem covered_setUnProcessed {b : BlockView K} (h : b.BooksCovered) {res tx}
    (hres : b.checking = some res) (res' : CheckBlkResult K)
    (hm : ∀ id txs, b.Current id txs → Mentions txs tx.hash)
    (hunverified : ∀ t ∈ res'.unverifiedTxs, t ∈ res.unverifiedTxs)
    (hold : ∀ t ∈ res'.oldTxs, t ∈ res.oldTxs) (hverified : res'.verifiedTxs = res.verifiedTxs)
    (hleft : ∀ k, Mentions res.unverifiedTxs k ∨ Mentions res.oldTxs k →
      tx.hash = k ∨ Mentions res'.unverifiedTxs k ∨ Mentions res'.oldTxs k) :
    BooksCovered ⟨(b.setUnProcessed tx).pendingBlock, some res', b.asked, b.replies⟩ := by
  refine h.update rfl ?_ ?_
  · intro id txs hc hlisted
    refine { hlisted.setUnProcessed (hm id txs hc) with unverified := ?_, old := ?_, verified := ?_ }
    · rintro _ ⟨⟩ t ht
      exact hlisted.unverified res hres t (hunverified t ht)
    · rintro _ ⟨⟩ t ht
      exact hlisted.old res hres t (hold t ht)
    · rintro _ ⟨⟩ r hr
      exact hlisted.verified res hres r (hverified ▸ hr)
  · have hwork : ∀ k, Mentions res.unverifiedTxs k ∨ Mentions res.oldTxs k →
        Held ⟨(b.setUnProcessed tx).pendingBlock, some res', b.asked, b.replies⟩ k := by
      intro k hk
      rcases hleft k hk with heq | hm | hm
      · exact .inl (isSome_get_insert (.inr heq) tx)
      · exact .inr (.inr ⟨res', rfl, .inl hm⟩)
      · exact .inr (.inr ⟨res', rfl, .inr (.inl hm)⟩)
    rintro k (hw | hd | ⟨r, hr, hk⟩)
    · exact .inl (isSome_get_insert (.inl hw) tx)
    · exact .inr (.inl hd)
    · cases hres.symm.trans hr
      rcases hk with hm | hm | hv
      · exact hwork k (.inl hm)
      · exact hwork k (.inr hm)
      · exact .inr (.inr ⟨res', rfl, .inr (.inr (hverified ▸ hv))⟩)

theorem closed_continueBlock (h : s.blockView.BooksClosed) {res : CheckBlkResult K}
    (hres : s.checking = some res) (w : Fin n) : (s.continueBlock res w).blockView.BooksClosed := by
  unfold Server.continueBlock
  split
  next tx rest hun =>
    rw [setUnProcessed_view (works_assignTxToWorker tx w).blockView]
    refine { covered_setUnProcessed h.toBooksCovered hres { res with unverifiedTxs := rest } ?_ ?_ ?_
      rfl ?_ with closed := nofun }
    · intro id txs hc
      exact (h.listed id txs hc).unverified res hres tx (hun ▸ mem_cons_self)
    · intro t ht
      exact hun ▸ mem_cons_of_mem tx ht
    · exact fun t ht => ht
    · rintro k (⟨t, ht, heq⟩ | hm)
      · rw [hun] at ht
        rcases mem_cons.mp ht with rfl | ht
        · exact .inl heq
        · exact .inr (.inl ⟨t, ht, heq⟩)
      · exact .inr (.inr hm)
  next tx rest hun hold =>
    rw [setUnProcessed_view (works_reVerifyStateful tx w).blockView]
    refine { covered_setUnProcessed h.toBooksCovered hres { res with oldTxs := rest } ?_ ?_ ?_
      rfl ?_ with closed := nofun }
    · intro id txs hc
      exact (h.listed id txs hc).old res hres tx (hold ▸ mem_cons_self)
    · exact fun t ht => ht
    · intro t ht
      exact hold ▸ mem_cons_of_mem tx ht
    · rintro k (hm | ⟨t, ht, heq⟩)
      · exact .inr (.inl hm)
      · rw [hold] at ht
        rcases mem_cons.mp ht with rfl | ht
        · exact .inl heq
        · exact .inr (.inr ⟨t, ht, heq⟩)
  next hun hold =>
    obtain ⟨processedTxs, hview, hkeep, hnew, hfrom⟩ :=
      foldl_setProcessed_view res.verifiedTxs { s with checking := none }
    have hcovered : BooksCovered ⟨{ s.pendingBlock with processedTxs := processedTxs }, none, s.asked,
        s.replies⟩ := by
      refine h.toBooksCovered.update rfl ?_ ?_
      · intro id txs hc hlisted
        refine ⟨hlisted.unProcessed, ?_, nofun, nofun, nofun⟩
        intro k r hget
        rcases hfrom k r hget with hold | ⟨hr, rfl⟩
        · exact hlisted.processed k r hold
        · exact ⟨rfl, hlisted.verified res hres r hr⟩
      · rintro k (hw | hd | ⟨r, hr, hk⟩)
        · exact .inl hw
        · exact .inr (.inl (hkeep k hd))
        · cases hres.symm.trans hr
          rcases hk with ⟨t, ht, -⟩ | ⟨t, ht, -⟩ | ⟨r, hr, rfl⟩
          · rw [hun] at ht
            cases ht
          · rw [hold] at ht
            cases ht
          · exact .inr (.inl (hnew r hr))
    dsimp only
    split
    · rename_i hsize
      change (send (Server.blockView _)).BooksClosed
      have hsize' := congrArg (fun b : BlockView K => b.pendingBlock.unProcessedTxs.size) hview
      rw [hview]
      exact hcovered.send_of_empty rfl (hsize'.symm.trans hsize)
    · rename_i hsize
      have hsize' := congrArg (fun b : BlockView K => b.pendingBlock.unProcessedTxs.size) hview
      rw [hview]
      refine { hcovered with closed := ?_ }
      intro id txs _ _ hzero
      exact absurd (hsize'.trans hzero) hsize

theorem closed_checkPendingBlockOk (h : s.blockView.BooksClosed) (hfree : s.checking = none)
    (hash : Uint256) (err : ErrCode) : (s.checkPendingBlockOk hash err).blockView.BooksClosed := by
  unfold Server.checkPendingBlockOk
  split
  · exact h
  next tx hget =>
    have hdone : (s.blockView.setProcessed hash
        ⟨s.pendingBlock.height, tx, err⟩).pendingBlock.processedTxs.get hash =
          some ⟨s.pendingBlock.height, tx, err⟩ := get_insert_self _ _ _
    have hset := h.toBooksCovered.setProcessed (r := ⟨s.pendingBlock.height, tx, err⟩)
      fun id txs hc => (h.listed id txs hc).unProcessed hash tx hget
    have herased := hset.eraseUnProcessed (isSome_of_eq_some hdone)
    dsimp only
    split
    · rename_i hsend
      rcases hsend with herr | hsize
      · apply herased.send
        intro id txs _ _
        exact .inl ⟨hash, _, hdone, herr⟩
      · exact herased.send_of_empty hfree hsize
    · rename_i hsend
      refine { herased with closed := ?_ }
      intro id txs _ _ hzero
      exact absurd (.inr hzero) hsend

/-- The events that concern the requests. -/
inductive BlockEvent (s t : Server K n) : Prop
  | none (hview : t.blockView = s.blockView)
  | verifyBlock {txs : List (Transaction K)} (height : UInt32) (hne : txs ≠ [])
      (hfree : s.checking = none) (ht : t = s.verifyBlock txs height)
  | continueBlock {res : CheckBlkResult K} (w : Fin n) (hres : s.checking = some res)
      (ht : t = s.continueBlock res w)
  | checkPendingBlockOk {i : ℕ} {hash : Uint256} {err : ErrCode}
      (hi : s.checks[i]? = some (hash, err)) (hfree : s.checking = none)
      (ht : t = { s with checks := s.checks.eraseIdx i }.checkPendingBlockOk hash err)

theorem Event.blockEvent (hst : Event sha256 ripemd160 s a t) : BlockEvent s t := by
  cases hst with
  | nothing | register | unregister | accepted | getTxPool | deliver => exact .none rfl
  | assign w => exact .none (works_assignTxToWorker _ w).blockView
  | reverifyStale w | reverifyRemaining w => exact .none (works_reVerifyStateful _ w).blockView
  | saveBlock txs => exact .none (works_cleanTransactionList txs).blockView
  | verifyBlock height hne hfree => exact .verifyBlock height hne hfree rfl
  | continueBlock w hres => exact .continueBlock w hres rfl
  | verifyTx => exact .none (works_verifyTx _ _).blockView
  | verifyStateful => exact .none (works_sendReq2StatefulV _).blockView
  | handleRsp => exact .none (works_handleRsp _ _).blockView
  | timeout w hash => exact .none (works_handleTimeoutEvent w hash).blockView
  | validate height errCode => exact .none (works_validate _ height errCode).blockView
  | removePendingTx => exact .none (removePendingTx_frame _ _).1
  | checkPendingBlockOk hi hfree => exact .checkPendingBlockOk hi hfree rfl

variable (sha256 ripemd160) in
/-- What holds of the server in every run. -/
structure Kept (s : Server K n) : Prop where
  inv : ∃ V, Inv sha256 ripemd160 V s
  books : s.blockView.BooksClosed

theorem kept_newTxPoolServer (disablePreExec : Bool) (maxTxInBlock : ℕ) :
    Kept sha256 ripemd160 (newTxPoolServer disablePreExec maxTxInBlock : Server K n) where
  inv := ⟨_, inv_newTxPoolServer disablePreExec maxTxInBlock⟩
  books :=
    { sender id := ⟨nofun, nofun⟩
      nonempty := not_mem_nil
      replies := nofun
      listed id txs hc := by cases hc.1
      only := nofun
      all := nofun
      covered id txs hc := by cases hc.1
      closed id txs hc := by cases hc.1 }

theorem Kept.step (h : Kept sha256 ripemd160 s) (hst : Event sha256 ripemd160 s a t) :
    Kept sha256 ripemd160 t := by
  obtain ⟨V, hinv⟩ := h.inv
  refine ⟨hinv.step hst, ?_⟩
  cases hst.blockEvent with
  | none hview => exact hview ▸ h.books
  | verifyBlock height hne hfree ht =>
    exact ht ▸ closed_verifyBlock h.books hinv.pool hfree hne height
  | continueBlock w hres ht => exact ht ▸ closed_continueBlock h.books hres w
  | @checkPendingBlockOk i hash err hi hfree ht =>
    have htake : ({ s with checks := s.checks.eraseIdx i } : Server K n).blockView.BooksClosed :=
      h.books
    exact ht ▸ closed_checkPendingBlockOk htake hfree hash err

end Poly.TxPool
