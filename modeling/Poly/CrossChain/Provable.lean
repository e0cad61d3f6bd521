import Poly.CrossChain.Transfers
import Poly.Ledger.CrossStates

/-! Every request can be proved to its target chain: the path made from the saved leaf hashes of its
block opens the root of that block to the request. -/
namespace Poly.CrossChain

open Lib Native Governance Ledger Merkle List Option

variable (C : Crypto) (D : Deployment)

/-- The source chain and the transfer for which a transaction reaches `MakeTransaction`. -/
def requestOf (header : Header C.keys) (overlay : OverlayDB) (tx : Transaction C.keys) :
    Option (UInt64 × MakeTxParam) := do
  let s ← importCall C header overlay tx
  let ((c, _, p), t) ← ((importProposal C D).run s).toOption
  let q ← p
  let (sideChain, _) ← ((checkChain "target" q.toChainID).run t).toOption
  if sideChain.router = BTC_ROUTER ∨ sideChain.router = RIPPLE_ROUTER then none else some (c, q)

variable {C D}

/-- The cache of a block holds a request and its leaf is among the leaf hashes. -/
structure Holds (C : Crypto) (key value : Bytes) (acc : BlockState) : Prop where
  storage : acc.overlay.get (ST_STORAGE :: key) = some (genRawStorageItem value)
  leaf : hashLeaf C.sha256 value ∈ acc.crossHashes

section Transaction

variable {overlay : OverlayDB} {tx : Transaction C.keys}

theorem requestOf_ok {header s c q} (hcall : importCall C header overlay tx = some s)
    (h : requestOf C D header overlay tx = some (c, q)) :
    ∃ router t sideChain u, (importProposal C D).run s = .ok ((c, router, some q), t) ∧
      (checkChain "target" q.toChainID).run t = .ok (sideChain, u) ∧
      sideChain.router ≠ BTC_ROUTER ∧ sideChain.router ≠ RIPPLE_ROUTER := by
  unfold requestOf at h
  obtain ⟨s', hs, h₁⟩ := bind_eq_some_iff.mp h
  cases hcall.symm.trans hs
  obtain ⟨⟨⟨c', router, p⟩, t⟩, hp, h₂⟩ := bind_eq_some_iff.mp h₁
  obtain ⟨q', rfl, h₃⟩ := bind_eq_some_iff.mp h₂
  obtain ⟨⟨sideChain, u⟩, hc, h₄⟩ := bind_eq_some_iff.mp h₃
  dsimp only at h₄
  split at h₄
  · cases h₄
  next hrouter =>
    cases Option.some.inj h₄
    obtain ⟨hbtc, hripple⟩ := not_or.mp hrouter
    exact ⟨router, t, sideChain, u, toOption_eq_some.mp hp,
      toOption_eq_some.mp hc, hbtc, hripple⟩

/-- A transaction that reaches `MakeTransaction` leaves its request and its leaf. -/
theorem handleInvokeTransaction_request {header overlay' notify hashes c q}
    (h : handleInvokeTransaction C (D.contracts C) header overlay tx =
      .ok (overlay', notify, hashes)) (hreq : requestOf C D header overlay tx = some (c, q)) :
    overlay'.get (ST_STORAGE :: requestKey q.toChainID tx.hash.val) =
        some (genRawStorageItem (merkleValue tx.hash q c)) ∧
      hashLeaf C.sha256 (merkleValue tx.hash q c) ∈ hashes := by
  obtain ⟨s, u, hdb, hhash, -, hempty, rfl, hget, -, hcases⟩ := handleInvokeTransaction_cases h
  rcases hcases with ⟨hcall, r, hi⟩ | ⟨hcall, -⟩
  · obtain ⟨router, t, sideChain, v, hp, hc, hbtc, hripple⟩ := requestOf_ok hcall hreq
    obtain ⟨c', router', p, s₁, hp', hd⟩ := importExTransfer_ok hi
    obtain ⟨heq, rfl⟩ := Prod.mk.inj (ok_unique hp hp')
    obtain ⟨rfl, rfl, rfl⟩ : c = c' ∧ router = router' ∧ some q = p := by simpa using heq
    rcases hd with ⟨hnone, -⟩ | ⟨q', hq, hd⟩
    · cases hnone
    · cases hq
      obtain ⟨sideChain', s₀, hc', hd⟩ := run_bind_ok.mp hd
      obtain ⟨rfl, -⟩ := Prod.mk.inj (ok_unique hc hc')
      obtain rfl : t = s₀ := Within.of_run hc'
      rw [if_neg hbtc, if_neg hripple] at hd
      have hr := makeTransaction_ok hd
      have htx : t.tx.hash = tx.hash := by rw [(frame_importProposal hp).tx_eq, hhash]
      constructor
      · rw [hget, hr.cacheDB_eq, htx]
        exact CacheDB.get_put_self _ (genRawStorageItem_ne_nil _)
      · rw [hr.crossHashes_eq, htx]
        exact mem_append_right _ mem_cons_self
  · rw [requestOf, hcall] at hreq
    cases hreq

theorem handleInvokeTransaction_keeps {header overlay' notify hashes}
    (h : handleInvokeTransaction C (D.contracts C) header overlay tx =
      .ok (overlay', notify, hashes)) {toChainID hash} (hne : tx.hash ≠ hash) :
    overlay'.get (ST_STORAGE :: requestKey toChainID hash.val) =
      overlay.get (ST_STORAGE :: requestKey toChainID hash.val) := by
  obtain ⟨s, u, hdb, -, -, -, -, hget, hw, -⟩ := handleInvokeTransaction_cases h
  have hkey : ¬ TxKey tx.hash (requestKey toChainID hash.val) := by
    intro hk
    generalize he : requestKey toChainID hash.val = key at hk
    cases hk with
    | record hk =>
      cases hk with
      | side h => exact not_sideKey (by decide) _ (he ▸ h)
      | done c i => exact doneKey_ne_requestKey c toChainID i hash.val he.symm
    | request c => exact hne (Subtype.ext (requestKey_inj he).2).symm
  rw [hget, hw.get_eq _ hkey, hdb, CacheDB.get_new]

end Transaction

/-- After the block the request and its leaf are there, whatever the other transactions did. -/
theorem handleTransactions_holds {store block pre post tx before acc out c q}
    (htxs : block.transactions = pre ++ tx :: post)
    (hpre : pre.foldlM (handleTransaction C (D.contracts C) block.header)
      ⟨OverlayDB.new store, [], []⟩ = .ok before)
    (htx : handleInvokeTransaction C (D.contracts C) block.header before.overlay tx = .ok out)
    (hreq : requestOf C D block.header before.overlay tx = some (c, q))
    (hdistinct : (block.transactions.map Transaction.hash).Nodup)
    (h : handleTransactions C (D.contracts C) store block = .ok acc) :
    Holds C (requestKey q.toChainID tx.hash.val) (merkleValue tx.hash q c) acc := by
  obtain ⟨overlay, notify, hashes⟩ := out
  rw [handleTransactions, htxs, foldlM_append] at h
  obtain ⟨before', hb, h⟩ := bind_ok.mp h
  cases ok_unique hpre hb
  obtain ⟨mid, hm, hpost⟩ := bind_ok.mp h
  have hmid : Holds C (requestKey q.toChainID tx.hash.val) (merkleValue tx.hash q c) mid := by
    obtain ⟨hs, hl⟩ := handleInvokeTransaction_request htx hreq
    rcases handleTransaction_ok hm with ⟨o, n, hs', hi, rfl⟩ | ⟨msg, hi, -⟩
    · obtain ⟨rfl, rfl, rfl⟩ : overlay = o ∧ notify = n ∧ hashes = hs' := by
        simpa using ok_unique htx hi
      exact ⟨hs, mem_append_right _ hl⟩
    · cases htx.symm.trans hi
  rw [htxs, map_append] at hdistinct
  have hnot := (nodup_cons.mp (nodup_append.mp hdistinct).2.1).1
  refine foldlM_invariant (fun b tx' hmem b' hb hs => ?_) hmid hpost
  have hne : tx'.hash ≠ tx.hash := fun he => hnot (he ▸ mem_map_of_mem hmem)
  rcases handleTransaction_ok hs with ⟨overlay, notify, hashes, hi, rfl⟩ | ⟨msg, -, rfl⟩
  · exact ⟨(handleInvokeTransaction_keeps hi hne).trans hb.storage, mem_append_left _ hb.leaf⟩
  · exact ⟨hb.storage, hb.leaf⟩

/-- What the proof of a request needs of a store. -/
structure Proves (st : StateStore) (height : UInt32) (hashes : List Uint256) (key value : Bytes) :
    Prop where
  crossStates : st.store.get (StateStore.heightKey SYS_CROSS_STATES height) =
    some (hashes.flatMap Subtype.val)
  storage : st.store.get (ST_STORAGE :: key) = some (genRawStorageItem value)

theorem applyBlock_proves {st st' block height hashes toChainID hash value}
    (hst : Proves st height hashes (requestKey toChainID hash.val) value)
    (hheight : block.header.height ≠ height) (hhash : ∀ tx ∈ block.transactions, tx.hash ≠ hash)
    (h : applyBlock C (D.contracts C) st block = .ok st') :
    Proves st' height hashes (requestKey toChainID hash.val) value := by
  obtain ⟨acc, result, ha, -, -, -, hsaved⟩ := applyBlock_saved h
  refine ⟨(hsaved.crossStates_of_ne height hheight.symm).trans hst.crossStates, ?_⟩
  rw [hsaved.storage]
  -- the block starts from a cache over the store, and no transaction of it touches the request
  refine foldlM_invariant (P := fun acc : BlockState =>
    acc.overlay.get (ST_STORAGE :: requestKey toChainID hash.val) =
      some (genRawStorageItem value)) (b := ⟨OverlayDB.new st.store, [], []⟩)
    (fun b tx hmem b' hb hs => ?_) hst.storage ha
  rcases handleTransaction_ok hs with ⟨overlay, notify, hashes', hi, rfl⟩ | ⟨msg, -, rfl⟩
  · exact (handleInvokeTransaction_keeps hi (hhash tx hmem)).trans hb
  · exact hb

/-- The request of a transaction of a block is proved against the root of that block, from the store
after any later blocks in which neither the height nor the transaction occurs again. -/
theorem request_provable {st st₁ st₂ : StateStore} {block : LedgerBlock C} {result : ExecuteResult}
    {later : List (LedgerBlock C)} {pre post : List (Transaction C.keys)}
    {tx : Transaction C.keys} {before : BlockState}
    {out : OverlayDB × List NotifyEventInfo × List Uint256} {c : UInt64} {q : MakeTxParam}
    (hexec : executeBlock C (D.contracts C) st block = .ok result)
    (happly : applyBlock C (D.contracts C) st block = .ok st₁)
    (hlater : replay C (D.contracts C) st₁ later = .ok st₂)
    (htxs : block.transactions = pre ++ tx :: post)
    (hpre : pre.foldlM (handleTransaction C (D.contracts C) block.header)
      ⟨OverlayDB.new st.store, [], []⟩ = .ok before)
    (htx : handleInvokeTransaction C (D.contracts C) block.header before.overlay tx = .ok out)
    (hreq : requestOf C D block.header before.overlay tx = some (c, q))
    (hdistinct : (block.transactions.map Transaction.hash).Nodup)
    (hheight : ∀ b ∈ later, b.header.height ≠ block.header.height)
    (hhash : ∀ b ∈ later, ∀ tx' ∈ b.transactions, tx'.hash ≠ tx.hash)
    (hsize : result.crossHashes.length * 33 + (merkleValue tx.hash q c).length + 8 ≤ MAX_SIZE) :
    ∃ path, st₂.getCrossStatesProof C.sha256 block.header.height
        (requestKey q.toChainID tx.hash.val) = .ok path ∧
      merkleProve C.sha256 path result.crossStatesRoot.val = .ok (merkleValue tx.hash q c) := by
  obtain ⟨acc, result', ha, hr, hhashes, hroot, hsaved⟩ := applyBlock_saved happly
  cases ok_unique hexec hr
  have hholds := handleTransactions_holds htxs hpre htx hreq hdistinct ha
  have hne : acc.crossHashes ≠ [] := ne_nil_of_mem hholds.leaf
  have hafter : Proves st₁ block.header.height acc.crossHashes
      (requestKey q.toChainID tx.hash.val) (merkleValue tx.hash q c) :=
    ⟨hsaved.crossStates hne, (hsaved.storage _).trans hholds.storage⟩
  have hend := foldlM_invariant (fun b blk hmem b' hb hs =>
    applyBlock_proves hb (hheight blk hmem) (hhash blk hmem) hs) hafter hlater
  rw [hhashes] at hsize
  obtain ⟨path, root, hpath, hfull, hprove⟩ :=
    getCrossStatesProof_ok hend.crossStates hend.storage hholds.leaf hsize
  have heq : root = result.crossStatesRoot := by
    rw [crossStatesRoot, if_pos (fun hlen => hne (length_eq_zero_iff.mp hlen)), hfull] at hroot
    exact Except.ok.inj hroot
  exact ⟨path, hpath, heq ▸ hprove⟩

/-- Two requests, with a transaction that repeats the first transfer and fails in between. -/
def sampleRequests : LedgerBlock openCrypto :=
  ⟨sampleHeader 1, [sampleImport 1 [7], sampleImport 2 [7], sampleImport 3 [8]]⟩

def sampleNextBlock : LedgerBlock openCrypto := ⟨sampleHeader 2, [sampleImport 4 [9]]⟩

abbrev sampleContracts : Contracts := openDeployment.contracts openCrypto

def sampleExecuted : ExecuteResult :=
  ((executeBlock openCrypto sampleContracts (.initial sampleStore) sampleRequests).toOption).getD
    ⟨OrderedMap.empty, [], Uint256.empty, Uint256.empty, Uint256.empty, []⟩

def sampleApplied : StateStore :=
  ((applyBlock openCrypto sampleContracts (.initial sampleStore) sampleRequests).toOption).getD
    (.initial sampleStore)

def sampleApplied₂ : StateStore :=
  ((replay openCrypto sampleContracts sampleApplied [sampleNextBlock]).toOption).getD
    (.initial sampleStore)

def sampleBefore : BlockState :=
  (([sampleImport 1 [7], sampleImport 2 [7]].foldlM
    (handleTransaction openCrypto sampleContracts sampleRequests.header)
    ⟨OverlayDB.new sampleStore, [], []⟩).toOption).getD ⟨OverlayDB.new sampleStore, [], []⟩

theorem request_provable_second :
    sampleExecuted.crossHashes.length = 2 ∧
      ∃ path, sampleApplied₂.getCrossStatesProof openCrypto.sha256 sampleRequests.header.height
          (requestKey (sampleParam [8]).toChainID (sampleImport 3 [8]).hash.val) = .ok path ∧
        merkleProve openCrypto.sha256 path sampleExecuted.crossStatesRoot.val =
          .ok (merkleValue (sampleImport 3 [8]).hash (sampleParam [8]) 2) := by
  have hexec : executeBlock openCrypto sampleContracts (.initial sampleStore) sampleRequests =
      .ok sampleExecuted := by decide +kernel
  have happly : applyBlock openCrypto sampleContracts (.initial sampleStore) sampleRequests =
      .ok sampleApplied := by decide +kernel
  have hlater : replay openCrypto sampleContracts sampleApplied [sampleNextBlock] =
      .ok sampleApplied₂ := by decide +kernel
  have htxs : sampleRequests.transactions =
      [sampleImport 1 [7], sampleImport 2 [7]] ++ sampleImport 3 [8] :: [] := rfl
  have hpre : [sampleImport 1 [7], sampleImport 2 [7]].foldlM
      (handleTransaction openCrypto sampleContracts sampleRequests.header)
      ⟨OverlayDB.new (StateStore.initial sampleStore).store, [], []⟩ = .ok sampleBefore := by
    decide +kernel
  have hsome : (handleInvokeTransaction openCrypto sampleContracts sampleRequests.header
      sampleBefore.overlay (sampleImport 3 [8])).toOption.isSome := by decide +kernel
  obtain ⟨out, hout⟩ := isSome_iff_exists.mp hsome
  have hreq : requestOf openCrypto openDeployment sampleRequests.header sampleBefore.overlay
      (sampleImport 3 [8]) = some (2, sampleParam [8]) := by decide +kernel
  have hdistinct : (sampleRequests.transactions.map Transaction.hash).Nodup := by decide +kernel
  have hheight : ∀ b ∈ [sampleNextBlock], b.header.height ≠ sampleRequests.header.height := by
    intro b hb
    cases mem_singleton.mp hb
    decide
  have hhash : ∀ b ∈ [sampleNextBlock], ∀ tx ∈ b.transactions,
      tx.hash ≠ (sampleImport 3 [8]).hash := by
    intro b hb tx htx
    cases mem_singleton.mp hb
    cases mem_singleton.mp htx
    decide
  have hsize : sampleExecuted.crossHashes.length * 33 +
      (merkleValue (sampleImport 3 [8]).hash (sampleParam [8]) 2).length + 8 ≤ MAX_SIZE := by
    decide +kernel
  refine ⟨by decide +kernel, ?_⟩
  exact request_provable hexec happly hlater htxs hpre (toOption_eq_some.mp hout) hreq hdistinct
    hheight hhash hsize

end Poly.CrossChain
