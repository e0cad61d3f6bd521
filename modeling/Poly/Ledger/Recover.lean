import Poly.Ledger.Execute

/-! Start-up of the ledger after a crash: the blocks that the block store has and the state store
lacks are replayed. -/
namespace Poly.Ledger

open Lib Native Merkle List

variable (C : Crypto) (contracts : Contracts)

/-- Blocks by hash, hashes by height and the last block. -/
structure BlockStore where
  currentBlock : Option (Uint256 × UInt32)
  blockHash : OrderedMap UInt32 Uint256
  blocks : OrderedMap Uint256 (LedgerBlock C)

structure EventStore where
  currentBlock : Option (Uint256 × UInt32)
  notifyByTx : OrderedMap Uint256 ExecuteNotify
  notifyByBlock : OrderedMap UInt32 (List Uint256)

structure LedgerStoreImp where
  blockStore : BlockStore C
  stateStore : StateStore
  eventStore : EventStore
  currBlockHeight : UInt32
  currBlockHash : Uint256
  enableEventLog : Bool

variable {C}

def BlockStore.getBlockHash (bs : BlockStore C) (height : UInt32) : Result Uint256 :=
  orFail (bs.blockHash.get height) (.error "not found")

def BlockStore.getBlock (bs : BlockStore C) (blockHash : Uint256) : Result (LedgerBlock C) :=
  orFail (bs.blocks.get blockHash) (.error "not found")

def EventStore.saveNotify (es : EventStore) (enableEventLog : Bool) (notify : List ExecuteNotify) :
    EventStore :=
  if enableEventLog then
    { es with notifyByTx := notify.foldl (fun m n => m.insert n.txHash n) es.notifyByTx }
  else es

def saveBlockToEventStore (es : EventStore) (block : LedgerBlock C) (blockHash : Uint256) :
    EventStore :=
  let txs := block.transactions.map Transaction.hash
  { es with
    notifyByBlock := if txs.length > 0 then es.notifyByBlock.insert block.header.height txs
      else es.notifyByBlock
    currentBlock := some (blockHash, block.header.height) }

variable (C) in
/-- One round of the loop of `recoverStore`. -/
def recoverBlock (ledger : LedgerStoreImp C) (i : UInt32) : Result (LedgerStoreImp C) := do
  let blockHash ← wrapError s!"blockStore.GetBlockHash height:{i} error:"
    (ledger.blockStore.getBlockHash i)
  let block ← wrapError s!"blockStore.GetBlock height:{i} error:"
    (ledger.blockStore.getBlock blockHash)
  let result ← executeBlock C contracts ledger.stateStore block
  let (stateStore, batch) ← wrapError s!"save to state store height:{i} error:"
    (saveBlockToStateStore C ledger.stateStore block result)
  let hash ← block.header.hash C.sha256
  let events := ledger.eventStore.saveNotify ledger.enableEventLog result.notify
  return { ledger with
    stateStore := stateStore.commitTo batch
    eventStore := saveBlockToEventStore events block hash }

/-- The heights `i` with `start ≤ i < stop`, as the loop variable takes them. -/
def heights (start stop : UInt32) : List UInt32 :=
  (List.range' start.toNat (stop.toNat - start.toNat)).map UInt32.ofNat

variable (C) in
def recoverStore (ledger : LedgerStoreImp C) : Result (LedgerStoreImp C) := do
  let blockHeight := ledger.currBlockHeight
  let (_, stateHeight) ← wrapError "stateStore.GetCurrentBlock error "
    ledger.stateStore.getCurrentBlock
  (heights stateHeight blockHeight).foldlM (recoverBlock C contracts) ledger

section Replay

variable (C) in
/-- Blocks executed and saved one after the other. -/
def replay (st : StateStore) (blocks : List (LedgerBlock C)) : Result StateStore :=
  blocks.foldlM (applyBlock C contracts) st

/-- The state store after the blocks `0..n` of a chain. -/
def stateAt (store₀ : KVStore) (chain : ℕ → LedgerBlock C) (n : ℕ) : Result StateStore :=
  replay C contracts (.initial store₀) ((List.range (n + 1)).map chain)

variable {contracts}

variable {st st' : StateStore}

theorem replay_concat {l block} :
    replay C contracts st (l ++ [block]) = .ok st' ↔
      ∃ mid, replay C contracts st l = .ok mid ∧ applyBlock C contracts mid block = .ok st' := by
  unfold replay
  rw [foldlM_append, bind_ok]
  refine exists_congr fun mid => and_congr_right fun _ => ?_
  show (applyBlock C contracts mid block >>= pure) = .ok st' ↔ _
  rw [bind_pure]

theorem replay_treeSize {blocks} (h : replay C contracts st blocks = .ok st') :
    st'.merkleTree.treeSize = st.merkleTree.treeSize + UInt32.ofNat blocks.length := by
  induction blocks generalizing st with
  | nil =>
    cases h
    exact (UInt32.add_zero _).symm
  | cons block blocks ih =>
    obtain ⟨mid, hb, hrest⟩ := bind_ok.mp h
    obtain ⟨-, -, -, -, -, hsize⟩ := applyBlock_ok hb
    rw [ih hrest, hsize, length_cons, UInt32.ofNat_add, UInt32.add_assoc, UInt32.add_comm 1]
    rfl

/-- The trees of a reopened state store are those it was closed with. -/
theorem newStateStore_applyBlock {st'' block} (h : applyBlock C contracts st block = .ok st')
    (hopen : StateStore.newStateStore st'.store = .ok st'') : st'' = st' := by
  obtain ⟨_, -, -, htree, hdelta, -⟩ := applyBlock_ok h
  have hload {key : Bytes} {height : UInt32} {t t' : CompactMerkleTree}
      (hget : st'.store.get key = some t.bytes)
      (ht : StateStore.loadTree st'.store key height = .ok t') : t' = t := by
    obtain ⟨x, hx, ht⟩ := bind_ok.mp ht
    unfold StateStore.getMerkleTree at hx
    rw [hget] at hx
    cases ok_unique (CompactMerkleTree.ofBytes_bytes t) hx
    obtain ⟨_, -, ht⟩ := bind_ok.mp ht
    obtain ⟨_, -, ht⟩ := bind_ok.mp ht
    exact (Except.ok.inj ht).symm
  obtain ⟨height, -, hopen⟩ := bind_ok.mp hopen
  obtain ⟨merkleTree, hm, hopen⟩ := bind_ok.mp hopen
  obtain ⟨deltaMerkleTree, hd, hopen⟩ := bind_ok.mp hopen
  cases hopen
  rw [hload htree (wrapError_ok.mp hm), hload hdelta (wrapError_ok.mp hd)]

end Replay

/-- The block store holds the blocks `0..b` of a chain. -/
structure Stored (bs : BlockStore C) (chain : ℕ → LedgerBlock C) (b : ℕ) : Prop where
  lookup : ∀ i ≤ b, ∃ h, bs.blockHash.get (UInt32.ofNat i) = some h ∧ bs.blocks.get h = some (chain i)
  height : ∀ i ≤ b, (chain i).header.height = UInt32.ofNat i
  lt_size : b < 2 ^ 32

variable {contracts}

/-- A round of the loop applies the block of its height to the state store. -/
theorem recoverBlock_ok {ledger ledger' i h block} (hh : ledger.blockStore.blockHash.get i = some h)
    (hb : ledger.blockStore.blocks.get h = some block)
    (hr : recoverBlock C contracts ledger i = .ok ledger') :
    applyBlock C contracts ledger.stateStore block = .ok ledger'.stateStore ∧
      ledger'.blockStore = ledger.blockStore := by
  obtain ⟨h', hh', hr⟩ := bind_ok.mp hr
  obtain ⟨block', hb', hr⟩ := bind_ok.mp hr
  obtain ⟨result, hx, hr⟩ := bind_ok.mp hr
  obtain ⟨⟨st, batch⟩, hs, hr⟩ := bind_ok.mp hr
  obtain ⟨hash, -, hr⟩ := bind_ok.mp hr
  cases hr
  cases hh.symm.trans (orFail_ok.mp (wrapError_ok.mp hh'))
  cases hb.symm.trans (orFail_ok.mp (wrapError_ok.mp hb'))
  exact ⟨bind_ok.mpr ⟨result, hx, bind_ok.mpr ⟨_, wrapError_ok.mp hs, rfl⟩⟩, rfl⟩

theorem recoverLoop_ok {chain : ℕ → LedgerBlock C} {b} (n s : ℕ) (hn : s + n ≤ b + 1)
    {ledger ledger'} (hchain : Stored ledger.blockStore chain b)
    (hr : ((range' s n).map UInt32.ofNat).foldlM (recoverBlock C contracts) ledger =
      .ok ledger') :
    replay C contracts ledger.stateStore ((range' s n).map chain) = .ok ledger'.stateStore := by
  induction n generalizing s ledger with
  | zero =>
    cases hr
    rfl
  | succ n ih =>
    obtain ⟨mid, hm, hrest⟩ := bind_ok.mp hr
    obtain ⟨h, hh, hb⟩ := hchain.lookup s (by omega)
    obtain ⟨happ, hbs⟩ := recoverBlock_ok hh hb hm
    exact bind_ok.mpr ⟨mid.stateStore, happ, ih (s + 1) (by omega) (hbs ▸ hchain) hrest⟩

/-- Recovery of a reopened ledger leaves the state of the whole chain, with its last block and its
number of blocks, exactly when there was nothing to recover: the loop starts at the block that the
state store already has and stops before the last one. -/
theorem recoverStore_iff {store₀ : KVStore} {chain : ℕ → LedgerBlock C} {b s : ℕ}
    {closed : StateStore} {ledger ledger' : LedgerStoreImp C}
    (hchain : Stored ledger.blockStore chain b)
    (hcurrent : ledger.currBlockHeight = UInt32.ofNat b) (hs : s ≤ b)
    (hclosed : stateAt contracts store₀ chain s = .ok closed)
    (hopen : StateStore.newStateStore closed.store = .ok ledger.stateStore)
    (hrecover : recoverStore C contracts ledger = .ok ledger') :
    (stateAt contracts store₀ chain b = .ok ledger'.stateStore ∧
      (∃ h, (chain b).header.hash C.sha256 = .ok h ∧
        ledger'.stateStore.getCurrentBlock = .ok (h, UInt32.ofNat b)) ∧
      ledger'.stateStore.merkleTree.treeSize = UInt32.ofNat (b + 1)) ↔ s = b := by
  have hb : b < UInt32.size := hchain.lt_size
  have hsplit := hclosed
  rw [stateAt, range_succ, map_append] at hsplit
  obtain ⟨mid, -, hlast⟩ := replay_concat.mp hsplit
  obtain ⟨h₀, hh₀, hcur, -, -, -⟩ := applyBlock_ok hlast
  have hst : ledger.stateStore = closed := newStateStore_applyBlock hlast hopen
  obtain ⟨x, hx, hloop⟩ := bind_ok.mp hrecover
  rw [hst] at hx
  cases ok_unique hcur (wrapError_ok.mp hx)
  simp only [hchain.height s hs, hcurrent, heights,
    UInt32.toNat_ofNat_of_lt' (lt_of_le_of_lt hs hb), UInt32.toNat_ofNat_of_lt' hb] at hloop
  have hreplay := recoverLoop_ok (b - s) s (by omega) hchain hloop
  constructor
  · rintro ⟨-, ⟨h, -, hheight⟩, -⟩
    -- with a block to recover, the last block applied is the one before `b`
    by_contra hne
    obtain ⟨n, hn⟩ : ∃ n, b - s = n + 1 := ⟨b - s - 1, by omega⟩
    rw [hn, List.range'_concat, List.map_append] at hreplay
    obtain ⟨mid', -, hlast'⟩ := replay_concat.mp hreplay
    obtain ⟨h', -, hcur', -, -, -⟩ := applyBlock_ok hlast'
    rw [hchain.height _ (by omega), hheight] at hcur'
    have hnat := congrArg UInt32.toNat (ok_mk_inj hcur').2
    rw [UInt32.toNat_ofNat_of_lt' hb, UInt32.toNat_ofNat_of_lt' (by omega)] at hnat
    omega
  · rintro rfl
    rw [Nat.sub_self] at hreplay
    have hkeep : ledger'.stateStore = closed := (Except.ok.inj hreplay).symm.trans hst
    rw [hkeep]
    rw [hchain.height s le_rfl] at hcur
    have hsize := replay_treeSize hclosed
    rw [length_map, length_range] at hsize
    exact ⟨hclosed, ⟨h₀, hh₀, hcur⟩, hsize.trans (UInt32.zero_add _)⟩

/-- A chain of blocks without transactions. -/
def sampleChain (i : ℕ) : LedgerBlock openCrypto :=
  ⟨⟨⟨0, 0, Uint256.empty, Uint256.empty, Uint256.empty, Uint256.empty, 0, UInt32.ofNat i, 0, [],
    Address.empty⟩, [], []⟩, []⟩

/-- The state store as the crash left it: only the first block had been saved. -/
def sampleClosed : StateStore :=
  ((stateAt (fun _ => none) OrderedMap.empty sampleChain 0).toOption).getD (.initial .empty)

/-- Two blocks in the block store. -/
def sampleLedger : LedgerStoreImp openCrypto where
  blockStore := {
    currentBlock := none
    blockHash := (OrderedMap.empty.insert 0 (zeroPad 32 [0])).insert 1 (zeroPad 32 [1])
    blocks := (OrderedMap.empty.insert (zeroPad 32 [0]) (sampleChain 0)).insert
      (zeroPad 32 [1]) (sampleChain 1) }
  stateStore := sampleClosed
  eventStore := ⟨none, OrderedMap.empty, OrderedMap.empty⟩
  currBlockHeight := 1
  currBlockHash := Uint256.empty
  enableEventLog := true

theorem sampleLedger_stored : Stored sampleLedger.blockStore sampleChain 1 where
  lookup i hi := by
    interval_cases i
    · exact ⟨zeroPad 32 [0], by decide, by rfl⟩
    · exact ⟨zeroPad 32 [1], by decide, by rfl⟩
  height _ _ := rfl
  lt_size := by decide

/-- The state after the first block applied twice. -/
def sampleRecovered : StateStore :=
  ((replay openCrypto (fun _ => none) (.initial .empty) [sampleChain 0, sampleChain 0]).toOption).getD
    (.initial .empty)

theorem sampleLedger_recovered :
    ∃ ledger', recoverStore openCrypto (fun _ => none) sampleLedger = .ok ledger' ∧
      ledger'.stateStore = sampleRecovered := by
  have h : (recoverStore openCrypto (fun _ => none) sampleLedger).map (·.stateStore) =
      .ok sampleRecovered := by decide +kernel
  cases hr : recoverStore openCrypto (fun _ => none) sampleLedger with
  | error e =>
    rw [hr] at h
    cases h
  | ok ledger' =>
    rw [hr] at h
    exact ⟨ledger', rfl, Except.ok.inj h⟩

/-- The block at height zero is applied twice and the one at height one never. -/
theorem recoverStore_one_behind :
    stateAt (fun _ => none) OrderedMap.empty sampleChain 0 = .ok sampleClosed ∧
      StateStore.newStateStore sampleClosed.store = .ok sampleLedger.stateStore ∧
      ∃ ledger', recoverStore openCrypto (fun _ => none) sampleLedger = .ok ledger' ∧
        stateAt (fun _ => none) OrderedMap.empty sampleChain 1 ≠ .ok ledger'.stateStore ∧
        ledger'.stateStore.getCurrentBlock.map Prod.snd = .ok 0 ∧
        replay openCrypto (fun _ => none) (.initial .empty) [sampleChain 0, sampleChain 0] =
          .ok ledger'.stateStore := by
  obtain ⟨ledger', hr, hst⟩ := sampleLedger_recovered
  refine ⟨by decide +kernel, by decide +kernel, ledger', hr, ?_⟩
  rw [hst]
  exact ⟨by decide +kernel, by decide +kernel, by decide +kernel⟩

theorem recoverStore_iff_one_behind :
    ∃ ledger', recoverStore openCrypto (fun _ => none) sampleLedger = .ok ledger' ∧
      ((stateAt (fun _ => none) OrderedMap.empty sampleChain 1 = .ok ledger'.stateStore ∧
        (∃ h, (sampleChain 1).header.hash openCrypto.sha256 = .ok h ∧
          ledger'.stateStore.getCurrentBlock = .ok (h, UInt32.ofNat 1)) ∧
        ledger'.stateStore.merkleTree.treeSize = UInt32.ofNat 2) ↔ 0 = 1) := by
  obtain ⟨ledger', hr, -⟩ := sampleLedger_recovered
  have hclosed : stateAt (fun _ => none) OrderedMap.empty sampleChain 0 = .ok sampleClosed := by
    decide +kernel
  have hopen : StateStore.newStateStore sampleClosed.store = .ok sampleLedger.stateStore := by
    decide +kernel
  exact ⟨ledger', hr, recoverStore_iff sampleLedger_stored rfl (Nat.zero_le 1) hclosed hopen hr⟩

end Poly.Ledger
