import Poly.Ledger.Submit

/-! The header index is stored in lists of a fixed length, and rebuilt from them and from the stored
block hashes when the ledger starts. -/
namespace Poly.Ledger

open Lib Lib.Persist Native Merkle OrderedMap List

variable {C : Crypto} {contracts : Contracts}

/-- The hashes of one list, from its start height on. -/
def putList : OrderedMap UInt32 Uint256 → UInt32 → List Uint256 → OrderedMap UInt32 Uint256
  | result, _, [] => result
  | result, height, blockHash :: rest => putList (result.insert height blockHash) (height + 1) rest

def getHeaderIndexList (lists : OrderedMap UInt32 (List Uint256)) : OrderedMap UInt32 Uint256 :=
  lists.entries.foldl (fun result x => putList result x.1 x.2) OrderedMap.empty

/-- The loop of `loadHeaderIndexList` over the given number of heights. -/
def loadBlockHashes (bs : BlockStore C) :
    ℕ → UInt32 → OrderedMap UInt32 Uint256 → Result (OrderedMap UInt32 Uint256)
  | 0, _, headerIndex => .ok headerIndex
  | n + 1, height, headerIndex => do
    let blockHash ← wrapError s!"LoadBlockHash height {height} error " (bs.getBlockHash height)
    failIf (blockHash = Uint256.empty) (.error s!"LoadBlockHash height {height} hash nil")
    loadBlockHashes bs n (height + 1) (headerIndex.insert height blockHash)

/-- The header index and the number of its entries that come from stored lists. -/
def loadHeaderIndexList (bs : BlockStore C) (lists : OrderedMap UInt32 (List Uint256))
    (currBlockHeight : UInt32) : Result (OrderedMap UInt32 Uint256 × UInt32) := do
  let headerIndex := getHeaderIndexList lists
  let storeIndexCount := UInt32.ofNat headerIndex.size
  let headerIndex ← loadBlockHashes bs (currBlockHeight.toNat + 1 - storeIndexCount.toNat)
    storeIndexCount headerIndex
  return (headerIndex, storeIndexCount)

/-- A start on the stores of this ledger: the height and the header index that it finds. -/
def LedgerStore.restart (s : LedgerStore C) : Result (UInt32 × OrderedMap UInt32 Uint256) := do
  let (_, currBlockHeight) ← wrapError "loadCurrentBlock error LoadCurrentBlock error "
    (orFail s.blockStore.currentBlock (.error "not found"))
  let (headerIndex, _) ← wrapError "loadHeaderIndexList error "
    (loadHeaderIndexList s.blockStore s.headerIndexList currBlockHeight)
  return (currBlockHeight, headerIndex)

theorem toNat_succ (height : UInt32) (h : height.toNat + 1 < 2 ^ 32) :
    (height + 1).toNat = height.toNat + 1 := by
  rw [UInt32.toNat_add, UInt32.toNat_one, Nat.mod_eq_of_lt h]

variable (m : OrderedMap UInt32 Uint256)

theorem get_putList {height list} (h : height.toNat + list.length < 2 ^ 32) (i : UInt32) :
    (putList m height list).get i =
      if height.toNat ≤ i.toNat ∧ i.toNat < height.toNat + list.length then
        list[i.toNat - height.toNat]?
      else m.get i := by
  induction list generalizing m height with
  | nil =>
    rw [if_neg (by simp only [length_nil]; omega)]
    rfl
  | cons a rest ih =>
    rw [length_cons] at h ⊢
    have hsucc := toNat_succ height (by omega)
    rw [putList, ih _ (by omega), hsucc, get_insert]
    by_cases hi : i = height
    · subst hi
      rw [if_neg (by omega), if_pos rfl, if_pos (by omega), Nat.sub_self]
      rfl
    · have hne : i.toNat ≠ height.toNat := fun he => hi (UInt32.toNat_inj.mp he)
      by_cases hin : height.toNat ≤ i.toNat ∧ i.toNat < height.toNat + (rest.length + 1)
      · rw [if_pos (by omega), if_pos hin]
        obtain ⟨d, hd⟩ : ∃ d, i.toNat - height.toNat = d + 1 := ⟨i.toNat - height.toNat - 1, by omega⟩
        have hd' : i.toNat - (height.toNat + 1) = d := by omega
        rw [hd, hd', getElem?_cons_succ]
      · rw [if_neg (by omega), if_neg hi, if_neg hin]

theorem size_putList {height list m} (h : height.toNat + list.length < 2 ^ 32)
    (hfresh : ∀ i : UInt32, height.toNat ≤ i.toNat → m.get i = none) :
    (putList m height list).size = m.size + list.length := by
  induction list generalizing m height with
  | nil => rfl
  | cons a rest ih =>
    rw [length_cons] at h ⊢
    have hsucc := toNat_succ height (by omega)
    have hrest : ∀ i : UInt32, (height + 1).toNat ≤ i.toNat → (m.insert height a).get i = none := by
      intro i hi
      have hne : i ≠ height := by
        rintro rfl
        omega
      rw [get_insert_of_ne m a hne]
      exact hfresh i (by omega)
    rw [putList, ih (by omega) hrest, size_insert (hfresh height le_rfl)]
    omega

/-- The block store has a hash for this height, and under it a block with this hash. -/
def BlockStored (bs : BlockStore C) (height : UInt32) : Prop :=
  ∃ blockHash block, bs.blockHash.get height = some blockHash ∧ blockHash ≠ Uint256.empty ∧
    bs.blocks.get blockHash = some block ∧ block.header.hash C.sha256 = .ok blockHash

/-- With a block stored at each height of the loop, the loop copies their hashes. -/
theorem loadBlockHashes_ok {bs : BlockStore C} {n : ℕ} {height : UInt32} (hn : height.toNat + n < 2 ^ 32)
    (hstored : ∀ i : UInt32, height.toNat ≤ i.toNat → i.toNat < height.toNat + n →
      BlockStored bs i) :
    ∃ m', loadBlockHashes bs n height m = .ok m' ∧ ∀ i : UInt32, m'.get i =
      if height.toNat ≤ i.toNat ∧ i.toNat < height.toNat + n then bs.blockHash.get i
      else m.get i := by
  induction n generalizing m height with
  | zero =>
    refine ⟨m, rfl, fun i => ?_⟩
    rw [if_neg (by omega)]
  | succ n ih =>
    have hsucc := toNat_succ height (by omega)
    obtain ⟨blockHash, -, hget, hne, -⟩ := hstored height le_rfl (by omega)
    have hbound : (height + 1).toNat + n < 2 ^ 32 := by omega
    obtain ⟨m', hload, hm'⟩ := ih (m.insert height blockHash) hbound
      fun i hlo hhi => hstored i (by omega) (by omega)
    refine ⟨m', ?_, fun i => ?_⟩
    · rw [loadBlockHashes, BlockStore.getBlockHash, hget]
      exact bind_ok.mpr ⟨blockHash, rfl, bind_ok.mpr ⟨(), failIf_ok.mpr hne, hload⟩⟩
    · rw [hm' i]
      by_cases hi : i = height
      · subst hi
        rw [if_neg (by omega), if_pos (by omega), get_insert_self, hget]
      · have hne' : i.toNat ≠ height.toNat := fun he => hi (UInt32.toNat_inj.mp he)
        by_cases hin : height.toNat ≤ i.toNat ∧ i.toNat < height.toNat + (n + 1)
        · rw [if_pos (by omega), if_pos hin]
        · rw [if_neg (by omega), if_neg hin, get_insert_of_ne m blockHash hi]

variable (C) in
/-- The part of the ledger that the header index and its lists are about. -/
structure IndexView where
  storedIndexCount : UInt32
  currBlockHeight : UInt32
  headerIndex : OrderedMap UInt32 Uint256
  headerIndexList : OrderedMap UInt32 (List Uint256)
  blockStore : BlockStore C

def LedgerStore.view (s : LedgerStore C) : IndexView C where
  storedIndexCount := s.storedIndexCount
  currBlockHeight := s.currBlockHeight
  headerIndex := s.headerIndex
  headerIndexList := s.headerIndexList
  blockStore := s.blockStore

/-- The stored lists are those from number `a` on and before number `k`, and hold these hashes. -/
structure ListsInv (lists : OrderedMap UInt32 (List Uint256)) (hashes : OrderedMap UInt32 Uint256)
    (a k : ℕ) : Prop where
  missing : a ≤ k
  starts : ∀ x ∈ lists.entries, x.1.toNat < 2000 * k
  decoded : ∀ i : UInt32, (getHeaderIndexList lists).get i =
    if 2000 * a ≤ i.toNat ∧ i.toNat < 2000 * k then hashes.get i else none
  size : (getHeaderIndexList lists).size = 2000 * (k - a)

/-- The counter stands at `k` lists, of which all but the first `a` are stored; the index agrees with
the stored blocks, the last of which may be one ahead of the memory. -/
structure IndexInv (v : IndexView C) (a k : ℕ) : Prop where
  count : v.storedIndexCount.toNat = 2000 * k
  behind : 2000 * k ≤ v.currBlockHeight.toNat
  current : ∃ blockHash height, v.blockStore.currentBlock = some (blockHash, height) ∧
    v.currBlockHeight.toNat ≤ height.toNat ∧ height.toNat ≤ v.currBlockHeight.toNat + 1 ∧
    ∀ i : UInt32, i.toNat ≤ height.toNat → BlockStored v.blockStore i
  index : ∀ i : UInt32, i.toNat ≤ v.currBlockHeight.toNat →
    v.headerIndex.get i = v.blockStore.blockHash.get i
  lists : ListsInv v.headerIndexList v.blockStore.blockHash a k

theorem getHeaderIndexList_insert {lists start} (h : ∀ x ∈ lists.entries, x.1 < start)
    (list : List Uint256) :
    getHeaderIndexList (lists.insert start list) =
      putList (getHeaderIndexList lists) start list := by
  rw [getHeaderIndexList, entries_insert_of_lt h, foldl_concat]
  rfl

section Lists

variable {lists : OrderedMap UInt32 (List Uint256)} {hashes hashes' : OrderedMap UInt32 Uint256}
  {a k : ℕ}

theorem ListsInv.congr (h : ListsInv lists hashes a k)
    (heq : ∀ i : UInt32, i.toNat < 2000 * k → hashes'.get i = hashes.get i) :
    ListsInv lists hashes' a k := by
  refine ⟨h.missing, h.starts, ?_, h.size⟩
  intro i
  rw [h.decoded i]
  split_ifs with hin
  · exact (heq i hin.2).symm
  · rfl

theorem ListsInv.append (h : ListsInv lists hashes a k) {start list}
    (hstart : start.toNat = 2000 * k) (hlen : list.length = 2000) (hbound : 2000 * (k + 1) < 2 ^ 32)
    (hlist : ∀ i : UInt32, 2000 * k ≤ i.toNat → i.toNat < 2000 * (k + 1) →
      list[i.toNat - 2000 * k]? = hashes.get i) :
    ListsInv (lists.insert start list) hashes a (k + 1) := by
  have hmissing := h.missing
  have hstarts : ∀ x ∈ lists.entries, x.1 < start := by
    intro x hx
    have hlt := h.starts x hx
    exact UInt32.lt_iff_toNat_lt.mpr (by omega)
  have hfresh : ∀ i : UInt32, start.toNat ≤ i.toNat → (getHeaderIndexList lists).get i = none := by
    intro i hi
    rw [h.decoded i, if_neg (by omega)]
  refine ⟨by omega, ?_, ?_, ?_⟩
  · intro x hx
    rw [entries_insert_of_lt hstarts] at hx
    rcases mem_append.mp hx with hx | hx
    · have hlt := h.starts x hx
      omega
    · rw [mem_singleton.mp hx]
      change start.toNat < _
      omega
  · intro i
    rw [getHeaderIndexList_insert hstarts, get_putList _ (by omega), hlen, hstart, h.decoded i]
    by_cases hnew : 2000 * k ≤ i.toNat ∧ i.toNat < 2000 * k + 2000
    · rw [if_pos hnew, hlist i hnew.1 (by omega), if_pos (by omega)]
    · rw [if_neg hnew]
      by_cases hin : 2000 * a ≤ i.toNat ∧ i.toNat < 2000 * k
      · rw [if_pos hin, if_pos (by omega)]
      · rw [if_neg hin, if_neg (by omega)]
  · rw [getHeaderIndexList_insert hstarts, size_putList (by omega) hfresh, h.size]
    omega

end Lists

variable {s t : LedgerStore C} {block : LedgerBlock C} {blockHash : Uint256} {a k : ℕ}

theorem IndexInv.batchDue_iff (h : IndexInv s.view a k) :
    s.BatchDue ↔ 2000 * (k + 1) ≤ s.currBlockHeight.toNat := by
  have hcount : s.storedIndexCount.toNat = 2000 * k := h.count
  have hbehind : 2000 * k ≤ s.currBlockHeight.toNat := h.behind
  have hle : s.storedIndexCount ≤ s.currBlockHeight := UInt32.le_iff_toNat_le.mpr (by omega)
  have hsize : HEADER_INDEX_BATCH_SIZE.toNat = 2000 := by decide
  unfold LedgerStore.BatchDue
  rw [UInt32.lt_iff_toNat_lt, UInt32.toNat_sub_of_le _ _ hle]
  omega

/-- A block that only reached the header index leaves everything else as it was. -/
theorem IndexInv.indexed (h : IndexInv s.view a k)
    (hnext : block.header.height.toNat = s.currBlockHeight.toNat + 1) (hdue : ¬ s.BatchDue) :
    IndexInv (s.indexed block blockHash).view a k := by
  refine ⟨?_, h.behind, h.current, ?_, h.lists⟩
  · change (if s.BatchDue then _ else s.storedIndexCount).toNat = 2000 * k
    rw [if_neg hdue]
    exact h.count
  · intro i hi
    have hi' : i.toNat ≤ s.currBlockHeight.toNat := hi
    have hne : i ≠ block.header.height := by
      rintro rfl
      omega
    exact (get_insert_of_ne _ _ hne).trans (h.index i hi)

variable {i : UInt32}

theorem BlockStored.insert {bs current} (hhash : block.header.hash C.sha256 = .ok blockHash)
    (hne : i ≠ block.header.height) (h : BlockStored bs i) :
    BlockStored ⟨current, bs.blockHash.insert block.header.height blockHash,
      bs.blocks.insert blockHash block⟩ i := by
  obtain ⟨oldHash, old, hget, hempty, hold, hoid⟩ := h
  by_cases heq : oldHash = blockHash
  · subst heq
    exact ⟨oldHash, block, by rw [get_insert_of_ne _ _ hne, hget], hempty,
      get_insert_self _ _ _, hhash⟩
  · exact ⟨oldHash, old, by rw [get_insert_of_ne _ _ hne, hget], hempty,
      by rw [get_insert_of_ne _ _ heq, hold], hoid⟩

/-- The list that is stored holds the hashes of the stored blocks. -/
theorem IndexInv.headerList_get (h : IndexInv s.view a k)
    (hnext : block.header.height.toNat = s.currBlockHeight.toNat + 1) (hdue : s.BatchDue)
    (hlo : 2000 * k ≤ i.toNat) (hhi : i.toNat < 2000 * (k + 1)) :
    (s.setHeaderIndex block.header.height blockHash).headerList[i.toNat - 2000 * k]? =
      s.blockStore.blockHash.get i := by
  have hcount : s.storedIndexCount.toNat = 2000 * k := h.count
  have hbound := h.batchDue_iff.mp hdue
  have hlt : s.currBlockHeight.toNat < 2 ^ 32 := s.currBlockHeight.toNat_lt
  obtain ⟨_, height, -, hle, -, hstored⟩ := h.current
  have hle : s.currBlockHeight.toNat ≤ height.toNat := hle
  obtain ⟨hash, -, hget, -, -⟩ := hstored i (by omega)
  have hget : s.blockStore.blockHash.get i = some hash := hget
  have hidx : i.toNat - 2000 * k < HEADER_INDEX_BATCH_SIZE.toNat := by
    rw [show HEADER_INDEX_BATCH_SIZE.toNat = 2000 from by decide]
    omega
  have hheight : s.storedIndexCount + UInt32.ofNat (i.toNat - 2000 * k) = i := by
    apply UInt32.toNat_inj.mp
    rw [UInt32.toNat_add, UInt32.toNat_ofNat']
    omega
  have hne : i ≠ block.header.height := by
    rintro rfl
    omega
  have hindex : s.headerIndex.get i = s.blockStore.blockHash.get i := h.index i (by
    change i.toNat ≤ s.currBlockHeight.toNat
    omega)
  unfold LedgerStore.headerList
  rw [getElem?_map, getElem?_range hidx]
  change some (((s.headerIndex.insert block.header.height blockHash).get
    (s.storedIndexCount + UInt32.ofNat (i.toNat - 2000 * k))).getD Uint256.empty) = _
  rw [hheight, get_insert_of_ne _ _ hne, hindex, hget]
  rfl

theorem IndexInv.stored_upTo (h : IndexInv s.view a k)
    (hnext : block.header.height.toNat = s.currBlockHeight.toNat + 1)
    (hhash : block.header.hash C.sha256 = .ok blockHash) (hempty : blockHash ≠ Uint256.empty)
    (stateStore : StateStore) (hi : i.toNat ≤ block.header.height.toNat) :
    BlockStored (s.blockStored block blockHash stateStore).blockStore i := by
  by_cases hlast : i = block.header.height
  · subst hlast
    exact ⟨blockHash, block, get_insert_self _ _ _, hempty,
      get_insert_self _ _ _, hhash⟩
  · have hne : i.toNat ≠ block.header.height.toNat := fun he => hlast (UInt32.toNat_inj.mp he)
    obtain ⟨_, height, -, hle, -, hstored⟩ := h.current
    have hle : s.currBlockHeight.toNat ≤ height.toNat := hle
    exact (hstored i (by omega)).insert hhash hlast

theorem IndexInv.index_upTo (h : IndexInv s.view a k)
    (hnext : block.header.height.toNat = s.currBlockHeight.toNat + 1) (stateStore : StateStore)
    (hi : i.toNat ≤ block.header.height.toNat) :
    (s.blockStored block blockHash stateStore).headerIndex.get i =
      (s.blockStored block blockHash stateStore).blockStore.blockHash.get i := by
  change (s.headerIndex.insert block.header.height blockHash).get i =
    (s.blockStore.blockHash.insert block.header.height blockHash).get i
  by_cases hlast : i = block.header.height
  · rw [hlast, get_insert_self, get_insert_self]
  · have hne : i.toNat ≠ block.header.height.toNat := fun he => hlast (UInt32.toNat_inj.mp he)
    rw [get_insert_of_ne _ _ hlast, get_insert_of_ne _ _ hlast]
    exact h.index i (by change i.toNat ≤ s.currBlockHeight.toNat; omega)

/-- The hashes of blocks up to the last one do not change when the next block is stored. -/
theorem blockStored_blockHash_get (stateStore : StateStore)
    (hi : i.toNat < block.header.height.toNat) :
    (s.blockStored block blockHash stateStore).blockStore.blockHash.get i =
      s.blockStore.blockHash.get i := by
  have hne : i ≠ block.header.height := by
    rintro rfl
    omega
  exact get_insert_of_ne _ _ hne

section

variable (h : IndexInv s.view a k)
include h

variable (hnext : block.header.height.toNat = s.currBlockHeight.toNat + 1)
include hnext

/-- The lists once the next block is stored; one that is due goes in with it. -/
theorem IndexInv.blockStored_lists (stateStore : StateStore) :
    ListsInv (s.blockStored block blockHash stateStore).headerIndexList
      (s.blockStored block blockHash stateStore).blockStore.blockHash a
      (if s.BatchDue then k + 1 else k) := by
  have hcount : s.storedIndexCount.toNat = 2000 * k := h.count
  have hbehind : 2000 * k ≤ s.currBlockHeight.toNat := h.behind
  have hlt : block.header.height.toNat < 2 ^ 32 := block.header.height.toNat_lt
  have hkept : ListsInv s.headerIndexList
      (s.blockStored block blockHash stateStore).blockStore.blockHash a k :=
    h.lists.congr fun i hi => blockStored_blockHash_get stateStore (by omega)
  by_cases hdue : s.BatchDue
  · have hbound := h.batchDue_iff.mp hdue
    have hlists : (s.blockStored block blockHash stateStore).headerIndexList =
        s.headerIndexList.insert s.storedIndexCount
          (s.setHeaderIndex block.header.height blockHash).headerList := by
      simp only [LedgerStore.blockStored, BlockBatch.commitTo, LedgerStore.blockBatch, if_pos hdue]
      rfl
    rw [if_pos hdue, hlists]
    refine hkept.append hcount (by simp [LedgerStore.headerList, HEADER_INDEX_BATCH_SIZE]) (by omega) ?_
    intro i hlo hhi
    rw [h.headerList_get hnext hdue hlo hhi, blockStored_blockHash_get stateStore (by omega)]
  · have hlists : (s.blockStored block blockHash stateStore).headerIndexList = s.headerIndexList := by
      simp only [LedgerStore.blockStored, BlockBatch.commitTo, LedgerStore.blockBatch, if_neg hdue]
      rfl
    rw [if_neg hdue, hlists]
    exact hkept

/-- Storing the next block keeps the invariant, whether or not the memory then moves on to it. -/
theorem IndexInv.blockStored
    (hhash : block.header.hash C.sha256 = .ok blockHash) (hempty : blockHash ≠ Uint256.empty)
    (stateStore : StateStore) {curr : UInt32}
    (hcurr : curr = s.currBlockHeight ∨ curr = block.header.height) :
    IndexInv { (s.blockStored block blockHash stateStore).view with currBlockHeight := curr } a
      (if s.BatchDue then k + 1 else k) := by
  have hcount : s.storedIndexCount.toNat = 2000 * k := h.count
  have hbehind : 2000 * k ≤ s.currBlockHeight.toNat := h.behind
  have hlt : block.header.height.toNat < 2 ^ 32 := block.header.height.toNat_lt
  have hsize : HEADER_INDEX_BATCH_SIZE.toNat = 2000 := by decide
  have hdue := h.batchDue_iff
  have hbounds : s.currBlockHeight.toNat ≤ curr.toNat ∧ curr.toNat ≤ s.currBlockHeight.toNat + 1 := by
    rcases hcurr with rfl | rfl <;> omega
  refine ⟨?_, ?_, ?_, ?_, h.blockStored_lists hnext stateStore⟩
  · change (if s.BatchDue then s.storedIndexCount + HEADER_INDEX_BATCH_SIZE
      else s.storedIndexCount).toNat = _
    split_ifs with hd
    · have hfull := hdue.mp hd
      rw [UInt32.toNat_add, hcount]
      omega
    · exact hcount
  · change _ ≤ curr.toNat
    split_ifs with hd
    · have hfull := hdue.mp hd
      omega
    · omega
  · refine ⟨blockHash, block.header.height, rfl, ?_, ?_, ?_⟩
    · change curr.toNat ≤ _
      omega
    · change _ ≤ curr.toNat + 1
      omega
    · exact fun i hi => h.stored_upTo hnext hhash hempty stateStore hi
  · intro i hi
    change i.toNat ≤ curr.toNat at hi
    exact h.index_upTo hnext stateStore (by omega)

variable (hempty : ∀ hash, block.header.hash C.sha256 = .ok hash → hash ≠ Uint256.empty)
include hempty

theorem IndexInv.saving_error {result fault e}
    (hdue : s.BatchDue → ¬ FailsAt fault .saveNotify ∧ ¬ FailsAt fault .blockCommit)
    (hpanic : ∀ msg, e ≠ .panic msg) (hsaving : Saving s block result fault (.error e) t) :
    ∃ k', IndexInv t.view a k' := by
  cases hsaving with
  | headerPanic | treePanic => exact absurd rfl (hpanic _)
  | refused hroot => exact ⟨k, h⟩
  | notify hhash hroot hfault =>
    exact ⟨k, h.indexed hnext fun hd => (hdue hd).1 hfault.2⟩
  | commit point hhash hroot htrees hfault hpoint =>
    cases point with
    | saveNotify => exact absurd rfl hpoint
    | blockCommit => exact ⟨k, h.indexed hnext fun hd => (hdue hd).2 hfault⟩
    | eventCommit | stateCommit =>
      exact ⟨_, h.blockStored hnext hhash (hempty _ hhash) _ (.inl rfl)⟩

theorem IndexInv.saved {result fault} (hsaving : Saving s block result fault (.ok blockHash) t) :
    IndexInv (t.setCurrentBlock block.header.height blockHash).view a
      (if s.BatchDue then k + 1 else k) := by
  cases hsaving with
  | saved hhash hroot htrees =>
    exact h.blockStored hnext hhash (hempty _ hhash) _ (.inr rfl)

end

theorem next_toNat {height curr : UInt32} (hold : ¬ height ≤ curr) (hnext : height = curr + 1) :
    height.toNat = curr.toNat + 1 := by
  have hlt := UInt32.lt_iff_toNat_lt.mp (not_le.mp hold)
  have hadd := congrArg UInt32.toNat hnext
  rw [UInt32.toNat_add, UInt32.toNat_one] at hadd
  omega

end Poly.Ledger
