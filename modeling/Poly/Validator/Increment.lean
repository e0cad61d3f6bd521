import Poly.Core.Types

/-! The increment validator: a window of the last blocks against which the transactions of a
proposal are checked, beside the check against the ledger. -/
namespace Poly.Validator

open Lib List UInt32 Nat

variable {K : Keys}

/-- The transaction hashes of the blocks from `baseHeight` on. -/
structure IncrementValidator where
  blocks : List (List Uint256)
  baseHeight : UInt32
  maxBlocks : ℕ
  deriving DecidableEq

def txHashes (block : Block K) : List Uint256 := block.transactions.map Transaction.hash

namespace IncrementValidator

/-- `NewIncrementValidator`. -/
def new (maxBlocks : ℤ) : IncrementValidator :=
  ⟨[], 0, if maxBlocks ≤ 0 then 20 else maxBlocks.toNat⟩

variable (v : IncrementValidator)

def clean : IncrementValidator := { v with blocks := [], baseHeight := 0 }

/-- The heights `[start, end)` of the window. -/
def blockRange : UInt32 × UInt32 :=
  (v.baseHeight, v.baseHeight + UInt32.ofNat v.blocks.length)

/-- A block that does not follow the window is left out. -/
def addBlock (block : Block K) : IncrementValidator :=
  let v := if v.blocks.length = 0 then { v with baseHeight := block.header.height } else v
  if v.baseHeight + UInt32.ofNat v.blocks.length ≠ block.header.height then v
  else
    let v := if v.blocks.length ≥ v.maxBlocks then
      { v with blocks := v.blocks.drop 1, baseHeight := v.baseHeight + 1 } else v
    { v with blocks := v.blocks ++ [txHashes block] }

def verify (txHash : Uint256) (startHeight : UInt32) : Result Unit := do
  failIf (startHeight < v.baseHeight) (.error ("can not do increment validation: startHeight " ++
    s!"{startHeight} < self.baseHeight {v.baseHeight}"))
  failIf (∃ hashes ∈ v.blocks.drop (startHeight - v.baseHeight).toNat, txHash ∈ hashes)
    (.error "tx duplicated")

end IncrementValidator

/-- A proposal whose transactions are being checked. -/
structure ProposalCheck where
  blkNum : UInt32
  txs : List Uint256
  validHeight : UInt32
  deriving DecidableEq

/-- The start height that `processProposalMsg` and `validHeight` choose for a block. -/
def chooseValidHeight (v : IncrementValidator) (blkNum : UInt32) : UInt32 :=
  let height := blkNum - 1
  if height + 1 = v.blockRange.2 then v.blockRange.1 else height

/-- What the checks share: the height of the ledger, the last completed block and the window, and
the questions put to the stateful validator with the heights it read and the answers it gave. -/
structure CheckState where
  ledgerHeight : UInt32
  completedBlockNum : UInt32
  validator : IncrementValidator
  queries : List (Uint256 × UInt32)
  reports : List (Uint256 × UInt32)
  proposals : List ProposalCheck
  deriving DecidableEq

/-- `handleBlockPersistCompleted`. -/
def CheckState.blockCompleted (s : CheckState) (block : Block K) : CheckState :=
  if block.header.height ≤ s.completedBlockNum then s
  else
    { s with
      completedBlockNum := block.header.height
      validator := s.validator.addBlock block }

/-- The transaction is in a block of the chain below height `n`. -/
def InChain (chain : ℕ → Block K) (n : ℕ) (txHash : Uint256) : Prop :=
  ∃ i < n, txHash ∈ txHashes (chain i)

/-- One step of any of the goroutines. The window may be emptied at any time: by a proposal that
does not follow it, by the node's own next proposal or when the node stops. -/
inductive CheckStep (chain : ℕ → Block K) : CheckState → CheckState → Prop
  | grow {s} (h : s.ledgerHeight.toNat + 1 < 2 ^ 32) :
      CheckStep chain s { s with ledgerHeight := s.ledgerHeight + 1 }
  | completed {s} (n : ℕ) (hn : n < 2 ^ 32) : CheckStep chain s (s.blockCompleted (chain n))
  | clean {s} : CheckStep chain s { s with validator := s.validator.clean }
  | query {s} (txHash : Uint256) :
      CheckStep chain s { s with queries := s.queries ++ [(txHash, s.ledgerHeight)] }
  | report {s} {txHash : Uint256} {height : UInt32} (hq : (txHash, height) ∈ s.queries)
      (habsent : ¬ InChain chain (s.ledgerHeight.toNat + 1) txHash) :
      CheckStep chain s { s with reports := s.reports ++ [(txHash, height)] }
  | propose {s} (blkNum : UInt32) (txs : List Uint256) :
      CheckStep chain s { s with proposals :=
        s.proposals ++ [⟨blkNum, txs, chooseValidHeight s.validator blkNum⟩] }

/-- A node that has started with an empty window. -/
def initialCheck (maxBlocks : ℤ) (ledgerHeight completedBlockNum : UInt32) : CheckState :=
  ⟨ledgerHeight, completedBlockNum, .new maxBlocks, [], [], []⟩

inductive CheckReachable (chain : ℕ → Block K) : CheckState → Prop
  | start (maxBlocks : ℤ) (ledgerHeight completedBlockNum : UInt32) :
      CheckReachable chain (initialCheck maxBlocks ledgerHeight completedBlockNum)
  | step {s t} (h : CheckReachable chain s) (hs : CheckStep chain s t) : CheckReachable chain t

/-- The blocks of the chain carry their heights. -/
def Numbered (chain : ℕ → Block K) : Prop :=
  ∀ n < 2 ^ 32, (chain n).header.height = UInt32.ofNat n

section Invariant

/-- The window holds consecutive blocks of the chain, none beyond the last completed one. -/
structure WindowInv (chain : ℕ → Block K) (s : CheckState) : Prop where
  blocks : ∀ i (hi : i < s.validator.blocks.length),
    s.validator.blocks[i] = txHashes (chain (s.validator.baseHeight.toNat + i))
  base : s.validator.blocks = [] → s.validator.baseHeight = 0
  bound : s.validator.blocks ≠ [] →
    s.validator.baseHeight.toNat + s.validator.blocks.length ≤ s.completedBlockNum.toNat + 1
  maxBlocks_pos : 0 < s.validator.maxBlocks

/-- What remains of the choice of a start height: either it is the height before the block, or the
window still starts late enough to refuse it, or it still reaches up to the block, or it has been
emptied. -/
def ChoiceInv (s : CheckState) (p : ProposalCheck) : Prop :=
  p.blkNum = 0 ∨ p.validHeight + 1 = p.blkNum ∨
    (p.validHeight < p.blkNum ∧ p.blkNum.toNat ≤ s.completedBlockNum.toNat + 1 ∧
      (s.validator.blocks = [] ∨ p.validHeight < s.validator.baseHeight ∨
        (s.validator.baseHeight ≤ p.validHeight ∧
          p.blkNum.toNat ≤ s.validator.baseHeight.toNat + s.validator.blocks.length)))

structure CheckInv (chain : ℕ → Block K) (s : CheckState) : Prop where
  window : WindowInv chain s
  queries : ∀ x ∈ s.queries, x.2 ≤ s.ledgerHeight
  reports : ∀ x ∈ s.reports, ¬ InChain chain (x.2.toNat + 1) x.1
  proposals : ∀ p ∈ s.proposals, ChoiceInv s p

namespace IncrementValidator

/-- What adding a block does: it starts a window, is left out, or extends the window, which then may
lose its first block. -/
theorem addBlock_cases (v : IncrementValidator) (block : Block K) (hmax : 0 < v.maxBlocks) :
    (v.blocks = [] ∧ v.addBlock block =
      { v with blocks := [txHashes block], baseHeight := block.header.height }) ∨
    (v.blocks ≠ [] ∧ v.addBlock block = v) ∨
    (v.blocks ≠ [] ∧ v.baseHeight + UInt32.ofNat v.blocks.length = block.header.height ∧
      ∃ k ≤ 1, v.addBlock block =
        { v with
          blocks := v.blocks.drop k ++ [txHashes block]
          baseHeight := v.baseHeight + UInt32.ofNat k }) := by
  by_cases hempty : v.blocks = []
  · refine .inl ⟨hempty, ?_⟩
    have hne : ¬ v.maxBlocks ≤ 0 := not_le.mpr hmax
    simp [addBlock, hempty, hne]
  · have hlen : v.blocks.length ≠ 0 := fun h => hempty (length_eq_zero_iff.mp h)
    by_cases hnext : v.baseHeight + UInt32.ofNat v.blocks.length = block.header.height
    · refine .inr (.inr ⟨hempty, hnext, ?_⟩)
      by_cases hfull : v.maxBlocks ≤ v.blocks.length
      · exact ⟨1, le_rfl, by simp [addBlock, hlen, hnext, hfull]⟩
      · exact ⟨0, zero_le 1, by simp [addBlock, hlen, hnext, hfull]⟩
    · exact .inr (.inl ⟨hempty, by simp [addBlock, hlen, hnext]⟩)

end IncrementValidator

variable {chain : ℕ → Block K} {s t : CheckState} {p : ProposalCheck} {n : ℕ}

/-- A completed block is an old one, or it is added to the window. -/
theorem blockCompleted_cases (hc : Numbered chain) (hn : n < 2 ^ 32) :
    s.blockCompleted (chain n) = s ∨
      (s.completedBlockNum.toNat < n ∧ s.blockCompleted (chain n) =
        { s with
          completedBlockNum := UInt32.ofNat n
          validator := s.validator.addBlock (chain n) }) := by
  have hto : (UInt32.ofNat n).toNat = n := toNat_ofNat_of_lt' hn
  unfold CheckState.blockCompleted
  rw [hc n hn]
  by_cases hold : UInt32.ofNat n ≤ s.completedBlockNum
  · exact .inl (if_pos hold)
  · refine .inr ⟨?_, if_neg hold⟩
    rw [le_iff_toNat_le] at hold
    omega

theorem WindowInv.blockCompleted (hc : Numbered chain) (hw : WindowInv chain s) (hn : n < 2 ^ 32) :
    WindowInv chain (s.blockCompleted (chain n)) := by
  have hto : (UInt32.ofNat n).toNat = n := UInt32.toNat_ofNat_of_lt' hn
  rcases blockCompleted_cases hc hn with h | ⟨hnew, h⟩
  · rw [h]
    exact hw
  rw [h]
  rcases s.validator.addBlock_cases (chain n) hw.maxBlocks_pos with
    ⟨-, hv⟩ | ⟨hne, hv⟩ | ⟨hne, hnext, k, hk, hv⟩
  · constructor <;> simp only [hv, hc n hn]
    · intro i hi
      obtain rfl : i = 0 := by simpa using hi
      simp [hto]
    · exact nofun
    · intro _
      simp [hto]
    · exact hw.maxBlocks_pos
  · have hbound := hw.bound hne
    constructor <;> simp only [hv, hto]
    · exact hw.blocks
    · exact hw.base
    · intro _
      omega
    · exact hw.maxBlocks_pos
  · have hbound := hw.bound hne
    have hlen := length_pos_of_ne_nil hne
    rw [hc n hn] at hnext
    have hend : s.validator.baseHeight.toNat + s.validator.blocks.length = n := by
      have hsum := congrArg UInt32.toNat hnext
      rw [UInt32.toNat_add, UInt32.toNat_ofNat'] at hsum
      omega
    have hbase : (s.validator.baseHeight + UInt32.ofNat k).toNat =
        s.validator.baseHeight.toNat + k := by
      rw [UInt32.toNat_add, UInt32.toNat_ofNat']
      omega
    constructor <;> simp only [hv, hto, hbase]
    · intro i hi
      simp only [length_append, length_drop, length_singleton] at hi
      by_cases hlast : i < (s.validator.blocks.drop k).length
      · rw [getElem_append_left hlast, getElem_drop, hw.blocks, add_assoc]
      · rw [getElem_append_right (not_lt.mp hlast)]
        rw [length_drop] at hlast
        have hi' : s.validator.baseHeight.toNat + k + i = n := by omega
        simp [hi']
    · exact fun h => absurd h (by simp)
    · intro _
      simp only [length_append, length_drop, length_singleton]
      omega
    · exact hw.maxBlocks_pos

/-- A block that completes leaves every choice justified: a window that starts anew starts above the
proposal's block. -/
theorem ChoiceInv.blockCompleted (hc : Numbered chain) (hw : WindowInv chain s) (hn : n < 2 ^ 32)
    (hp : ChoiceInv s p) : ChoiceInv (s.blockCompleted (chain n)) p := by
  have hto : (UInt32.ofNat n).toNat = n := UInt32.toNat_ofNat_of_lt' hn
  rcases blockCompleted_cases hc hn with h | ⟨hnew, h⟩
  · rw [h]
    exact hp
  rw [h]
  rcases hp with hzero | hprev | ⟨hlt, hle, hcover⟩
  · exact .inl hzero
  · exact .inr (.inl hprev)
  refine .inr (.inr ⟨hlt, by simp only [hto]; omega, ?_⟩)
  have hltn := UInt32.lt_iff_toNat_lt.mp hlt
  rcases s.validator.addBlock_cases (chain n) hw.maxBlocks_pos with
    ⟨-, hv⟩ | ⟨hne, hv⟩ | ⟨hne, hnext, k, hk, hv⟩
  · simp only [hv, hc n hn]
    refine .inr (.inl (UInt32.lt_iff_toNat_lt.mpr ?_))
    omega
  · simpa only [hv] using hcover
  · have hbound := hw.bound hne
    have hlen := length_pos_of_ne_nil hne
    have hbase : (s.validator.baseHeight + UInt32.ofNat k).toNat =
        s.validator.baseHeight.toNat + k := by
      rw [UInt32.toNat_add, UInt32.toNat_ofNat']
      omega
    simp only [hv, hbase, UInt32.lt_iff_toNat_lt, UInt32.le_iff_toNat_le, length_append,
      length_drop, length_singleton] at hcover ⊢
    rcases hcover with hnil | hlow | ⟨hge, hreach⟩
    · exact absurd hnil hne
    · exact .inr (.inl (by omega))
    · by_cases hslide : p.validHeight.toNat < s.validator.baseHeight.toNat + k
      · exact .inr (.inl hslide)
      · exact .inr (.inr ⟨by omega, by omega⟩)

theorem choiceInv_propose (hw : WindowInv chain s) (blkNum : UInt32) (txs : List Uint256) :
    ChoiceInv s ⟨blkNum, txs, chooseValidHeight s.validator blkNum⟩ := by
  unfold ChoiceInv chooseValidHeight IncrementValidator.blockRange
  have hprev : blkNum - 1 + 1 = blkNum := UInt32.sub_add_cancel blkNum 1
  simp only [hprev]
  split_ifs with hend
  · by_cases hne : s.validator.blocks = []
    · left
      rw [hend, hne, hw.base hne]
      rfl
    · have hbound := hw.bound hne
      have hlen := length_pos_of_ne_nil hne
      have hcompleted := s.completedBlockNum.toNat_lt
      have hsum := congrArg UInt32.toNat hend
      rw [UInt32.toNat_add, UInt32.toNat_ofNat'] at hsum
      by_cases hwrap : s.validator.baseHeight.toNat + s.validator.blocks.length = 2 ^ 32
      · left
        apply UInt32.toNat_inj.mp
        have : (0 : UInt32).toNat = 0 := rfl
        omega
      · right
        right
        simp only [UInt32.lt_iff_toNat_lt, UInt32.le_iff_toNat_le]
        refine ⟨by omega, by omega, .inr (.inr ⟨le_rfl, by omega⟩)⟩
  · exact .inr (.inl hprev)

theorem CheckInv.step (hc : Numbered chain) (hi : CheckInv chain s) (h : CheckStep chain s t) :
    CheckInv chain t := by
  cases h with
  | grow hlt =>
    refine ⟨⟨hi.window.blocks, hi.window.base, hi.window.bound, hi.window.maxBlocks_pos⟩, ?_,
      hi.reports, hi.proposals⟩
    intro x hx
    have hle := UInt32.le_iff_toNat_le.mp (hi.queries x hx)
    have hgrown : (s.ledgerHeight + 1).toNat = s.ledgerHeight.toNat + 1 := by
      exact mod_eq_of_lt hlt
    refine UInt32.le_iff_toNat_le.mpr ?_
    rw [hgrown]
    omega
  | completed n hn =>
    refine ⟨hi.window.blockCompleted hc hn, ?_, ?_, ?_⟩
    · rcases blockCompleted_cases (s := s) hc hn with h | ⟨-, h⟩ <;> rw [h] <;> exact hi.queries
    · rcases blockCompleted_cases (s := s) hc hn with h | ⟨-, h⟩ <;> rw [h] <;> exact hi.reports
    · intro p hp
      refine ChoiceInv.blockCompleted hc hi.window hn (hi.proposals p ?_)
      rcases blockCompleted_cases (s := s) hc hn with h | ⟨-, h⟩ <;> rw [h] at hp <;> exact hp
  | clean =>
    refine ⟨⟨?_, fun _ => rfl, absurd rfl, hi.window.maxBlocks_pos⟩, hi.queries,
      hi.reports, ?_⟩
    · intro i hi
      exact absurd hi (not_lt_zero i)
    · intro p hp
      rcases hi.proposals p hp with hzero | hprev | ⟨hlt, hle, -⟩
      · exact .inl hzero
      · exact .inr (.inl hprev)
      · exact .inr (.inr ⟨hlt, hle, .inl rfl⟩)
  | query txHash =>
    refine ⟨⟨hi.window.blocks, hi.window.base, hi.window.bound, hi.window.maxBlocks_pos⟩, ?_,
      hi.reports, hi.proposals⟩
    intro x hx
    rcases mem_append.mp hx with hx | hx
    · exact hi.queries x hx
    · cases mem_singleton.mp hx
      exact le_rfl
  | @report txHash height hq habsent =>
    refine ⟨⟨hi.window.blocks, hi.window.base, hi.window.bound, hi.window.maxBlocks_pos⟩,
      hi.queries, ?_, hi.proposals⟩
    intro x hx
    rcases mem_append.mp hx with hx | hx
    · exact hi.reports x hx
    · cases mem_singleton.mp hx
      rintro ⟨i, hlt, hmem⟩
      have hle := UInt32.le_iff_toNat_le.mp (hi.queries _ hq)
      exact habsent ⟨i, by simp only at hlt hle ⊢; omega, hmem⟩
  | propose blkNum txs =>
    refine ⟨⟨hi.window.blocks, hi.window.base, hi.window.bound, hi.window.maxBlocks_pos⟩,
      hi.queries, hi.reports, ?_⟩
    intro p hp
    rcases mem_append.mp hp with hp | hp
    · exact hi.proposals p hp
    · cases mem_singleton.mp hp
      exact choiceInv_propose hi.window blkNum txs

theorem checkInv_reachable (hc : Numbered chain) (h : CheckReachable chain s) :
    CheckInv chain s := by
  induction h with
  | start maxBlocks ledgerHeight completedBlockNum =>
    refine ⟨⟨?_, fun _ => rfl, absurd rfl, ?_⟩, ?_, ?_, ?_⟩
    · intro i hi
      exact absurd hi (not_lt_zero i)
    · simp only [initialCheck, IncrementValidator.new]
      split_ifs <;> omega
    · exact nofun
    · exact nofun
    · exact nofun
  | step _ hs ih => exact ih.step hc hs

end Invariant

variable {chain : ℕ → Block K} {s : CheckState} {p : ProposalCheck} {txHash : Uint256}

theorem verify_ok {v : IncrementValidator} {startHeight : UInt32}
    (h : v.verify txHash startHeight = .ok ()) :
    v.baseHeight ≤ startHeight ∧
      ∀ hashes ∈ v.blocks.drop (startHeight - v.baseHeight).toNat, txHash ∉ hashes := by
  obtain ⟨_, hstart, h⟩ := bind_ok.mp h
  refine ⟨not_lt.mp (failIf_ok.mp hstart), fun hashes hmem htx => ?_⟩
  exact failIf_ok.mp h ⟨hashes, hmem, htx⟩

theorem verify_empty {v : IncrementValidator} (hv : v.blocks = []) (hbase : v.baseHeight = 0)
    (startHeight : UInt32) : v.verify txHash startHeight = .ok () := by
  refine bind_ok.mpr ⟨(), failIf_ok.mpr ?_, failIf_ok.mpr ?_⟩
  · rw [hbase]
    exact not_lt.mpr (le_iff_toNat_le.mpr (zero_le _))
  · rw [hv]
    simp

/-- A window that reaches from the start height up to the block sees every block in between. -/
theorem not_inChain_of_covered (hw : WindowInv chain s) {startHeight blkNum : UInt32}
    (hverify : s.validator.verify txHash startHeight = .ok ())
    (hreach : blkNum.toNat ≤ s.validator.baseHeight.toNat + s.validator.blocks.length)
    (hbelow : ¬ InChain chain (startHeight.toNat + 1) txHash) :
    ¬ InChain chain blkNum.toNat txHash := by
  obtain ⟨hbase, hwindow⟩ := verify_ok hverify
  rintro ⟨i, hi, hmem⟩
  by_cases hlow : i < startHeight.toNat + 1
  · exact hbelow ⟨i, hlow, hmem⟩
  · have hbase' := UInt32.le_iff_toNat_le.mp hbase
    have hsub := UInt32.toNat_sub_of_le _ _ hbase
    have hindex : i - s.validator.baseHeight.toNat < s.validator.blocks.length := by omega
    have hblock := hw.blocks _ hindex
    rw [show s.validator.baseHeight.toNat + (i - s.validator.baseHeight.toNat) = i by omega]
      at hblock
    refine hwindow _ (mem_drop_iff_getElem.mpr ?_) (hblock ▸ hmem)
    exact ⟨i - s.validator.baseHeight.toNat - (startHeight - s.validator.baseHeight).toNat,
      by omega, by congr 1; omega⟩

/-- A transaction that the stateful validator did not find at the start height of its proposal, and
that the window lets pass, is in no block below the proposal's, if the window was not empty or the
start height was the one before the block. An empty window lets every transaction pass. -/
theorem verify_excludes_chain (hc : Numbered chain) (h : CheckReachable chain s)
    (hp : p ∈ s.proposals) (_htx : txHash ∈ p.txs) {height : UInt32}
    (hr : (txHash, height) ∈ s.reports) (hh : p.validHeight ≤ height) :
    (s.validator.verify txHash p.validHeight = .ok () →
      s.validator.blocks ≠ [] ∨ p.validHeight + 1 = p.blkNum →
      ¬ InChain chain p.blkNum.toNat txHash) ∧
    (s.validator.blocks = [] → s.validator.verify txHash p.validHeight = .ok ()) := by
  have hi := checkInv_reachable hc h
  have hbelow : ¬ InChain chain (p.validHeight.toNat + 1) txHash := by
    rintro ⟨i, hlt, hmem⟩
    have hle := UInt32.le_iff_toNat_le.mp hh
    exact hi.reports _ hr ⟨i, by simp only; omega, hmem⟩
  have hprev : p.validHeight + 1 = p.blkNum → ¬ InChain chain p.blkNum.toNat txHash := by
    rintro hblk ⟨i, hlt, hmem⟩
    rw [← hblk] at hlt
    exact hbelow ⟨i, lt_of_lt_of_le hlt (mod_le _ _), hmem⟩
  refine ⟨?_, fun hempty => verify_empty hempty (hi.window.base hempty) _⟩
  intro hverify hwhen
  rcases hi.proposals p hp with hzero | hblk | ⟨-, -, hcover⟩
  · rintro ⟨i, hlt, -⟩
    rw [hzero] at hlt
    exact not_lt_zero i hlt
  · exact hprev hblk
  · rcases hwhen with hne | hblk
    · rcases hcover with hempty | hlow | ⟨-, hreach⟩
      · exact absurd hempty hne
      · exact absurd (verify_ok hverify).1 (UInt32.not_le.mpr hlow)
      · exact not_inChain_of_covered hi.window hverify hreach hbelow
    · exact hprev hblk

/-- A chain whose block 2 holds the one transaction with the hash of all zeros. -/
def sampleBlocks (n : ℕ) : Block openKeys where
  header := ⟨⟨0, 0, Uint256.empty, Uint256.empty, Uint256.empty, Uint256.empty, 0, UInt32.ofNat n, 0,
    [], Address.empty⟩, [], []⟩
  transactions := if n = 2 then
    [⟨⟨0, 0, 0, 0, 0, [], Address.empty⟩, [], [], Uint256.empty, []⟩] else []

def sampleOther : Uint256 := zeroPad 32 [7]

/-- The stateful validator answers for two transactions at height 1. Then the blocks 1 to 3 complete
and block 4 is proposed with both. -/
def sampleChecked : CheckState :=
  { initialCheck 20 3 3 with
    validator := ⟨[[], [Uint256.empty], []], 1, 20⟩
    queries := [(Uint256.empty, 1), (sampleOther, 1)]
    reports := [(Uint256.empty, 1), (sampleOther, 1)]
    proposals := [⟨4, [Uint256.empty, sampleOther], 1⟩] }

theorem sampleBlocks_absent {n : ℕ} (hn : n ≤ 2) (txHash : Uint256) :
    ¬ InChain sampleBlocks n txHash := by
  rintro ⟨i, hi, hmem⟩
  have hne : i ≠ 2 := by omega
  simp [sampleBlocks, txHashes, hne] at hmem

theorem sampleChecked_reachable : CheckReachable sampleBlocks sampleChecked := by
  have h₁ : CheckReachable sampleBlocks _ := .start 20 1 0
  have h₂ := (h₁.step (.query Uint256.empty)).step (.query sampleOther)
  have h₃ := h₂.step (.report (mem_cons_self) (sampleBlocks_absent le_rfl _))
  have h₄ := h₃.step (.report (mem_cons_of_mem _ mem_cons_self)
    (sampleBlocks_absent le_rfl _))
  have h₅ := (h₄.step (.grow (by decide))).step (.grow (by decide))
  have h₆ := ((h₅.step (.completed 1 (by decide))).step (.completed 2 (by decide))).step
    (.completed 3 (by decide))
  exact h₆.step (.propose 4 [Uint256.empty, sampleOther])

/-- Emptying the window between the choice of the start height and the check lets a transaction of
block 2 pass for block 4. -/
theorem verify_after_clean : ∃ s, CheckReachable sampleBlocks s ∧ Numbered sampleBlocks ∧
    ⟨4, [Uint256.empty, sampleOther], 1⟩ ∈ s.proposals ∧ (Uint256.empty, 1) ∈ s.reports ∧
    s.validator.verify Uint256.empty 1 = .ok () ∧ InChain sampleBlocks 4 Uint256.empty := by
  refine ⟨_, sampleChecked_reachable.step .clean, fun _ _ => rfl, ?_, ?_, rfl, 2, by decide, ?_⟩
  · exact mem_singleton.mpr rfl
  · exact mem_cons_self
  · exact mem_singleton.mpr rfl

/-- With the window in place a transaction that passes is new. -/
theorem verify_excludes_chain_sample :
    sampleChecked.validator.verify sampleOther 1 = .ok () ∧ sampleChecked.validator.blocks ≠ [] ∧
      ¬ InChain sampleBlocks 4 sampleOther := by
  have hverify : sampleChecked.validator.verify sampleOther 1 = .ok () := by decide +kernel
  have hwindow : sampleChecked.validator.blocks ≠ [] := cons_ne_nil _ _
  refine ⟨hverify, hwindow, ?_⟩
  exact (verify_excludes_chain (fun _ _ => rfl) sampleChecked_reachable
    (mem_singleton.mpr rfl) (mem_cons_of_mem _ mem_cons_self)
    (mem_cons_of_mem _ mem_cons_self) le_rfl).1 hverify (.inl hwindow)

end Poly.Validator
