import Poly.Vbft.Messages

/-! Block synchronisation: the syncer collects, for each height, one block from each peer, and hands
on a block once enough of them name its proposer. -/
namespace Poly.Vbft

open Lib List OrderedMap

variable {K : Keys}

/-- The blocks that peers sent for one height, by peer. -/
abbrev BlockFromPeers (K : Keys) := OrderedMap UInt32 (VbftBlock K)

/-- The first loop of `blockConsensusDone`, over the blocks in some order. -/
def countProposers (blks : List (UInt32 × VbftBlock K)) : OrderedMap UInt32 ℕ :=
  blks.foldl (fun proposers x =>
    proposers.insert x.2.proposer ((proposers.get x.2.proposer).getD 0 + 1)) OrderedMap.empty

/-- The orders in which the loops of one call go over their maps. -/
structure IterationOrder (blks : BlockFromPeers K) where
  counted : List (UInt32 × VbftBlock K)
  counted_perm : counted.Perm blks.entries
  proposers : List (UInt32 × ℕ)
  proposers_perm : proposers.Perm (countProposers counted).entries
  /-- The order of the inner loop, which may differ from proposer to proposer. -/
  scanned : UInt32 → List (UInt32 × VbftBlock K)
  scanned_perm : ∀ proposerId, (scanned proposerId).Perm blks.entries

/-- `c` is the number of faulty peers that the chain configuration allows. -/
def blockConsensusDone (c : ℕ) {blks : BlockFromPeers K} (order : IterationOrder blks) :
    Option (VbftBlock K) :=
  order.proposers.findSome? fun x =>
    if x.2 > c then ((order.scanned x.1).find? fun y => y.2.proposer = x.1).map Prod.snd else none

/-- How many peers sent a block of this proposer. -/
def proposerCount (blks : BlockFromPeers K) (proposerId : UInt32) : ℕ :=
  blks.entries.countP fun x => x.2.proposer = proposerId

section Agreement

variable (sha256 : Bytes → Uint256)

/-- How many peers sent a block with the hash of this one. -/
def hashCount (blks : BlockFromPeers K) (blk : VbftBlock K) : ℕ :=
  blks.entries.countP fun x => x.2.block.header.hash sha256 = blk.block.header.hash sha256

/-- Some peer outside `faulty` sent a block with the hash of this one. -/
def SentByHonest (blks : BlockFromPeers K) (faulty : Finset UInt32) (blk : VbftBlock K) : Prop :=
  ∃ x ∈ blks.entries, x.1 ∉ faulty ∧ x.2.block.header.hash sha256 = blk.block.header.hash sha256

end Agreement

theorem get_countProposers (blks : List (UInt32 × VbftBlock K)) (proposerId : UInt32) :
    ((countProposers blks).get proposerId).getD 0 =
      blks.countP fun x => x.2.proposer = proposerId := by
  induction blks using List.reverseRecOn with
  | nil => rfl
  | append_singleton blks x ih =>
    rw [countProposers, foldl_concat, ← countProposers, get_insert]
    by_cases h : proposerId = x.2.proposer
    · subst h
      rw [if_pos rfl, ih]
      simp
    · rw [if_neg h, ih]
      simp [Ne.symm h]

variable {blks : BlockFromPeers K}

/-- Whatever the order, a proposer is listed with the number of peers that sent a block of it. -/
theorem mem_proposers (order : IterationOrder blks) {x} (h : x ∈ order.proposers) :
    x.2 = proposerCount blks x.1 := by
  have hget := get_eq_some.mpr ((order.proposers_perm.mem_iff).mp h)
  have hcount := get_countProposers order.counted x.1
  rw [hget, Option.getD_some] at hcount
  rw [hcount, order.counted_perm.countP_eq]
  rfl

/-- The block handed on is one of the received ones, and its proposer was named often enough. -/
theorem blockConsensusDone_some {c : ℕ} {order : IterationOrder blks} {blk : VbftBlock K}
    (h : blockConsensusDone c order = some blk) :
    ∃ x ∈ blks.entries, x.2 = blk ∧ c < proposerCount blks blk.proposer := by
  obtain ⟨x, hx, h⟩ := exists_of_findSome?_eq_some h
  by_cases hc : x.2 > c
  · rw [if_pos hc] at h
    obtain ⟨y, hy, rfl⟩ := Option.map_eq_some_iff.mp h
    have hproposer : y.2.proposer = x.1 := by simpa using find?_some hy
    refine ⟨y, ((order.scanned_perm x.1).mem_iff).mp (mem_of_find?_eq_some hy), rfl, ?_⟩
    rw [hproposer, ← mem_proposers order hx]
    exact hc
  · rw [if_neg hc] at h
    cases h

theorem exists_perm_cons {α : Type} {l} {a : α} (h : a ∈ l) : ∃ t, (a :: t).Perm l := by
  obtain ⟨s, t, rfl⟩ := append_of_mem h
  exact ⟨s ++ t, perm_middle.symm⟩

/-- Any received block whose proposer was named often enough can be the one handed on. -/
theorem exists_order {c x} (hx : x ∈ blks.entries) (hc : c < proposerCount blks x.2.proposer) :
    ∃ order : IterationOrder blks, blockConsensusDone c order = some x.2 := by
  obtain ⟨rest, hrest⟩ := exists_perm_cons hx
  have hcount := get_countProposers blks.entries x.2.proposer
  have hmem : (x.2.proposer, proposerCount blks x.2.proposer) ∈
      (countProposers blks.entries).entries := by
    cases hget : (countProposers blks.entries).get x.2.proposer with
    | none =>
      rw [hget] at hcount
      exact absurd hcount.symm (Nat.ne_of_gt (Nat.zero_lt_of_lt hc))
    | some n =>
      rw [hget] at hcount
      subst hcount
      exact get_eq_some.mp hget
  obtain ⟨others, hothers⟩ := exists_perm_cons hmem
  refine ⟨⟨blks.entries, .refl _, _, hothers, fun _ => x :: rest, fun _ => hrest⟩, ?_⟩
  simp [blockConsensusDone, hc]

theorem sentByHonest_of_lt {sha256 : Bytes → Uint256} {c blk} (h : c < hashCount sha256 blks blk)
    {faulty} (hf : faulty.card ≤ c) : SentByHonest sha256 blks faulty blk := by
  by_contra hno
  -- otherwise the senders of this hash are distinct faulty peers
  let senders := (blks.entries.filter fun x =>
    x.2.block.header.hash sha256 = blk.block.header.hash sha256).map Prod.fst
  have hnodup : senders.Nodup := by
    have hkeys := blks.keys_nodup
    exact hkeys.sublist (filter_sublist.map Prod.fst)
  have hsub : senders.toFinset ⊆ faulty := by
    intro peer hpeer
    obtain ⟨x, hx, rfl⟩ := mem_map.mp (mem_toFinset.mp hpeer)
    obtain ⟨hx, hhash⟩ := mem_filter.mp hx
    by_contra hfaulty
    exact hno ⟨x, hx, hfaulty, by simpa using hhash⟩
  have hcard := Finset.card_le_card hsub
  have hlen : senders.length = hashCount sha256 blks blk := by
    rw [hashCount, countP_eq_length_filter, length_map]
  rw [toFinset_card_of_nodup hnodup] at hcard
  omega

/-- The block that is handed on has more than `c` senders, and so an honest one if at most `c` peers
are faulty, just when every received block of a proposer that more than `c` peers name has. -/
theorem blockConsensusDone_agreement (sha256 : Bytes → Uint256) (c : ℕ) (blks : BlockFromPeers K) :
    (∀ (order : IterationOrder blks) (blk : VbftBlock K), blockConsensusDone c order = some blk →
      c < hashCount sha256 blks blk ∧
        ∀ faulty : Finset UInt32, faulty.card ≤ c → SentByHonest sha256 blks faulty blk) ↔
    ∀ x ∈ blks.entries, c < proposerCount blks x.2.proposer → c < hashCount sha256 blks x.2 := by
  constructor
  · intro h x hx hc
    obtain ⟨order, horder⟩ := exists_order hx hc
    exact (h order x.2 horder).1
  · intro h order blk hblk
    obtain ⟨x, hx, rfl, hc⟩ := blockConsensusDone_some hblk
    exact ⟨h x hx hc, fun faulty hf => sentByHonest_of_lt (h x hx hc) hf⟩

/-- A block without transactions, made different by its nonce. -/
def sampleSynced (nonce : UInt64) : VbftBlock openKeys where
  block := ⟨⟨⟨0, 0, Uint256.empty, Uint256.empty, Uint256.empty, Uint256.empty, 0, 7, nonce, [],
    Address.empty⟩, [], []⟩, []⟩
  emptyBlock := none
  proposer := 4

/-- Peers 1 and 2 sent different blocks of proposer 4. -/
def sampleReceived : BlockFromPeers openKeys :=
  (OrderedMap.empty.insert 1 (sampleSynced 1)).insert 2 (sampleSynced 2)

/-- Every loop in the order of the keys. -/
def keyOrder (blks : BlockFromPeers K) : IterationOrder blks :=
  ⟨blks.entries, .refl _, _, .refl _, fun _ => blks.entries, fun _ => .refl _⟩

/-- Of two blocks of one proposer the one that only the faulty peer 1 sent is handed on. -/
theorem blockConsensusDone_equivocation :
    blockConsensusDone 1 (keyOrder sampleReceived) = some (sampleSynced 1) ∧
      hashCount (fun bs => zeroPad 32 bs.reverse) sampleReceived (sampleSynced 1) = 1 ∧
      ({1} : Finset UInt32).card ≤ 1 ∧
      ¬ SentByHonest (fun bs => zeroPad 32 bs.reverse) sampleReceived {1} (sampleSynced 1) := by
  refine ⟨rfl, by decide +kernel, by decide, ?_⟩
  rintro ⟨x, hx, hhonest, hhash⟩
  rcases hx with _ | ⟨_, _ | ⟨_, hx⟩⟩
  · exact hhonest (by decide)
  · revert hhash
    decide +kernel
  · cases hx

/-- What the syncer keeps between messages. -/
structure Syncer (K : Keys) where
  nextReqBlkNum : UInt32
  targetBlkNum : UInt32
  pendingBlocks : OrderedMap UInt32 (BlockFromPeers K)

/-- What the rest of the node answers while a message is handled. -/
structure SyncEnv (K : Keys) where
  c : ℕ
  currentBlockHeight : UInt32
  getBlock : UInt32 → Option (VbftBlock K)
  /-- Whether `fastForwardBlock` takes the block. -/
  fastForwards : VbftBlock K → Bool
  order : (blks : BlockFromPeers K) → IterationOrder blks

namespace Syncer

variable (env : SyncEnv K)

def pendingAt (s : Syncer K) (blkNum : UInt32) : BlockFromPeers K :=
  (s.pendingBlocks.get blkNum).getD OrderedMap.empty

/-- The block for the next height: the ledger's, or the one that the peers agree on. -/
def nextBlock (s : Syncer K) : Option (VbftBlock K) :=
  match if s.nextReqBlkNum ≤ env.currentBlockHeight then env.getBlock s.nextReqBlkNum else none with
  | some blk => some blk
  | none => blockConsensusDone env.c (env.order (s.pendingAt s.nextReqBlkNum))

/-- The loop that hands on blocks, with the blocks it gave to `fastForwardBlock`. At most `n` rounds
are left. -/
def forward : ℕ → Syncer K → List (VbftBlock K) × Syncer K
  | 0, s => ([], s)
  | n + 1, s =>
    if s.nextReqBlkNum ≤ s.targetBlkNum then
      match s.nextBlock env with
      | none => ([], s)
      | some blk =>
        if env.fastForwards blk then
          let (handed, s') := forward n { s with
            pendingBlocks := s.pendingBlocks.erase s.nextReqBlkNum
            nextReqBlkNum := s.nextReqBlkNum + 1 }
          (blk :: handed, s')
        else ([blk], s)
    else ([], s)

/-- Where all blocks up to the target have been handed on, the request is done. -/
def finish (s : Syncer K) : Syncer K :=
  if s.nextReqBlkNum > s.targetBlkNum then { s with nextReqBlkNum := 1, targetBlkNum := 0 } else s

/-- A block from a peer. -/
def receive (s : Syncer K) (fromPeer : UInt32) (block : VbftBlock K) :
    List (VbftBlock K) × Syncer K :=
  let blkNum := block.block.header.height
  if blkNum < s.nextReqBlkNum then ([], s)
  else
    let s := { s with pendingBlocks :=
      s.pendingBlocks.insert blkNum ((s.pendingAt blkNum).insert fromPeer block) }
    if blkNum ≠ s.nextReqBlkNum then ([], s)
    else
      let (handed, s) := forward env (s.targetBlkNum.toNat + 1 - s.nextReqBlkNum.toNat) s
      (handed, s.finish)

/-- `onNewBlockSyncReq`, as far as it concerns the heights. -/
def request (s : Syncer K) (startBlockNum targetBlockNum : UInt32) : Syncer K :=
  if targetBlockNum < s.targetBlkNum then s
  else
    { s with
      nextReqBlkNum := if s.nextReqBlkNum = 1 then startBlockNum else s.nextReqBlkNum
      targetBlkNum := targetBlockNum }

/-- `newSyncer`. -/
def new : Syncer K := ⟨1, 0, OrderedMap.empty⟩

end Syncer

/-- A syncer after some requests and messages: `sent` are the blocks received so far, with their
senders, and `handed` those given to `fastForwardBlock`, each with what the rest of the node
answered. -/
inductive SyncRun : List (UInt32 × VbftBlock K) → List (SyncEnv K × VbftBlock K) → Syncer K → Prop
  | new : SyncRun [] [] Syncer.new
  | request {sent handed s} (startBlockNum targetBlockNum : UInt32) (h : SyncRun sent handed s) :
      SyncRun sent handed (s.request startBlockNum targetBlockNum)
  | receive {sent handed s} (env : SyncEnv K) (fromPeer : UInt32) (block : VbftBlock K)
      (h : SyncRun sent handed s) :
      SyncRun (sent ++ [(fromPeer, block)])
        (handed ++ (s.receive env fromPeer block).1.map (env, ·)) (s.receive env fromPeer block).2

/-- A pending block was sent by the peer it stands under, for the height it stands under. -/
def PendingSent (sent : List (UInt32 × VbftBlock K)) (s : Syncer K) : Prop :=
  ∀ blkNum, ∀ x ∈ (s.pendingAt blkNum).entries, x ∈ sent ∧ x.2.block.header.height = blkNum

/-- A block that the peers agreed on, out of blocks that they sent for one height. -/
def AgreedOn (sent : List (UInt32 × VbftBlock K)) (c : ℕ) (blk : VbftBlock K) : Prop :=
  ∃ (blkNum : UInt32) (blks : BlockFromPeers K) (order : IterationOrder blks),
    (∀ x ∈ blks.entries, x ∈ sent ∧ x.2.block.header.height = blkNum) ∧
    blockConsensusDone c order = some blk

/-- A block that is handed on comes from the ledger or from the peers. -/
def Justified (sent : List (UInt32 × VbftBlock K)) (env : SyncEnv K) (blk : VbftBlock K) : Prop :=
  (∃ blkNum, env.getBlock blkNum = some blk) ∨ AgreedOn sent env.c blk

variable {sent : List (UInt32 × VbftBlock K)} {s : Syncer K} {env : SyncEnv K}

theorem nextBlock_justified (hs : PendingSent sent s) {blk} (h : s.nextBlock env = some blk) :
    Justified sent env blk := by
  unfold Syncer.nextBlock at h
  split at h
  next blk' hledger =>
    cases h
    by_cases hle : s.nextReqBlkNum ≤ env.currentBlockHeight
    · rw [if_pos hle] at hledger
      exact .inl ⟨_, hledger⟩
    · rw [if_neg hle] at hledger
      cases hledger
  · exact .inr ⟨s.nextReqBlkNum, _, _, hs s.nextReqBlkNum, h⟩

theorem pendingSent_erase (hs : PendingSent sent s) (blkNum next : UInt32) :
    PendingSent sent { s with
      pendingBlocks := s.pendingBlocks.erase blkNum, nextReqBlkNum := next } := by
  intro n x hx
  simp only [Syncer.pendingAt, get_erase] at hx
  split_ifs at hx
  · cases hx
  · exact hs n x hx

theorem pendingSent_insert (hs : PendingSent sent s) (fromPeer : UInt32) (block : VbftBlock K) :
    PendingSent (sent ++ [(fromPeer, block)]) { s with
      pendingBlocks := s.pendingBlocks.insert block.block.header.height
        ((s.pendingAt block.block.header.height).insert fromPeer block) } := by
  intro n x hx
  simp only [Syncer.pendingAt, get_insert] at hx
  split_ifs at hx with hn
  · rcases mem_insertEntry hx with rfl | hx
    · exact ⟨mem_append_right _ (mem_singleton.mpr rfl), hn.symm⟩
    · obtain ⟨hmem, hheight⟩ := hs _ x hx
      exact ⟨mem_append_left _ hmem, hheight.trans hn.symm⟩
  · obtain ⟨hmem, hheight⟩ := hs n x hx
    exact ⟨mem_append_left _ hmem, hheight⟩

variable (env) in
theorem forward_justified (hs : PendingSent sent s) (n : ℕ) :
    (∀ blk ∈ (s.forward env n).1, Justified sent env blk) ∧
      PendingSent sent (s.forward env n).2 := by
  induction n generalizing s with
  | zero => exact ⟨nofun, hs⟩
  | succ n ih =>
    rw [Syncer.forward]
    split_ifs with hnext
    · cases hblk : s.nextBlock env with
      | none => exact ⟨nofun, hs⟩
      | some blk =>
        have hjust := nextBlock_justified hs hblk
        simp only
        split_ifs
        · obtain ⟨hrest, hend⟩ := ih (pendingSent_erase hs s.nextReqBlkNum (s.nextReqBlkNum + 1))
          refine ⟨?_, hend⟩
          intro b hb
          rcases mem_cons.mp hb with rfl | hb
          · exact hjust
          · exact hrest b hb
        · refine ⟨?_, hs⟩
          intro b hb
          cases mem_singleton.mp hb
          exact hjust
    · exact ⟨nofun, hs⟩

variable (env) in
theorem receive_justified (hs : PendingSent sent s) (fromPeer : UInt32) (block : VbftBlock K) :
    (∀ blk ∈ (s.receive env fromPeer block).1, Justified (sent ++ [(fromPeer, block)]) env blk) ∧
      PendingSent (sent ++ [(fromPeer, block)]) (s.receive env fromPeer block).2 := by
  have hold : PendingSent (sent ++ [(fromPeer, block)]) s := fun n x hx =>
    ⟨mem_append_left _ (hs n x hx).1, (hs n x hx).2⟩
  have hnew := pendingSent_insert hs fromPeer block
  unfold Syncer.receive
  simp only
  split_ifs
  · exact ⟨nofun, hold⟩
  · exact ⟨nofun, hnew⟩
  · obtain ⟨hhanded, hend⟩ := forward_justified env hnew
      (s.targetBlkNum.toNat + 1 - s.nextReqBlkNum.toNat)
    refine ⟨hhanded, ?_⟩
    unfold Syncer.finish
    split_ifs
    · exact hend
    · exact hend

/-- Through a whole run every block handed on comes from the ledger or from an agreement among the
blocks that the peers sent. -/
theorem syncRun_justified {handed} (h : SyncRun sent handed s) :
    (∀ x ∈ handed, Justified sent x.1 x.2) ∧ PendingSent sent s := by
  induction h with
  | new => exact ⟨nofun, fun _ _ hx => absurd hx not_mem_nil⟩
  | request start target h ih =>
    refine ⟨ih.1, ?_⟩
    unfold Syncer.request
    split <;> exact ih.2
  | @receive sent handed s env fromPeer block h ih =>
    obtain ⟨hhanded, hs⟩ := receive_justified env ih.2 fromPeer block
    refine ⟨?_, hs⟩
    intro x hx
    rcases mem_append.mp hx with hx | hx
    · rcases ih.1 x hx with hledger | ⟨blkNum, blks, order, hblks, hdone⟩
      · exact .inl hledger
      · exact .inr ⟨blkNum, blks, order,
          fun y hy => ⟨mem_append_left _ (hblks y hy).1, (hblks y hy).2⟩, hdone⟩
    · obtain ⟨blk, hblk, rfl⟩ := mem_map.mp hx
      exact hhanded blk hblk

section Honest

variable {sha256 : Bytes → Uint256} {faulty : Finset UInt32}
  (hone : ∀ x ∈ sent, ∀ y ∈ sent, x.2.block.header.height = y.2.block.header.height →
    x.2.proposer = y.2.proposer → x.2.block.header.hash sha256 = y.2.block.header.hash sha256)
include hone

/-- Where no proposer has two blocks of one height, agreement on a proposer is agreement on the
block. -/
theorem agreedOn_honest {c blk} (h : AgreedOn sent c blk) (hf : faulty.card ≤ c) :
    ∃ x ∈ sent, x.1 ∉ faulty ∧ x.2.block.header.hash sha256 = blk.block.header.hash sha256 := by
  obtain ⟨blkNum, blks, order, hblks, hdone⟩ := h
  have hcond : ∀ x ∈ blks.entries, c < proposerCount blks x.2.proposer →
      c < hashCount sha256 blks x.2 := by
    intro x hx hc
    refine lt_of_lt_of_le hc (countP_mono_left ?_)
    intro y hy hproposer
    have hheight := (hblks y hy).2.trans (hblks x hx).2.symm
    simpa using hone y (hblks y hy).1 x (hblks x hx).1 hheight (by simpa using hproposer)
  obtain ⟨x, hx, rfl, hc⟩ := blockConsensusDone_some hdone
  obtain ⟨y, hy, hhonest, hhash⟩ := sentByHonest_of_lt (hcond x hx hc) hf
  exact ⟨y, (hblks y hy).1, hhonest, hhash⟩

/-- Through a whole run with at most `c` faulty peers, a block that is handed on is one of the ledger
or was sent by a peer that is not faulty. -/
theorem syncRun_honest {handed} (h : SyncRun sent handed s) {env blk} (hblk : (env, blk) ∈ handed)
    (hf : faulty.card ≤ env.c) :
    (∃ blkNum, env.getBlock blkNum = some blk) ∨
      ∃ x ∈ sent, x.1 ∉ faulty ∧ x.2.block.header.hash sha256 = blk.block.header.hash sha256 := by
  rcases (syncRun_justified h).1 _ hblk with hledger | hagreed
  · exact .inl hledger
  · exact .inr (agreedOn_honest hone hagreed hf)

end Honest

def sampleSyncEnv : SyncEnv openKeys := ⟨1, 0, fun _ => none, fun _ => true, keyOrder⟩

theorem syncRun_honest_pair : ∃ s, SyncRun [(1, sampleSynced 1), (2, sampleSynced 1)]
      [(sampleSyncEnv, sampleSynced 1)] s ∧
    ∃ x ∈ [(1, sampleSynced 1), (2, sampleSynced 1)], x.1 ∉ ({1} : Finset UInt32) ∧
      x.2.block.header.hash (zeroPad 32) = (sampleSynced 1).block.header.hash (zeroPad 32) := by
  have hrun := ((SyncRun.new.request 7 7).receive sampleSyncEnv 1 (sampleSynced 1)).receive
    sampleSyncEnv 2 (sampleSynced 1)
  exact ⟨_, hrun, (syncRun_honest (by decide +kernel) hrun mem_cons_self (by decide)).resolve_left
    nofun⟩

end Poly.Vbft
