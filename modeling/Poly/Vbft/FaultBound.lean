import Poly.Vbft.Participants

/-! The number of faulty peers that a generated configuration tolerates: for which numbers of peers
the quorums intersect and every round finds its endorsers and committers. -/
namespace Poly.Vbft

open Lib List Nat Finset
open Ledger (PeerConfig)

section Table

variable {marshal : ShuffleText} {conf : VBFTConfig} {peers : List VBFTPeerInfo} {height : UInt32}

theorem swapIfInBounds_perm (a : Array UInt32) (i j : ℕ) : (a.swapIfInBounds i j).Perm a := by
  unfold Array.swapIfInBounds
  split
  · split
    · exact Array.swap_perm _ _
    · exact .rfl
  · exact .rfl

theorem shuffle_perm (marshal : ShuffleText) (height : UInt32)
    (byIndex : OrderedMap UInt32 PeerConfig) (table : List UInt32) :
    (shuffle marshal height byIndex table).Perm table := by
  have hfold : ∀ (positions : List ℕ) (a : Array UInt32),
      (positions.foldl (shuffleStep marshal height byIndex) a).Perm a := by
    intro positions
    induction positions with
    | nil => exact fun a => .rfl
    | cons i positions ih => exact fun a => (ih _).trans (swapIfInBounds_perm a i _)
  exact (hfold _ table.toArray).toList

theorem peerRank_eq {k : ℕ} (hk : 0 < k) : peerRank k = SCALE := by
  apply Nat.div_eq_of_lt_le
  · simp only [SCALE, DEFAULT_POS]
    omega
  · simp only [SCALE, DEFAULT_POS]
    omega

theorem mem_posTable (hpeers : 0 < peers.length) {x : UInt32} :
    x ∈ (genesisChainConfig marshal conf peers height).posTable ↔
      x ∈ peers.map VBFTPeerInfo.index := by
  have hperm := shuffle_perm marshal height (chainPeers peers) (initPosTable peers)
  rw [show (genesisChainConfig marshal conf peers height).posTable =
    shuffle marshal height (chainPeers peers) (initPosTable peers) from rfl, hperm.mem_iff]
  simp [initPosTable, peerRank_eq hpeers, SCALE, eq_comm]

theorem fullTable_genesis (hpeers : 0 < peers.length)
    (hindex : (peers.map VBFTPeerInfo.index).Nodup) :
    FullTable (genesisChainConfig marshal conf peers height) := by
  refine ⟨?_, hpeers⟩
  have hset : (genesisChainConfig marshal conf peers height).posTable.toFinset =
      (peers.map VBFTPeerInfo.index).toFinset := by
    ext x
    rw [mem_toFinset, mem_toFinset, mem_posTable hpeers]
  rw [hset, toFinset_card_of_nodup hindex, length_map]
  rfl

end Table

variable {vrf : VRFValue} {chain : ChainConfig} {blkNum : UInt32}

/-- A third of the peers at most are faulty, and two quorums share more peers than those. -/
def Sound (chain : ChainConfig) : Prop :=
  3 * chain.c + 1 ≤ chain.n ∧
    ∀ a b : Finset UInt32, a ⊆ (chain.peers.map PeerConfig.index).toFinset →
      b ⊆ (chain.peers.map PeerConfig.index).toFinset → chain.n - 1 - chain.c < a.card →
      chain.n - 1 - chain.c < b.card → chain.c < (a ∩ b).card

/-- Peers enough to outvote the faulty ones, without the first proposers. -/
structure Outvoting (chain : ChainConfig) (proposers peers : List UInt32) : Prop where
  nodup : peers.Nodup
  enough : 2 * chain.c + 1 ≤ peers.length
  excluded : ∀ x ∈ peers, x ∉ proposers.take chain.c

/-- A round with this seed has enough endorsers and committers. -/
def Workable (blkNum : UInt32) (vrf : VRFValue) (chain : ChainConfig) : Prop :=
  ∃ cfg, buildParticipantConfig blkNum vrf chain = .ok cfg ∧
    Outvoting chain cfg.proposers cfg.endorsers ∧ Outvoting chain cfg.proposers cfg.committers

theorem sound_iff (hlen : chain.peers.length = chain.n) :
    Sound chain ↔ 3 * chain.c + 1 ≤ chain.n := by
  refine ⟨And.left, fun hc => ⟨hc, fun a b ha hb hca hcb => ?_⟩⟩
  have hunion : (a ∪ b).card ≤ chain.n := by
    calc (a ∪ b).card ≤ (chain.peers.map PeerConfig.index).toFinset.card :=
          card_le_card (union_subset ha hb)
      _ ≤ (chain.peers.map PeerConfig.index).length := toFinset_card_le _
      _ = chain.n := by rw [length_map, hlen]
  have hsum := card_union_add_card_inter a b
  omega

theorem buildParticipantConfig_ok {cfg} (h : buildParticipantConfig blkNum vrf chain = .ok cfg) :
    blkNum ≠ 0 ∧ cfg.blockNum = blkNum ∧
      ∃ all, calcParticipantPeers vrf chain [] 0 32 = .ok all ∧
      chain.c + 1 ≤ all.length ∧ cfg.proposers = all.take (chain.c + 1) ∧
      calcParticipantPeers vrf chain cfg.proposers 32 272 = .ok cfg.endorsers ∧
      2 * chain.c ≤ cfg.endorsers.length ∧
      calcParticipantPeers vrf chain cfg.proposers 272 512 = .ok cfg.committers ∧
      2 * chain.c ≤ cfg.committers.length := by
  obtain ⟨_, hnum, h⟩ := bind_ok.mp h
  obtain ⟨-, -, h⟩ := bind_ok.mp h
  obtain ⟨all, hall, h⟩ := bind_ok.mp h
  obtain ⟨_, hlen, h⟩ := bind_ok.mp h
  obtain ⟨endorsers, hendorsers, h⟩ := bind_ok.mp h
  obtain ⟨_, hlen₁, h⟩ := bind_ok.mp h
  obtain ⟨committers, hcommitters, h⟩ := bind_ok.mp h
  obtain ⟨_, hlen₂, h⟩ := bind_ok.mp h
  cases h
  rw [failIf_ok] at hnum hlen hlen₁ hlen₂
  exact ⟨hnum, rfl, all, hall, not_lt.mp hlen, rfl, hendorsers, not_lt.mp hlen₁, hcommitters,
    not_lt.mp hlen₂⟩

variable {all : List UInt32}

theorem buildParticipantConfig_run {endorsers committers} (hnum : blkNum ≠ 0)
    (hnil : vrf.isNil ≠ true) (hall : calcParticipantPeers vrf chain [] 0 32 = .ok all)
    (hlen : chain.c + 1 ≤ all.length)
    (hendorsers : calcParticipantPeers vrf chain (all.take (chain.c + 1)) 32 272 = .ok endorsers)
    (hlen₁ : 2 * chain.c ≤ endorsers.length)
    (hcommitters : calcParticipantPeers vrf chain (all.take (chain.c + 1)) 272 512 =
      .ok committers) (hlen₂ : 2 * chain.c ≤ committers.length) :
    buildParticipantConfig blkNum vrf chain =
      .ok ⟨blkNum, vrf, chain, all.take (chain.c + 1), endorsers, committers⟩ := by
  simp only [buildParticipantConfig, MAX_PROPOSER_COUNT, MAX_ENDORSER_COUNT, MAX_COMMITTER_COUNT,
    failIf_of_not hnum, failIf_of_not hnil, hall, failIf_of_not (not_lt.mpr hlen), hendorsers,
    failIf_of_not (not_lt.mpr hlen₁), hcommitters, failIf_of_not (not_lt.mpr hlen₂),
    ok_bind]
  rfl

/-- A list of proposers is without repetition, and every probe gave a peer. -/
theorem proposers_ok (htable : FullTable chain) (hc : chain.c < chain.n)
    (h : calcParticipantPeers vrf chain [] 0 32 = .ok all) (hall : all ≠ []) :
    all.Nodup ∧ (∀ x ∈ all, x ∈ chain.posTable ∧ x ≠ maxUint32) ∧ chain.c < all.length ∧
      (chain.n ≤ all.length ∨
        ∀ k < 32, calcParticipant vrf chain.posTable k ≠ .ok maxUint32) := by
  obtain ⟨hnodup, hallowed, hstop⟩ := (participantLoop_ok htable.ne_nil h nodup_nil
    nofun).resolve_left hall
  refine ⟨hnodup, fun x hx => ⟨(hallowed x hx).1, (hallowed x hx).2.1⟩, ?_⟩
  rcases hstop with hn | ⟨-, hlen, hmax⟩ | ⟨hlast, -⟩
  · exact ⟨by omega, .inl hn⟩
  · exact ⟨hlen, .inr fun k hk => hmax k (zero_le k) hk⟩
  · exact absurd hlast (by decide)

theorem proposers_found (htable : FullTable chain) (hmax : maxUint32 ∉ chain.posTable)
    (hhits : Hits vrf chain.posTable 0 32) :
    ∃ all, calcParticipantPeers vrf chain [] 0 32 = .ok all ∧ all ≠ [] := by
  refine participantLoop_found (m := chain.n) (s := chain.posTable.toFinset)
    (show 32 ≤ 512 by decide) htable.ne_nil hmax (.inl rfl) (le_of_eq htable.card_eq.symm) ?_
    (by decide) htable.pos fun x hx => .inr ?_
  · intro x hx
    have hmem := mem_toFinset.mp hx
    exact ⟨hmem, fun he => hmax (he ▸ hmem), fun hlast => absurd hlast (by decide)⟩
  · obtain ⟨k, hk, hcalc⟩ := hhits x (mem_toFinset.mp hx)
    rw [mem_range'_1] at hk
    exact ⟨k, by omega, by omega, hcalc⟩

theorem not_isNil_of_hits {start last : ℕ} (htable : FullTable chain) (hn : 1 < chain.n)
    (hlast : last ≤ 512) (hhits : Hits vrf chain.posTable start last) : vrf.isNil ≠ true := by
  intro hnil
  have hzero : vrf.val = List.replicate VRF_SIZE 0 := of_decide_eq_true hnil
  have hget : ∀ i, vrf.val.getD i 0 = 0 := by
    intro i
    rw [hzero, getD_eq_getElem?_getD, getElem?_replicate]
    split <;> rfl
  have hfirst : ∀ x ∈ chain.posTable, chain.posTable[0]? = some x := by
    intro x hx
    obtain ⟨k, hk, hcalc⟩ := hhits x hx
    rw [mem_range'_1] at hk
    have hk' : ¬ 512 ≤ k := by omega
    simp only [calcParticipant, ge_iff_le, hk', if_false, failIf, htable.ne_nil, hget] at hcalc
    exact goIndex_ok.mp (by simpa using hcalc)
  have hone : chain.posTable.toFinset.card ≤ 1 := by
    refine card_le_one.mpr fun a ha b hb => ?_
    exact Option.some.inj ((hfirst a (mem_toFinset.mp ha)).symm.trans
      (hfirst b (mem_toFinset.mp hb)))
  rw [htable.card_eq] at hone
  omega

/-- The proposers of a round. -/
structure Proposing (chain : ChainConfig) (proposers : List UInt32) : Prop where
  nodup : proposers.Nodup
  mem : ∀ x ∈ proposers, x ∈ chain.posTable
  enough : chain.c ≤ proposers.length

theorem Proposing.take (hnodup : all.Nodup) (hmem : ∀ x ∈ all, x ∈ chain.posTable ∧ x ≠ maxUint32)
    (hlen : chain.c < all.length) : Proposing chain (all.take (chain.c + 1)) where
  nodup := hnodup.sublist (take_sublist _ _)
  mem := fun x hx => (hmem x (mem_of_mem_take hx)).1
  enough := by
    rw [length_take]
    omega

section

variable (htable : FullTable chain)
include htable

/-- More than twice `c` peers outside the first `c` proposers leave less than a third of all. -/
theorem Outvoting.bound {proposers peers start last} (hc : 0 < chain.c)
    (hp : Proposing chain proposers) (hlast : checkCalcEndorserOrCommitter last = true)
    (h : calcParticipantPeers vrf chain proposers start last = .ok peers)
    (hout : Outvoting chain proposers peers) : 3 * chain.c + 1 ≤ chain.n := by
  have henough := hout.enough
  have hne : peers ≠ [] := ne_nil_of_length_pos (by omega)
  obtain ⟨hnodup, hrem, -⟩ := calcParticipantPeers_ok htable hc hp.nodup hlast h hne
  have hle := length_le_of_allowed hnodup hrem
  rw [card_remaining htable hp.nodup hp.mem hp.enough] at hle
  omega

theorem outvoting_found {proposers start last} (hc : 0 < chain.c)
    (hsound : 3 * chain.c + 1 ≤ chain.n) (hmax : maxUint32 ∉ chain.posTable)
    (hp : Proposing chain proposers) (hlast : checkCalcEndorserOrCommitter last = true)
    (hrange : start ≤ last ∧ last ≤ 512) (hhits : Hits vrf chain.posTable start last) :
    ∃ peers, calcParticipantPeers vrf chain proposers start last = .ok peers ∧
      Outvoting chain proposers peers := by
  obtain ⟨peers, hpeers, hne⟩ := calcParticipantPeers_found htable hc hmax hp.nodup hp.mem hp.enough
    hsound hlast hrange.1 hrange.2 hhits
  obtain ⟨hnodup, hrem, henough⟩ := calcParticipantPeers_ok htable hc hp.nodup hlast hpeers hne
  refine ⟨peers, hpeers, hnodup, by omega, fun x hx hout => ?_⟩
  exact (mem_sdiff.mp (hrem x hx)).2 (mem_toFinset.mpr hout)

/-- A peer with the reserved index ends the search for proposers at the first probe that hits it. -/
theorem maxUint32_not_mem (hhits : Hits vrf chain.posTable 0 32)
    (hnodup : all.Nodup) (hmem : ∀ x ∈ all, x ∈ chain.posTable ∧ x ≠ maxUint32)
    (hprobes : chain.n ≤ all.length ∨
      ∀ k < 32, calcParticipant vrf chain.posTable k ≠ .ok maxUint32) :
    maxUint32 ∉ chain.posTable := by
  intro hmax
  rcases hprobes with hfull | hprobes
  · have hle : all.length ≤ (chain.posTable.toFinset.erase maxUint32).card :=
      length_le_of_allowed hnodup fun x hx =>
        mem_erase.mpr ⟨(hmem x hx).2, mem_toFinset.mpr (hmem x hx).1⟩
    rw [card_erase_of_mem (mem_toFinset.mpr hmax), htable.card_eq] at hle
    have hpos := htable.pos
    omega
  · obtain ⟨k, hk, hcalc⟩ := hhits _ hmax
    rw [mem_range'_1] at hk
    exact hprobes k (by omega) hcalc

/-- With distinct peers in the table and probes that hit them all, a round can be held exactly if
less than a third of the peers are tolerated and no peer has the reserved index. -/
theorem workable_iff (hc : 0 < chain.c) (hn : 3 * chain.c ≤ chain.n)
    (hprobing : Probing vrf chain.posTable) :
    Workable blkNum vrf chain ↔
      blkNum ≠ 0 ∧ 3 * chain.c + 1 ≤ chain.n ∧ maxUint32 ∉ chain.posTable := by
  constructor
  · rintro ⟨cfg, hbuild, hendorsers, -⟩
    obtain ⟨hnum, -, all, hall, hlen, hprop, hend, -, -, -⟩ := buildParticipantConfig_ok hbuild
    have hne : all ≠ [] := ne_nil_of_length_pos (by omega)
    obtain ⟨hnodup, hmem, -, hprobes⟩ := proposers_ok htable (by omega) hall hne
    have hp : Proposing chain cfg.proposers := hprop ▸ Proposing.take hnodup hmem hlen
    exact ⟨hnum, hendorsers.bound htable hc hp (by decide) hend,
      maxUint32_not_mem htable hprobing.proposers hnodup hmem hprobes⟩
  · rintro ⟨hnum, hsound, hmax⟩
    obtain ⟨all, hall, hne⟩ := proposers_found htable hmax hprobing.proposers
    obtain ⟨hnodup, hmem, hlen, -⟩ := proposers_ok htable (by omega) hall hne
    have hp := Proposing.take hnodup hmem hlen
    obtain ⟨endorsers, hend, hout₁⟩ :=
      outvoting_found htable hc hsound hmax hp (by decide) (by decide) hprobing.endorsers
    obtain ⟨committers, hcom, hout₂⟩ :=
      outvoting_found htable hc hsound hmax hp (by decide) (by decide) hprobing.committers
    have hnil : vrf.isNil ≠ true :=
      not_isNil_of_hits htable (by omega) (by decide) hprobing.proposers
    have henough₁ := hout₁.enough
    have henough₂ := hout₂.enough
    exact ⟨_, buildParticipantConfig_run hnum hnil hall hlen hend (by omega) hcom (by omega),
      hout₁, hout₂⟩

end

/-- A generated configuration of four peers or more is sound exactly if the number of its peers is
no multiple of three; and a round from a seed whose probes hit all peers then has its endorsers and
committers, unless it is the first block or a peer has the reserved index. -/
theorem chainConfig_sound_iff (marshal : ShuffleText) (conf : VBFTConfig)
    (peers : List VBFTPeerInfo) (height : UInt32) (hlen : 4 ≤ peers.length)
    (hindex : (peers.map VBFTPeerInfo.index).Nodup) :
    (Sound (genesisChainConfig marshal conf peers height) ↔ peers.length % 3 ≠ 0) ∧
    ∀ blkNum vrf, Probing vrf (genesisChainConfig marshal conf peers height).posTable →
      (Workable blkNum vrf (genesisChainConfig marshal conf peers height) ↔
        blkNum ≠ 0 ∧ peers.length % 3 ≠ 0 ∧ ∀ p ∈ peers, p.index ≠ maxUint32) := by
  have hpos : 0 < peers.length := by omega
  have hbound : 3 * (peers.length / 3) + 1 ≤ peers.length ↔ peers.length % 3 ≠ 0 := by omega
  constructor
  · rw [sound_iff (by simp [genesisChainConfig])]
    exact hbound
  · intro blkNum vrf hprobing
    have hmax : maxUint32 ∉ (genesisChainConfig marshal conf peers height).posTable ↔
        ∀ p ∈ peers, p.index ≠ maxUint32 := by
      simp [mem_posTable hpos]
    rw [workable_iff (fullTable_genesis hpos hindex) (div_pos (by omega) (by decide))
      (mul_div_le peers.length 3) hprobing, hmax]
    exact and_congr_right fun _ => and_congr_left fun _ => hbound

/-- Peers with the indices from zero on. -/
def samplePeers (n : ℕ) : List VBFTPeerInfo :=
  (List.range n).map fun i => ⟨UInt32.ofNat i, [UInt8.ofNat i]⟩

def sampleChain (n : ℕ) : ChainConfig :=
  genesisChainConfig sampleMarshal ⟨5000, 5000, 10, 10000⟩ (samplePeers n) 0

/-- A seed whose probes hit every peer of the sample configurations. -/
def sampleVrf : VRFValue :=
  ⟨(List.range VRF_SIZE).map fun i => UInt8.ofNat (i * i * i * 7 + i * i * 3 + i * 41 + 13), by
    simp⟩

theorem sampleVrf_four : Probing sampleVrf (sampleChain 4).posTable :=
  ⟨by decide +kernel, by decide +kernel, by decide +kernel⟩

/-- With six peers two are tolerated: two sets of four of them may share no more than those, and
no round finds five endorsers outside the first two proposers. -/
theorem chainConfig_unsound_six :
    (sampleChain 6).n = 6 ∧ (sampleChain 6).c = 2 ∧ ¬ Sound (sampleChain 6) ∧
      (({0, 1, 2, 3} : Finset UInt32) ∩ {2, 3, 4, 5}).card = 2 ∧
      Probing sampleVrf (sampleChain 6).posTable ∧
      (buildParticipantConfig 1 sampleVrf (sampleChain 6)).toOption.isNone = true := by
  refine ⟨rfl, rfl, fun h => absurd h.1 (by decide), by decide, ⟨?_, ?_, ?_⟩, ?_⟩ <;> decide +kernel

theorem chainConfig_sound_iff_four :
    Sound (sampleChain 4) ∧ Workable 1 sampleVrf (sampleChain 4) := by
  obtain ⟨hsound, hwork⟩ := chainConfig_sound_iff sampleMarshal ⟨5000, 5000, 10, 10000⟩
    (samplePeers 4) 0 (by decide) (by decide)
  refine ⟨hsound.mpr (by decide), (hwork 1 sampleVrf sampleVrf_four).mpr ?_⟩
  decide

end Poly.Vbft
