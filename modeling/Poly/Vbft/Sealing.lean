import Poly.Vbft.Authentic

/-! Whether a block that the commit consensus decides on can be sealed: the votes that it counts
are not always among the signatures that the header of the block gets. -/
namespace Poly.Vbft

open Lib Server List OrderedMap

section Sealable

variable {K : Keys} (cfg : NodeConfig K)

/-- The peer is among the bookkeepers of the header, with its signature of the hash. -/
def Carries (pairs : List (Option K.PublicKey × Bytes)) (hash : Uint256) (i : UInt32) : Prop :=
  ∃ pk sig, cfg.peerKey i = some pk ∧ (some pk, sig) ∈ pairs ∧ Verifies pk hash sig

/-- The header carries signatures of as many different peers as a block needs. -/
def EnoughSigs (n : ℕ) (pairs : List (Option K.PublicKey × Bytes)) (hash : Uint256) : Prop :=
  ∃ signers : Finset UInt32, commitQuorum n ≤ signers.card ∧ ∀ i ∈ signers, Carries cfg pairs hash i

/-- Whatever the commit consensus of the candidate decides, in any order of its signatures, the
proposal of the decided proposer, one that the node `has`, can be sealed with enough of them. -/
def Sealable (has : BlockProposalMsg K → Prop) (candidate : CandidateInfo K) (c n : UInt32) :
    Prop :=
  ∀ (order order' : SigOrder) (isEndorser : UInt32 → Bool) (p : UInt32) (forEmpty : Bool)
    (msg : BlockProposalMsg K), (order candidate.endorseSigs.entries).Perm
      candidate.endorseSigs.entries → (order' candidate.endorseSigs.entries).Perm
      candidate.endorseSigs.entries →
    candidate.commitDone order isEndorser c n = (p, forEmpty, true) → has msg →
    msg.block.proposer = p →
    ∃ pairs hash, candidate.addSignaturesToBlock order' cfg.peerKey msg.block forEmpty =
      .ok pairs ∧ proposedHash cfg msg forEmpty = .ok hash ∧ EnoughSigs cfg n.toNat pairs hash

/-- A message about the one block of its proposer that the votes are for, and not about its empty
block. -/
def OnBlock (hashOf : UInt32 → Uint256) : ConsensusMsg K → Prop
  | .proposal msg => proposedHash cfg msg false = .ok (hashOf msg.block.proposer)
  | .endorse msg => msg.endorseForEmpty = false ∧ msg.endorsedBlockHash = hashOf msg.endorsedProposer
  | .commit msg => msg.commitForEmpty = false ∧ msg.commitBlockHash = hashOf msg.blockProposer

/-- Votes that the commit consensus counts as the header does: each proposer has one block and
nobody votes for an empty one, no commit lists its own proposer, and who commits for one proposer
is listed by the commits for no other. -/
structure Straight (hashOf : UInt32 → Uint256) (msgs : List (ConsensusMsg K)) : Prop where
  onBlock : ∀ msg ∈ msgs, OnBlock cfg hashOf msg
  not_self : ∀ m, .commit m ∈ msgs → m.blockProposer ∉ m.signers
  single : ∀ m m', .commit m ∈ msgs → .commit m' ∈ msgs → m.committer ∈ m'.signers →
    m'.blockProposer = m.blockProposer

end Sealable

section Support

variable {K : Keys} {cfg : NodeConfig K} {hashOf : UInt32 → Uint256} {c c' : CandidateInfo K}
  {i j p : UInt32} {e eSig : CandidateEndorseSigInfo} {commitment : Bool}

/-- A signature of the peer for the block of the proposer that it endorses. -/
def ValidSig (cfg : NodeConfig K) (hashOf : UInt32 → Uint256) (i : UInt32)
    (e : CandidateEndorseSigInfo) : Prop :=
  e.forEmpty = false ∧ SignedBy cfg i (hashOf e.endorsedProposer) e.signature

/-- The candidate holds a signature of the peer for the proposer. -/
def CandidateInfo.Supports (c : CandidateInfo K) (i p : UInt32) : Prop :=
  ∃ e, c.Holds i e ∧ e.endorsedProposer = p

/-- All signatures are valid, and no peer has two for one proposer. -/
structure Clean (cfg : NodeConfig K) (hashOf : UInt32 → Uint256) (c : CandidateInfo K) : Prop where
  sigs : ∀ i e, c.Holds i e → ValidSig cfg hashOf i e
  distinct : ∀ i eSigs, c.endorseSigs.get i = some eSigs →
    (eSigs.map CandidateEndorseSigInfo.endorsedProposer).Nodup

theorem validSig_of_votes {msg} (hgen : Genuine cfg msg) (hon : OnBlock cfg hashOf msg)
    (hvote : msg.Votes i e) : ValidSig cfg hashOf i e := by
  cases msg with
  | proposal m =>
    obtain ⟨rfl, hproposer, hsig, hempty⟩ := hvote
    obtain ⟨hash, hhash, hsigned⟩ := hgen.sig_authentic hsig
    cases ok_unique hhash hon
    exact ⟨hempty, hproposer ▸ hsigned⟩
  | endorse m =>
    obtain ⟨rfl, rfl⟩ := hvote
    exact ⟨hon.1, hon.2 ▸ hgen.2⟩
  | commit m =>
    obtain ⟨hempty, hhash⟩ := hon
    rcases hvote with ⟨sig, hget, rfl⟩ | ⟨rfl, rfl⟩
    · exact ⟨hempty, hhash ▸ hgen.2.2 i sig hget⟩
    · exact ⟨hempty, hhash ▸ hgen.2.1⟩

variable {eSigs : List CandidateEndorseSigInfo}

/-- Among signatures for blocks that are not empty, the list of an endorser grows by a signature
for each new proposer. -/
theorem addEndorseSig_eq (hold : ∀ e ∈ eSigs, e.forEmpty = false) (hnew : eSig.forEmpty = false) :
    addEndorseSig eSigs eSig =
      if eSig.endorsedProposer ∈ eSigs.map CandidateEndorseSigInfo.endorsedProposer then eSigs
      else eSigs ++ [eSig] := by
  rw [addEndorseSig, if_neg (by simpa using hold), hnew, if_neg Bool.false_ne_true]
  have hany : (eSigs.any fun e => e.endorsedProposer = eSig.endorsedProposer) = true ↔
      eSig.endorsedProposer ∈ eSigs.map CandidateEndorseSigInfo.endorsedProposer := by
    simp
  by_cases h : eSig.endorsedProposer ∈ eSigs.map CandidateEndorseSigInfo.endorsedProposer
  · rw [if_pos (hany.mpr h), if_pos h]
  · rw [if_neg (fun h' => h (hany.mp h')), if_neg h]

theorem Clean.addBlockEndorsement (h : Clean cfg hashOf c) (hsig : ValidSig cfg hashOf j eSig) :
    Clean cfg hashOf (c.addBlockEndorsement j eSig commitment) where
  sigs := by
    intro i e hold
    rcases holds_addBlockEndorsement hold with hold | ⟨rfl, rfl⟩
    · exact h.sigs i e hold
    · exact hsig
  distinct := by
    intro i eSigs hget
    by_cases hij : i = j
    · subst hij
      rw [addBlockEndorsement_get_self, Option.some.injEq] at hget
      subst hget
      unfold nextEndorseSigs
      split
      next old hold =>
        have hall : ∀ e ∈ old, e.forEmpty = false := fun e he => (h.sigs i e ⟨old, hold, he⟩).1
        rw [addEndorseSig_eq hall hsig.1]
        split
        · exact h.distinct i old hold
        · rename_i hnot
          rw [map_append]
          refine nodup_append.mpr ⟨h.distinct i old hold, nodup_singleton _, ?_⟩
          intro a ha b hb heq
          exact hnot (mem_singleton.mp hb ▸ heq ▸ ha)
      · exact nodup_singleton _
    · rw [addBlockEndorsement_get_of_ne _ _ _ hij] at hget
      exact h.distinct i eSigs hget

/-- Only a commitment takes signatures away, those that its committer had. -/
theorem CandidateInfo.Supports.addBlockEndorsement (h : c.Supports i p)
    (hkeep : i = j → commitment = true → eSig.endorsedProposer = p) :
    (c.addBlockEndorsement j eSig commitment).Supports i p := by
  obtain ⟨e, ⟨eSigs, hget, he⟩, hp⟩ := h
  by_cases hij : i = j
  · subst hij
    cases commitment with
    | true =>
      refine ⟨eSig, ⟨[eSig], ?_, mem_singleton_self _⟩, hkeep rfl rfl⟩
      rw [addBlockEndorsement_get_self, hget]
      rfl
    | false =>
      refine ⟨e, ⟨_, addBlockEndorsement_get_self .., ?_⟩, hp⟩
      rw [hget]
      simp only [nextEndorseSigs, addEndorseSig]
      split_ifs
      · exact he
      · exact mem_append_left _ he
      · exact he
      · exact mem_append_left _ he
  · exact ⟨e, ⟨eSigs, (addBlockEndorsement_get_of_ne _ _ _ hij).trans hget, he⟩, hp⟩

theorem supports_addBlockEndorsement (h : Clean cfg hashOf c) (hnew : eSig.forEmpty = false) :
    (c.addBlockEndorsement j eSig commitment).Supports j eSig.endorsedProposer := by
  have hget := addBlockEndorsement_get_self c j eSig commitment
  have hmem : eSig.endorsedProposer ∈ (nextEndorseSigs (c.endorseSigs.get j) eSig commitment).map
      CandidateEndorseSigInfo.endorsedProposer := by
    unfold nextEndorseSigs
    split
    next old hold =>
      have hall : ∀ e ∈ old, e.forEmpty = false := fun e he => (h.sigs j e ⟨old, hold, he⟩).1
      rw [addEndorseSig_eq hall hnew]
      split
      · assumption
      · simp
    · simp
  obtain ⟨e, he, hp⟩ := mem_map.mp hmem
  exact ⟨e, ⟨_, hget, he⟩, hp⟩

theorem addEndorsers_spec {m entries} (h : Clean cfg hashOf c)
    (hsigs : ∀ x ∈ entries, ValidSig cfg hashOf x.1 (m.sigInfo x.2)) :
    Clean cfg hashOf (c.addEndorsers m entries) ∧
      (∀ i p, c.Supports i p → (c.addEndorsers m entries).Supports i p) ∧
      ∀ x ∈ entries, (c.addEndorsers m entries).Supports x.1 m.blockProposer := by
  induction entries generalizing c with
  | nil => exact ⟨h, fun i p hs => hs, nofun⟩
  | cons x entries ih =>
    have hx := hsigs x mem_cons_self
    have hnext : Clean cfg hashOf (c.addBlockEndorsement x.1 (m.sigInfo x.2) false) :=
      h.addBlockEndorsement hx
    obtain ⟨hclean, hkeep, hrest⟩ := ih hnext fun y hy => hsigs y (mem_cons_of_mem x hy)
    refine ⟨hclean, fun i p hs => hkeep i p (hs.addBlockEndorsement fun _ hf => by cases hf), ?_⟩
    intro y hy
    rcases mem_cons.mp hy with rfl | hy
    · exact hkeep _ _ (supports_addBlockEndorsement h hx.1)
    · exact hrest y hy

end Support

section Invariant

variable {K : Keys} {cfg : NodeConfig K} {hashOf : UInt32 → Uint256} {c c' : CandidateInfo K}
  {msgs : List (ConsensusMsg K)} {msg : ConsensusMsg K}

/-- The peers that a stored commit counts support its proposer. -/
structure SealInv (cfg : NodeConfig K) (hashOf : UInt32 → Uint256) (msgs : List (ConsensusMsg K))
    (c : CandidateInfo K) : Prop extends Clean cfg hashOf c where
  received : ∀ m ∈ c.commitMsgs, .commit m ∈ msgs
  support : ∀ m ∈ c.commitMsgs, ∀ i ∈ m.signers, c.Supports i m.blockProposer

theorem SealInv.new : SealInv cfg hashOf msgs CandidateInfo.new where
  sigs := by
    rintro i e ⟨eSigs, hget, -⟩
    cases hget
  distinct := by
    intro i eSigs hget
    cases hget
  received := nofun
  support := nofun

theorem mem_signers {m : BlockCommitMsg} {i : UInt32} :
    i ∈ m.signers ↔ i = m.committer ∨ ∃ sig, (i, sig) ∈ m.endorsersSig.entries := by
  simp [BlockCommitMsg.signers, OrderedMap.keys]

variable (h : SealInv cfg hashOf msgs c)
include h

theorem SealInv.proposal {m sig}
    (hsig : ValidSig cfg hashOf m.block.proposer ⟨m.block.proposer, sig, false⟩) :
    SealInv cfg hashOf msgs (({ c with proposals := c.proposals ++ [m] } :
      CandidateInfo K).addBlockEndorsement m.block.proposer ⟨m.block.proposer, sig, false⟩ false) := by
  have hclean : Clean cfg hashOf ({ c with proposals := c.proposals ++ [m] } : CandidateInfo K) :=
    ⟨h.sigs, h.distinct⟩
  refine ⟨hclean.addBlockEndorsement hsig, h.received, fun m' hm' i hi => ?_⟩
  have hs : ({ c with proposals := c.proposals ++ [m] } : CandidateInfo K).Supports i
      m'.blockProposer := h.support m' hm' i hi
  exact hs.addBlockEndorsement fun _ hf => by cases hf

theorem SealInv.endorsement {i eSig} (hsig : ValidSig cfg hashOf i eSig) :
    SealInv cfg hashOf msgs (c.addBlockEndorsement i eSig false) := by
  refine ⟨h.toClean.addBlockEndorsement hsig, h.received, fun m' hm' j hj => ?_⟩
  exact (h.support m' hm' j hj).addBlockEndorsement fun _ hf => by cases hf

variable (hmsgs : Straight cfg hashOf msgs)
include hmsgs

theorem SealInv.commitment
    {m : BlockCommitMsg} (hm : .commit m ∈ msgs) (hgen : Genuine cfg (.commit m)) :
    SealInv cfg hashOf msgs { (c.addEndorsers m m.endorsersSig.entries).addBlockEndorsement
      m.committer (m.sigInfo m.committerSig) true with commitMsgs := c.commitMsgs ++ [m] } := by
  have hvalid : ∀ {i e}, (ConsensusMsg.commit m : ConsensusMsg K).Votes i e →
      ValidSig cfg hashOf i e := validSig_of_votes hgen (hmsgs.onBlock _ hm)
  obtain ⟨hclean, hkeep, hlisted⟩ := addEndorsers_spec h.toClean fun x hx =>
    hvalid (.inl ⟨x.2, get_eq_some.mpr hx, rfl⟩)
  have hlast := hvalid (.inr ⟨rfl, rfl⟩)
  have hclean' : Clean cfg hashOf ((c.addEndorsers m m.endorsersSig.entries).addBlockEndorsement
      m.committer (m.sigInfo m.committerSig) true) := hclean.addBlockEndorsement hlast
  -- the committer's signatures are replaced; whoever counts it does so for the same proposer
  have hsame : ∀ m' i, .commit m' ∈ msgs → i ∈ m'.signers →
      (c.addEndorsers m m.endorsersSig.entries).Supports i m'.blockProposer →
      ((c.addEndorsers m m.endorsersSig.entries).addBlockEndorsement m.committer
        (m.sigInfo m.committerSig) true).Supports i m'.blockProposer := by
    intro m' i hm' hi hs
    refine hs.addBlockEndorsement fun heq _ => ?_
    subst heq
    exact (hmsgs.single m m' hm hm' hi).symm
  refine ⟨⟨hclean'.sigs, hclean'.distinct⟩, fun m' hm' => ?_, fun m' hm' i hi => ?_⟩
  · rcases mem_append.mp hm' with hm' | hm'
    · exact h.received m' hm'
    · exact mem_singleton.mp hm' ▸ hm
  · rcases mem_append.mp hm' with hm' | hm'
    · exact hsame m' i (h.received m' hm') hi (hkeep i _ (h.support m' hm' i hi))
    · obtain rfl := mem_singleton.mp hm'
      rcases mem_signers.mp hi with rfl | ⟨sig, hmem⟩
      · exact supports_addBlockEndorsement hclean hlast.1
      · exact hsame m' i hm hi (hlisted (i, sig) hmem)

theorem SealInv.add
    (hmem : msg ∈ msgs) (hgen : Genuine cfg msg) : SealInv cfg hashOf msgs (c.add msg) := by
  unfold CandidateInfo.add
  cases hnew : c.newMsg msg with
  | error e => exact h
  | ok c' =>
    have hon := hmsgs.onBlock msg hmem
    rcases newMsg_cases hnew with rfl | ⟨m, sig, rfl, hsig, rfl⟩ | ⟨m, rfl, rfl⟩ | ⟨m, rfl, -, rfl⟩
    · exact h
    · exact h.proposal (validSig_of_votes hgen hon ⟨rfl, rfl, hsig, rfl⟩)
    · exact h.endorsement (validSig_of_votes hgen hon ⟨rfl, rfl⟩)
    · exact h.commitment hmsgs hmem hgen

theorem SealInv.run {l} (hgen : ∀ msg ∈ msgs, Genuine cfg msg) (hl : l ⊆ msgs) :
    SealInv cfg hashOf msgs (l.foldl CandidateInfo.add c) := by
  induction l generalizing c with
  | nil => exact h
  | cons msg l ih =>
    have hmem := hl mem_cons_self
    exact ih (h.add hmsgs hmem (hgen msg hmem)) fun m hm => hl (mem_cons_of_mem msg hm)

end Invariant

section Count

variable {quota : ℕ} {t : SigTally} {eSigs : List CandidateEndorseSigInfo}
  {isEndorser : UInt32 → Bool} {l : List (UInt32 × List CandidateEndorseSigInfo)} {p : UInt32}

/-- The signatures of a list for one proposer. -/
def sigsFor (p : UInt32) (eSigs : List CandidateEndorseSigInfo) : ℕ :=
  eSigs.countP fun e => e.endorsedProposer = p

/-- What the loops over signatures for blocks that are not empty keep: they count no more than
there is, and a proposer that they find has more than the quota. -/
structure Counted (quota : ℕ) (t : SigTally) (more : UInt32 → ℕ) (t' : SigTally) : Prop where
  no_empty : t'.emptyCnt = 0 ∧ t'.forEmpty = false
  count_le : ∀ p, t'.countFor p ≤ t.countFor p + more p
  found : t'.proposer = t.proposer ∨ quota < t'.countFor t'.proposer

theorem countFor_countOne (t : SigTally) (q p : UInt32) :
    (t.countOne q).countFor p = t.countFor p + if q = p then 1 else 0 := by
  rw [SigTally.countOne, SigTally.countFor, get_insert]
  by_cases h : p = q
  · subst h
    simp
  · simp [h, Ne.symm h, SigTally.countFor]

theorem sigLoop_counted (hsigs : ∀ e ∈ eSigs, e.forEmpty = false)
    (ht : t.emptyCnt = 0 ∧ t.forEmpty = false) :
    Counted quota t (fun p => sigsFor p eSigs) (sigLoop quota t eSigs) := by
  induction eSigs generalizing t with
  | nil => exact ⟨ht, fun p => Nat.le_add_right _ _, .inl rfl⟩
  | cons e eSigs ih =>
    have he := hsigs e mem_cons_self
    have hcount : ∀ p, (t.countOne e.endorsedProposer).countFor p + sigsFor p eSigs =
        t.countFor p + sigsFor p (e :: eSigs) := by
      intro p
      rw [countFor_countOne, sigsFor, sigsFor, countP_cons]
      simp only [decide_eq_true_eq]
      omega
    have ht' : (t.countOne e.endorsedProposer).emptyCnt = 0 ∧
        (t.countOne e.endorsedProposer).forEmpty = false := ht
    rw [sigLoop, he, if_neg Bool.false_ne_true]
    dsimp only
    split
    next hmore =>
      refine ⟨⟨ht.1, ?_⟩, fun p => ?_, .inr hmore⟩
      · simp [ht'.1, ht'.2]
      · rw [← hcount p]
        exact Nat.le_add_right _ _
    · obtain ⟨hno, hle, hfound⟩ := ih (fun e' he' => hsigs e' (mem_cons_of_mem e he')) ht'
      refine ⟨hno, fun p => ?_, hfound⟩
      rw [← hcount p]
      exact hle p

/-- The loop over the endorsers stops at the first proposer with more than the quota. -/
theorem endorserLoop_counted (hsigs : ∀ x ∈ l, ∀ e ∈ x.2, e.forEmpty = false)
    (ht : t.emptyCnt = 0 ∧ t.forEmpty = false) (hproposer : t.proposer = maxUint32)
    (hfound : (endorserLoop quota isEndorser t l).proposer ≠ maxUint32) :
    (endorserLoop quota isEndorser t l).forEmpty = false ∧
      quota < t.countFor (endorserLoop quota isEndorser t l).proposer +
        (l.map fun x => sigsFor (endorserLoop quota isEndorser t l).proposer x.2).sum := by
  induction l generalizing t with
  | nil => exact absurd hproposer hfound
  | cons x l ih =>
    obtain ⟨endorser, eSigs⟩ := x
    have hx : ∀ e ∈ eSigs, e.forEmpty = false := hsigs (endorser, eSigs) mem_cons_self
    -- no signature is for an empty block, so none is counted for a peer that is no endorser
    have hnone : (if isEndorser endorser then t
        else { t with emptyCnt := t.emptyCnt + eSigs.countP fun sig => sig.forEmpty }) = t := by
      have hzero : (eSigs.countP fun sig => sig.forEmpty) = 0 :=
        countP_eq_zero.mpr fun e he => by simp [hx e he]
      rw [hzero]
      split <;> rfl
    have heq : endorserLoop quota isEndorser t ((endorser, eSigs) :: l) =
        if (sigLoop quota t eSigs).proposer ≠ maxUint32 then sigLoop quota t eSigs
        else endorserLoop quota isEndorser (sigLoop quota t eSigs) l := by
      rw [endorserLoop, hnone]
    have hcounted : Counted quota t (fun p => sigsFor p eSigs) (sigLoop quota t eSigs) :=
      sigLoop_counted hx ht
    obtain ⟨hno, hle, hstop⟩ := hcounted
    rw [heq] at hfound ⊢
    simp only [map_cons, sum_cons]
    by_cases hmax : (sigLoop quota t eSigs).proposer = maxUint32
    · rw [if_neg (not_not_intro hmax)] at hfound ⊢
      obtain ⟨hempty, hsum⟩ := ih (fun y hy => hsigs y (mem_cons_of_mem _ hy)) hno hmax hfound
      have hp := hle (endorserLoop quota isEndorser (sigLoop quota t eSigs) l).proposer
      exact ⟨hempty, by omega⟩
    · rw [if_pos hmax] at hfound ⊢
      have hover : quota < (sigLoop quota t eSigs).countFor (sigLoop quota t eSigs).proposer :=
        hstop.resolve_left fun hsame => hmax (hsame.trans hproposer)
      have hp := hle (sigLoop quota t eSigs).proposer
      exact ⟨hno.2, by omega⟩

/-- With one signature at most for each endorser, the sum is a number of endorsers. -/
theorem sum_sigsFor_le (h : ∀ x ∈ l, (x.2.map CandidateEndorseSigInfo.endorsedProposer).Nodup) :
    (l.map fun x => sigsFor p x.2).sum ≤
      l.countP fun x => p ∈ x.2.map CandidateEndorseSigInfo.endorsedProposer := by
  induction l with
  | nil => exact Nat.le_refl _
  | cons x l ih =>
    have hrest := ih fun y hy => h y (mem_cons_of_mem x hy)
    have hx : sigsFor p x.2 ≤
        if p ∈ x.2.map CandidateEndorseSigInfo.endorsedProposer then 1 else 0 := by
      have hcount : sigsFor p x.2 =
          (x.2.map CandidateEndorseSigInfo.endorsedProposer).count p := by
        rw [List.count, countP_map]
        exact countP_congr fun e _ => by simp
      rw [hcount, (h x mem_cons_self).count]
    rw [map_cons, sum_cons, countP_cons]
    simp only [decide_eq_true_eq]
    omega

end Count

section Seal

variable {K : Keys} {cfg : NodeConfig K} {hashOf : UInt32 → Uint256} {candidate : CandidateInfo K}
  {msgs : List (ConsensusMsg K)} {order : SigOrder} {p : UInt32} {c n : UInt32}

/-- The header of a proposed block carries the signatures of its proposer and of all who support
it. -/
theorem addSignaturesToBlock_carries (hclean : Clean cfg hashOf candidate)
    (horder : (order candidate.endorseSigs.entries).Perm candidate.endorseSigs.entries) {msg}
    (hmsg : Proposed cfg msg) (hon : proposedHash cfg msg false = .ok (hashOf msg.block.proposer)) :
    ∃ pairs, candidate.addSignaturesToBlock order cfg.peerKey msg.block false = .ok pairs ∧
      ∀ i, i = msg.block.proposer ∨ candidate.Supports i msg.block.proposer →
        Carries cfg pairs (hashOf msg.block.proposer) i := by
  obtain ⟨pk, hpk, hverify⟩ := hmsg
  obtain ⟨_, hblock, -⟩ := bind_ok.mp hverify
  obtain ⟨sig, hash, hsig, hhash, hver⟩ := verifies_header hblock
  obtain rfl : hash = hashOf msg.block.proposer := ok_unique hhash hon
  have hindex : goIndex msg.block.block.header.sigData 0 = .ok sig := goIndex_ok.mpr hsig
  refine ⟨_, by simp only [CandidateInfo.addSignaturesToBlock, Bool.false_eq_true, if_false,
    pure_bind, hindex, ok_bind]; rfl, fun i hi => ?_⟩
  by_cases hself : i = msg.block.proposer
  · subst hself
    refine ⟨pk, sig, hpk, ?_, hver⟩
    rw [hpk]
    exact mem_cons_self
  · obtain ⟨e, ⟨eSigs, hget, he⟩, hp⟩ := hi.resolve_left hself
    have hfound : (eSigs.find? fun sig => sig.endorsedProposer = msg.block.proposer ∧
        sig.forEmpty = false ∧ i ≠ msg.block.proposer).isSome = true := by
      rw [find?_isSome]
      exact ⟨e, he, by simp [hp, (hclean.sigs i e ⟨eSigs, hget, he⟩).1, hself]⟩
    obtain ⟨e', he'⟩ := Option.isSome_iff_exists.mp hfound
    have hp' : e'.endorsedProposer = msg.block.proposer := by
      have := find?_some he'
      simp only [decide_eq_true_eq] at this
      exact this.1
    obtain ⟨-, pk', hpk', hver'⟩ :=
      hclean.sigs i e' ⟨eSigs, hget, mem_of_find?_eq_some he'⟩
    refine ⟨pk', e'.signature, hpk', mem_cons_of_mem _ ?_, hp' ▸ hver'⟩
    refine mem_map.mpr ⟨(pk', e'.signature), mem_filterMap.mpr ⟨(i, eSigs), ?_, ?_⟩, rfl⟩
    · exact horder.mem_iff.mpr (get_eq_some.mp hget)
    · simp only [endorserSig, he', hpk']
      rfl

theorem commitLoop_not_empty {k t l} (ht : t.emptyCommit = false)
    (h : ∀ m ∈ l, m.commitForEmpty = false) : (commitLoop k t l).2 = false := by
  induction l generalizing t with
  | nil => rfl
  | cons m l ih =>
    have hm := h m mem_cons_self
    have hcount : (t.count m).emptyCommit = false := by
      simp [CommitTally.count, CommitTally.countEmpty, CommitTally.countSigners, hm, ht]
    rw [commitLoop]
    split
    · exact hcount
    · exact ih hcount fun m' hm' => h m' (mem_cons_of_mem m hm')

/-- The endorsers that support a proposer, as one iteration over the signatures meets them. -/
def supporters (p : UInt32) (l : List (UInt32 × List CandidateEndorseSigInfo)) : Finset UInt32 :=
  ((l.filter fun x => p ∈ x.2.map CandidateEndorseSigInfo.endorsedProposer).map Prod.fst).toFinset

section

variable (horder : (order candidate.endorseSigs.entries).Perm candidate.endorseSigs.entries)
include horder

theorem card_supporters :
    (supporters p (order candidate.endorseSigs.entries)).card =
      (order candidate.endorseSigs.entries).countP fun x =>
        p ∈ x.2.map CandidateEndorseSigInfo.endorsedProposer := by
  have hkeys : ((order candidate.endorseSigs.entries).map Prod.fst).Nodup :=
    (horder.map Prod.fst).nodup_iff.mpr (keys_nodup _)
  rw [supporters, toFinset_card_of_nodup (hkeys.sublist (filter_sublist.map _)),
    length_map, countP_eq_length_filter]

theorem supports_of_mem_supporters {i : UInt32}
    (hi : i ∈ supporters p (order candidate.endorseSigs.entries)) : candidate.Supports i p := by
  obtain ⟨⟨j, eSigs⟩, hmem, rfl⟩ := mem_map.mp (mem_toFinset.mp hi)
  obtain ⟨hmem, hany⟩ := mem_filter.mp hmem
  obtain ⟨e, he, hp⟩ := mem_map.mp (of_decide_eq_true hany)
  exact ⟨e, ⟨eSigs, get_eq_some.mpr (horder.mem_iff.mp hmem), he⟩, hp⟩

end

/-- A proposer that the signatures decide on has more supporters than the quota. -/
theorem endorserLoop_supporters (hclean : Clean cfg hashOf candidate)
    (horder : (order candidate.endorseSigs.entries).Perm candidate.endorseSigs.entries)
    {quota : ℕ} {isEndorser : UInt32 → Bool}
    (hp : (endorserLoop quota isEndorser ⟨0, OrderedMap.empty, maxUint32, false⟩
      (order candidate.endorseSigs.entries)).proposer = p) (hmax : p ≠ maxUint32) :
    (endorserLoop quota isEndorser ⟨0, OrderedMap.empty, maxUint32, false⟩
      (order candidate.endorseSigs.entries)).forEmpty = false ∧
      quota < (supporters p (order candidate.endorseSigs.entries)).card := by
  have hget : ∀ x ∈ order candidate.endorseSigs.entries,
      candidate.endorseSigs.get x.1 = some x.2 := fun x hx =>
    get_eq_some.mpr (horder.mem_iff.mp hx)
  have hsigs : ∀ x ∈ order candidate.endorseSigs.entries, ∀ e ∈ x.2, e.forEmpty = false :=
    fun x hx e he => (hclean.sigs x.1 e ⟨x.2, hget x hx, he⟩).1
  have hdistinct : ∀ x ∈ order candidate.endorseSigs.entries,
      (x.2.map CandidateEndorseSigInfo.endorsedProposer).Nodup :=
    fun x hx => hclean.distinct x.1 x.2 (hget x hx)
  obtain ⟨hempty, hcount⟩ := endorserLoop_counted hsigs (t := ⟨0, OrderedMap.empty, maxUint32, false⟩)
    ⟨rfl, rfl⟩ rfl (hp ▸ hmax)
  refine ⟨hempty, ?_⟩
  rw [hp] at hcount
  have hsum : _ ≤ (order candidate.endorseSigs.entries).countP fun x =>
    p ∈ x.2.map CandidateEndorseSigInfo.endorsedProposer := sum_sigsFor_le hdistinct
  have hstart : (⟨0, OrderedMap.empty, maxUint32, false⟩ : SigTally).countFor p = 0 := rfl
  rw [card_supporters horder]
  omega

/-- What the commit consensus decides on: a proposer with enough support, and never its empty
block. -/
theorem commitDone_supported (hinv : SealInv cfg hashOf msgs candidate)
    (hmsgs : Straight cfg hashOf msgs) (hbound : 3 * c.toNat + 1 ≤ n.toNat)
    (horder : (order candidate.endorseSigs.entries).Perm candidate.endorseSigs.entries)
    {isEndorser : UInt32 → Bool} {forEmpty : Bool}
    (h : candidate.commitDone order isEndorser c n = (p, forEmpty, true)) :
    forEmpty = false ∧ ∃ signers : Finset UInt32, commitQuorum n.toNat ≤ signers.card ∧
      ∀ i ∈ signers, i = p ∨ candidate.Supports i p := by
  rcases hcons : getCommitConsensus candidate.commitMsgs c.toNat n.toNat with ⟨q, b⟩
  obtain rfl : b = false := by
    have hb : (getCommitConsensus candidate.commitMsgs c.toNat n.toNat).2 = false :=
      commitLoop_not_empty rfl fun m hm => (hmsgs.onBlock _ (hinv.received m hm)).1
    rwa [hcons] at hb
  simp only [CandidateInfo.commitDone, hcons] at h
  by_cases hq : q = maxUint32
  · -- the commits do not decide: the signatures do
    subst hq
    rw [if_pos rfl] at h
    split at h
    next hmax =>
      simp only [Prod.mk.injEq, and_true] at h
      obtain ⟨hp, rfl⟩ := h
      obtain ⟨hempty, hcard⟩ := endorserLoop_supporters hinv.toClean horder hp (hp ▸ hmax)
      refine ⟨hempty, supporters p (order candidate.endorseSigs.entries), ?_,
        fun i hi => .inr (supports_of_mem_supporters horder hi)⟩
      have hquota : (n - 1 - c).toNat = n.toNat - 1 - c.toNat := by
        have hn : (1 : UInt32) ≤ n := UInt32.le_iff_toNat_le.mpr (by simp; omega)
        have hn' : (n - 1).toNat = n.toNat - 1 := UInt32.toNat_sub_of_le _ _ hn
        rw [UInt32.toNat_sub_of_le _ _ (UInt32.le_iff_toNat_le.mpr (by omega)), hn']
      unfold commitQuorum
      omega
    · simp at h
  · simp only [hq, if_false, ne_eq, not_false_eq_true, if_true, Prod.mk.injEq, and_true] at h
    obtain ⟨rfl, rfl⟩ := h
    obtain ⟨pre, m, post, hsplit, rfl, -, hquorum, -⟩ := getCommitConsensus_decided hcons hq
    have hsub : pre ++ [m] ⊆ candidate.commitMsgs := by
      rw [hsplit]
      simp
    refine ⟨rfl, insert m.blockProposer (signersFor m.blockProposer (pre ++ [m])), ?_, ?_⟩
    · rw [Finset.card_insert_of_notMem]
      · exact hquorum
      · intro hmem
        obtain ⟨m', hm', hp, hs⟩ := mem_signersFor.mp hmem
        exact hmsgs.not_self m' (hinv.received m' (hsub hm')) (hp ▸ hs)
    · intro i hi
      refine (Finset.mem_insert.mp hi).imp_right fun hi => ?_
      obtain ⟨m', hm', hp, hs⟩ := mem_signersFor.mp hi
      exact hp ▸ hinv.support m' (hsub hm') i hs

/-- From genuine messages that count the same for the consensus and for the header, with less than
a third of the peers tolerated, every candidate can be sealed as its commit consensus decides. -/
theorem commitDone_sealable (cfg : NodeConfig K) (hashOf : UInt32 → Uint256)
    (msgs : List (ConsensusMsg K)) (hgen : ∀ msg ∈ msgs, Genuine cfg msg) (c n : UInt32)
    (hbound : 3 * c.toNat + 1 ≤ n.toNat) (hmsgs : Straight cfg hashOf msgs) :
    Sealable cfg (fun msg => Proposed cfg msg ∧ OnBlock cfg hashOf (.proposal msg))
      (msgs.foldl CandidateInfo.add .new) c n := by
  have hinv : SealInv cfg hashOf msgs (msgs.foldl CandidateInfo.add .new) :=
    SealInv.new.run hmsgs hgen (List.Subset.refl _)
  intro order order' isEndorser p forEmpty msg horder horder' hdone hmsg hp
  obtain ⟨rfl, signers, hcard, hsigners⟩ := commitDone_supported hinv hmsgs hbound horder hdone
  subst hp
  obtain ⟨pairs, hpairs, hcarries⟩ :=
    addSignaturesToBlock_carries hinv.toClean horder' hmsg.1 hmsg.2
  exact ⟨pairs, hashOf msg.block.proposer, hpairs, hmsg.2, signers, hcard,
    fun i hi => hcarries i (hsigners i hi)⟩

end Seal

/-- A node among seven peers, whose keys are their indices. -/
def sevenPeers : NodeConfig echoKeys :=
  { sampleNode with peerKey := fun i => if i < 7 then some [UInt8.ofNat i.toNat] else none }

def sampleEmptyHash : Uint256 :=
  zeroPad 32 (zeroPad 32 { sampleUnsigned with timestamp := 1 }.bytes).val

/-- The block of peer 4 and its empty block, both signed. -/
def sealProposal : BlockProposalMsg echoKeys :=
  ⟨⟨⟨⟨sampleUnsigned, [], [4 :: sampleHash.val]⟩, []⟩,
    some ⟨⟨{ sampleUnsigned with timestamp := 1 }, [], [4 :: sampleEmptyHash.val]⟩, []⟩, 4⟩⟩

/-- A commit of peer `i` to the block of peer 4 or to its empty block. -/
def sealCommit (i : UInt32) (forEmpty : Bool) : BlockCommitMsg :=
  let hash := if forEmpty then sampleEmptyHash else sampleHash
  ⟨i, 4, 5, hash, forEmpty, OrderedMap.empty, UInt8.ofNat i.toNat :: hash.val⟩

/-- The proposal and a commit of each of the first peers, for the empty block from `k` on. -/
def sealMsgs (k : ℕ) : List (ConsensusMsg echoKeys) :=
  .proposal sealProposal :: (List.range 4).map fun i => .commit (sealCommit (UInt32.ofNat i) (k ≤ i))

def sealCandidate (k : ℕ) : CandidateInfo echoKeys := (sealMsgs k).foldl CandidateInfo.add .new

theorem sealProposal_proposed : Proposed sevenPeers sealProposal :=
  ⟨[4], rfl, by decide +kernel⟩

theorem sealCommit_genuine {i : UInt32} (hi : i < 7) (forEmpty : Bool) :
    Genuine sevenPeers (.commit (sealCommit i forEmpty)) := by
  refine ⟨⟨sealProposal, sealProposal_proposed, rfl, rfl, ?_⟩, ?_, fun j sig hget => ?_⟩
  · have hblock : proposedHash sevenPeers sealProposal false = .ok sampleHash := by decide +kernel
    have hempty : proposedHash sevenPeers sealProposal true = .ok sampleEmptyHash := by
      decide +kernel
    cases forEmpty with
    | false => exact hblock
    | true => exact hempty
  · exact ⟨_, if_pos hi, _, rfl, beq_self_eq_true _⟩
  · cases hget

theorem sealMsgs_genuine (k : ℕ) : ∀ msg ∈ sealMsgs k, Genuine sevenPeers msg := by
  intro msg hmsg
  rcases mem_cons.mp hmsg with rfl | hmsg
  · exact sealProposal_proposed
  · obtain ⟨i, hi, rfl⟩ := mem_map.mp hmsg
    have hlt : ∀ j ∈ List.range 4, UInt32.ofNat j < 7 := by decide
    exact sealCommit_genuine (hlt i hi) _

instance : DecidableEq echoKeys.PublicKey := inferInstanceAs (DecidableEq Bytes)

/-- The signatures of the header for the block that is decided on when two of the four commits are
for the empty one. -/
def mixedPairs : List (Option echoKeys.PublicKey × Bytes) :=
  let signed (i : UInt8) : Bytes × Bytes := ([i], i :: sampleHash.val)
  [4, 0, 1].map fun i => (some (signed i).1, (signed i).2)

theorem mixedPairs_not_enough : ¬ EnoughSigs sevenPeers 7 mixedPairs sampleHash := by
  rintro ⟨signers, hcard, hsigners⟩
  have hsub : signers ⊆ {0, 1, 4} := by
    intro i hi
    obtain ⟨pk, sig, hpk, hmem, -⟩ := hsigners i hi
    have hlt : i < 7 := by
      by_contra hge
      rw [show sevenPeers.peerKey i = none from if_neg hge] at hpk
      cases hpk
    have hkey : some pk ∈ mixedPairs.map Prod.fst := mem_map.mpr ⟨_, hmem, rfl⟩
    rw [← hpk] at hkey
    have hall : ∀ k < 7, sevenPeers.peerKey (UInt32.ofNat k) ∈ mixedPairs.map Prod.fst →
        UInt32.ofNat k ∈ ({0, 1, 4} : Finset UInt32) := by decide +kernel
    have hi' : UInt32.ofNat i.toNat = i := UInt32.ofNat_toNat
    have := hall i.toNat (UInt32.lt_iff_toNat_lt.mp hlt)
    rw [hi'] at this
    exact this hkey
  have := Finset.card_le_card hsub
  have hthree : ({0, 1, 4} : Finset UInt32).card = 3 := by decide
  have hfive : commitQuorum 7 = 5 := by decide
  omega

/-- Two commits to the block and two to the empty block decide for the block, with three
signatures. -/
theorem commitDone_unsealable :
    (∀ msg ∈ sealMsgs 2, Genuine sevenPeers msg) ∧
      (sealCandidate 2).commitDone id (fun _ => true) 2 7 = (4, false, true) ∧
      (sealCandidate 2).addSignaturesToBlock id sevenPeers.peerKey sealProposal.block false =
        .ok mixedPairs ∧ ¬ EnoughSigs sevenPeers 7 mixedPairs sampleHash := by
  refine ⟨sealMsgs_genuine 2, by decide +kernel, by decide +kernel, mixedPairs_not_enough⟩

theorem commitDone_sealable_four :
    (sealCandidate 4).commitDone id (fun _ => true) 2 7 = (4, false, true) ∧
      Sealable sevenPeers (fun msg => Proposed sevenPeers msg ∧
        OnBlock sevenPeers (fun _ => sampleHash) (.proposal msg)) (sealCandidate 4) 2 7 := by
  refine ⟨by decide +kernel, commitDone_sealable sevenPeers (fun _ => sampleHash) (sealMsgs 4)
    (sealMsgs_genuine 4) 2 7 (by decide) ?_⟩
  have hcommit : ∀ m, .commit m ∈ sealMsgs 4 → ∃ i ∈ List.range 4,
      m = sealCommit (UInt32.ofNat i) false := by
    intro m hm
    rcases mem_cons.mp hm with heq | hm
    · cases heq
    · obtain ⟨i, hi, heq⟩ := mem_map.mp hm
      have hi4 : ¬ 4 ≤ i := Nat.not_le.mpr (mem_range.mp hi)
      simp only [hi4, decide_false] at heq
      exact ⟨i, hi, (ConsensusMsg.commit.inj heq).symm⟩
  refine ⟨fun msg hmsg => ?_, fun m hm => ?_, fun m m' hm hm' _ => ?_⟩
  · cases msg with
    | proposal m =>
      rcases mem_cons.mp hmsg with heq | hmsg
      · cases ConsensusMsg.proposal.inj heq
        rfl
      · obtain ⟨i, -, heq⟩ := mem_map.mp hmsg
        cases heq
    | endorse m =>
      rcases mem_cons.mp hmsg with heq | hmsg
      · cases heq
      · obtain ⟨i, -, heq⟩ := mem_map.mp hmsg
        cases heq
    | commit m =>
      obtain ⟨i, -, rfl⟩ := hcommit m hmsg
      exact ⟨rfl, rfl⟩
  · obtain ⟨i, hi, rfl⟩ := hcommit m hm
    have hne : ∀ i ∈ List.range 4, (4 : UInt32) ∉ (sealCommit (UInt32.ofNat i) false).signers := by
      decide
    exact hne i hi
  · obtain ⟨i, -, rfl⟩ := hcommit m hm
    obtain ⟨j, -, rfl⟩ := hcommit m' hm'
    rfl

end Poly.Vbft
