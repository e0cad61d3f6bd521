import Poly.Vbft.Commit

/-! The candidates of the block pool: what each message adds to them, when the votes they hold
reach consensus, and the signatures that a sealed block gets. -/
namespace Poly.Vbft

open Lib List

/-- The messages that the pools keep. -/
inductive ConsensusMsg (K : Keys) where
  | proposal (msg : BlockProposalMsg K)
  | endorse (msg : BlockEndorseMsg)
  | commit (msg : BlockCommitMsg)

def ConsensusMsg.getBlockNum {K : Keys} : ConsensusMsg K → UInt32
  | .proposal msg => msg.getBlockNum
  | .endorse msg => msg.blockNum
  | .commit msg => msg.blockNum

structure CandidateEndorseSigInfo where
  endorsedProposer : UInt32
  signature : Bytes
  forEmpty : Bool
  deriving DecidableEq

structure CandidateInfo (K : Keys) where
  endorsedProposal : Option (BlockProposalMsg K)
  endorsedEmptyProposal : Option (BlockProposalMsg K)
  committedProposal : Option (BlockProposalMsg K)
  committedEmptyProposal : Option (BlockProposalMsg K)
  proposals : List (BlockProposalMsg K)
  commitMsgs : List BlockCommitMsg
  endorseSigs : OrderedMap UInt32 (List CandidateEndorseSigInfo)

section Candidate

variable {K : Keys}

def errDupProposal : Failure := .error "multi proposal from same proposer"

def errDupCommit : Failure := .error "multi commit from same committer"

def CandidateInfo.new : CandidateInfo K := ⟨none, none, none, none, [], [], OrderedMap.empty⟩

/-- The list of an endorser with one more signature. -/
def addEndorseSig (eSigs : List CandidateEndorseSigInfo) (eSig : CandidateEndorseSigInfo) :
    List CandidateEndorseSigInfo :=
  -- one that has endorsed for empty endorses nothing more
  if eSigs.any fun e => e.forEmpty then eSigs
  else if eSig.forEmpty then eSigs ++ [eSig]
  else if eSigs.any fun e => e.endorsedProposer = eSig.endorsedProposer then eSigs
  else eSigs ++ [eSig]

/-- The signature of a commitment replaces those that the endorser has. -/
def nextEndorseSigs (eSigs : Option (List CandidateEndorseSigInfo))
    (eSig : CandidateEndorseSigInfo) (commitment : Bool) : List CandidateEndorseSigInfo :=
  match eSigs, commitment with
  | some eSigs, false => addEndorseSig eSigs eSig
  | _, _ => [eSig]

def CandidateInfo.addBlockEndorsement (c : CandidateInfo K) (endorser : UInt32)
    (eSig : CandidateEndorseSigInfo) (commitment : Bool) : CandidateInfo K :=
  let eSigs := nextEndorseSigs (c.endorseSigs.get endorser) eSig commitment
  { c with endorseSigs := c.endorseSigs.insert endorser eSigs }

/-- The first signature of the block of a proposal. -/
def BlockProposalMsg.sig (msg : BlockProposalMsg K) : Result Bytes :=
  goIndex msg.block.block.header.sigData 0

def CandidateInfo.newBlockProposal (c : CandidateInfo K) (msg : BlockProposalMsg K) :
    Result (CandidateInfo K) := do
  let proposer := msg.block.proposer
  match c.proposals.find? fun p => p.block.proposer = proposer with
  | some p =>
    let old ← p.sig
    let new ← msg.sig
    failIf (old ≠ new) errDupProposal
    return c
  | none =>
    let sig ← msg.sig
    let c := { c with proposals := c.proposals ++ [msg] }
    return c.addBlockEndorsement proposer ⟨proposer, sig, false⟩ false

def BlockEndorseMsg.sigInfo (msg : BlockEndorseMsg) : CandidateEndorseSigInfo :=
  ⟨msg.endorsedProposer, msg.endorserSig, msg.endorseForEmpty⟩

def CandidateInfo.newBlockEndorsement (c : CandidateInfo K) (msg : BlockEndorseMsg) :
    CandidateInfo K :=
  c.addBlockEndorsement msg.endorser msg.sigInfo false

/-- A signature that a commit message carries, as one for the block it commits. -/
def BlockCommitMsg.sigInfo (msg : BlockCommitMsg) (sig : Bytes) : CandidateEndorseSigInfo :=
  ⟨msg.blockProposer, sig, msg.commitForEmpty⟩

def CandidateInfo.newBlockCommitment (c : CandidateInfo K) (msg : BlockCommitMsg) :
    Result (CandidateInfo K) :=
  match c.commitMsgs.find? fun m => m.committer = msg.committer with
  | some m => do
    failIf (m.commitBlockHash ≠ msg.commitBlockHash) errDupCommit
    return c
  | none =>
    -- the endorsers are different, so their order does not matter
    let c := msg.endorsersSig.entries.foldl
      (fun c x => c.addBlockEndorsement x.1 (msg.sigInfo x.2) false) c
    let c := c.addBlockEndorsement msg.committer (msg.sigInfo msg.committerSig) true
    return { c with commitMsgs := c.commitMsgs ++ [msg] }

def CandidateInfo.newMsg (c : CandidateInfo K) : ConsensusMsg K → Result (CandidateInfo K)
  | .proposal msg => c.newBlockProposal msg
  | .endorse msg => .ok (c.newBlockEndorsement msg)
  | .commit msg => c.newBlockCommitment msg

/-- A message that is refused leaves the candidate as it is. -/
def CandidateInfo.add (c : CandidateInfo K) (msg : ConsensusMsg K) : CandidateInfo K :=
  (c.newMsg msg).toOption.getD c

end Candidate

section CommitDone

/-- The variables of the loop over the signatures. -/
structure SigTally where
  emptyCnt : ℕ
  endorseCnt : OrderedMap UInt32 ℕ
  proposer : UInt32
  forEmpty : Bool

def SigTally.countFor (t : SigTally) (proposer : UInt32) : ℕ :=
  (t.endorseCnt.get proposer).getD 0

def SigTally.countOne (t : SigTally) (proposer : UInt32) : SigTally :=
  { t with endorseCnt := t.endorseCnt.insert proposer (t.countFor proposer + 1) }

/-- The signatures of one endorser, until some proposer has more than the quota. -/
def sigLoop (quota : ℕ) : SigTally → List CandidateEndorseSigInfo → SigTally
  | t, [] => t
  | t, sig :: rest =>
    if sig.forEmpty then sigLoop quota { t with emptyCnt := t.emptyCnt + 1 } rest
    else
      let t := t.countOne sig.endorsedProposer
      if t.countFor sig.endorsedProposer > quota then
        { t with proposer := sig.endorsedProposer
                 forEmpty := t.forEmpty || decide (t.emptyCnt > quota) }
      else sigLoop quota t rest

def endorserLoop (quota : ℕ) (isEndorser : UInt32 → Bool) :
    SigTally → List (UInt32 × List CandidateEndorseSigInfo) → SigTally
  | t, [] => t
  | t, (endorser, eSigs) :: rest =>
    let t :=
      if isEndorser endorser then t
      else { t with emptyCnt := t.emptyCnt + eSigs.countP fun sig => sig.forEmpty }
    let t := sigLoop quota t eSigs
    if t.proposer ≠ maxUint32 then t else endorserLoop quota isEndorser t rest

/-- The order in which one iteration over the map of signatures takes its entries. -/
abbrev SigOrder :=
  List (UInt32 × List CandidateEndorseSigInfo) → List (UInt32 × List CandidateEndorseSigInfo)

variable {K : Keys}

def CandidateInfo.commitDone (order : SigOrder) (isEndorser : UInt32 → Bool)
    (candidate : CandidateInfo K) (c n : UInt32) : UInt32 × Bool × Bool :=
  let (proposer, forEmpty) := getCommitConsensus candidate.commitMsgs c.toNat n.toNat
  let quota := (n - 1 - c).toNat
  let t : SigTally := ⟨0, OrderedMap.empty, proposer, forEmpty⟩
  let t :=
    if proposer = maxUint32 then
      endorserLoop quota isEndorser t (order candidate.endorseSigs.entries)
    else t
  if t.proposer ≠ maxUint32 then (t.proposer, t.forEmpty, true) else (maxUint32, false, false)

end CommitDone

section Seal

variable {K : Keys}

/-- The signature of an endorser for the block, if it has one and its key is known. -/
def endorserSig (peerKey : UInt32 → Option K.PublicKey) (proposer : UInt32) (forEmpty : Bool)
    (x : UInt32 × List CandidateEndorseSigInfo) : Option (K.PublicKey × Bytes) := do
  let sig ← x.2.find? fun sig =>
    sig.endorsedProposer = proposer ∧ sig.forEmpty = forEmpty ∧ x.1 ≠ proposer
  let key ← peerKey x.1
  return (key, sig.signature)

/-- The bookkeepers of the sealed header with their signatures; the key of a proposer that is not
known is nil. -/
def CandidateInfo.addSignaturesToBlock (order : SigOrder) (peerKey : UInt32 → Option K.PublicKey)
    (c : CandidateInfo K) (block : VbftBlock K) (forEmpty : Bool) :
    Result (List (Option K.PublicKey × Bytes)) := do
  let header ←
    if forEmpty then do
      let emptyBlock ← orFail block.emptyBlock (.error "block has no empty candidate")
      pure emptyBlock.header
    else pure block.block.header
  let sig ← goIndex header.sigData 0
  let sigs := (order c.endorseSigs.entries).filterMap (endorserSig peerKey block.proposer forEmpty)
  return (peerKey block.proposer, sig) :: sigs.map fun x => (some x.1, x.2)

end Seal

variable {K : Keys} {c c' : CandidateInfo K} {i j : UInt32} {e eSig : CandidateEndorseSigInfo}

/-- An endorser and a signature that the candidate holds for it. -/
def CandidateInfo.Holds (c : CandidateInfo K) (i : UInt32) (e : CandidateEndorseSigInfo) : Prop :=
  ∃ eSigs, c.endorseSigs.get i = some eSigs ∧ e ∈ eSigs

/-- The votes that a message brings. -/
def ConsensusMsg.Votes (i : UInt32) (e : CandidateEndorseSigInfo) : ConsensusMsg K → Prop
  | .proposal msg => i = msg.block.proposer ∧ e.endorsedProposer = msg.block.proposer ∧
      msg.sig = .ok e.signature ∧ e.forEmpty = false
  | .endorse msg => i = msg.endorser ∧ e = msg.sigInfo
  | .commit msg => (∃ sig, msg.endorsersSig.get i = some sig ∧ e = msg.sigInfo sig) ∨
      i = msg.committer ∧ e = msg.sigInfo msg.committerSig

theorem mem_addEndorseSig {eSigs} (h : e ∈ addEndorseSig eSigs eSig) : e ∈ eSigs ∨ e = eSig := by
  unfold addEndorseSig at h
  split at h
  · exact .inl h
  · split at h
    · simpa using h
    · split at h
      · exact .inl h
      · simpa using h

theorem addBlockEndorsement_get_self (c : CandidateInfo K) (i : UInt32)
    (eSig : CandidateEndorseSigInfo) (commitment : Bool) :
    (c.addBlockEndorsement i eSig commitment).endorseSigs.get i =
      some (nextEndorseSigs (c.endorseSigs.get i) eSig commitment) :=
  OrderedMap.get_insert_self ..

theorem addBlockEndorsement_get_of_ne (c : CandidateInfo K) (eSig : CandidateEndorseSigInfo)
    (commitment : Bool) (h : i ≠ j) :
    (c.addBlockEndorsement j eSig commitment).endorseSigs.get i = c.endorseSigs.get i :=
  OrderedMap.get_insert_of_ne _ _ h

theorem holds_addBlockEndorsement {commitment : Bool}
    (h : (c.addBlockEndorsement j eSig commitment).Holds i e) :
    c.Holds i e ∨ i = j ∧ e = eSig := by
  obtain ⟨eSigs, hget, he⟩ := h
  by_cases hij : i = j
  · subst hij
    rw [addBlockEndorsement_get_self, Option.some.injEq] at hget
    subst hget
    unfold nextEndorseSigs at he
    split at he
    next old hold =>
      exact (mem_addEndorseSig he).imp (fun hmem => ⟨old, hold, hmem⟩) fun heq => ⟨rfl, heq⟩
    · exact .inr ⟨rfl, mem_singleton.mp he⟩
  · rw [addBlockEndorsement_get_of_ne _ _ _ hij] at hget
    exact .inl ⟨eSigs, hget, he⟩

@[simp] theorem addBlockEndorsement_proposals (c : CandidateInfo K) (eSig : CandidateEndorseSigInfo)
    (commitment : Bool) : (c.addBlockEndorsement j eSig commitment).proposals = c.proposals := rfl

/-- The endorsements that a commit message carries, one after the other. -/
def CandidateInfo.addEndorsers (c : CandidateInfo K) (msg : BlockCommitMsg)
    (entries : List (UInt32 × Bytes)) : CandidateInfo K :=
  entries.foldl (fun c x => c.addBlockEndorsement x.1 (msg.sigInfo x.2) false) c

theorem addEndorsers_commitMsgs (c : CandidateInfo K) (msg : BlockCommitMsg)
    (entries : List (UInt32 × Bytes)) :
    (c.addEndorsers msg entries).commitMsgs = c.commitMsgs ∧
      (c.addEndorsers msg entries).proposals = c.proposals := by
  induction entries generalizing c with
  | nil => exact ⟨rfl, rfl⟩
  | cons x entries ih => exact ih (c.addBlockEndorsement x.1 (msg.sigInfo x.2) false)

theorem holds_addEndorsers {msg entries} (h : (c.addEndorsers msg entries).Holds i e) :
    c.Holds i e ∨ ∃ sig, (i, sig) ∈ entries ∧ e = msg.sigInfo sig := by
  induction entries generalizing c with
  | nil => exact .inl h
  | cons x entries ih =>
    rcases ih h with h | ⟨sig, hmem, he⟩
    · rcases holds_addBlockEndorsement h with h | ⟨rfl, he⟩
      · exact .inl h
      · exact .inr ⟨x.2, mem_cons_self, he⟩
    · exact .inr ⟨sig, mem_cons_of_mem x hmem, he⟩

variable {msg : ConsensusMsg K}

variable (h : c.newMsg msg = .ok c')
include h

/-- What a message that is not refused does to a candidate: nothing where it was there before. -/
theorem newMsg_cases :
    c' = c ∨
    (∃ m sig, msg = .proposal m ∧ m.sig = .ok sig ∧
      c' = ({ c with proposals := c.proposals ++ [m] } : CandidateInfo K).addBlockEndorsement
        m.block.proposer ⟨m.block.proposer, sig, false⟩ false) ∨
    (∃ m, msg = .endorse m ∧ c' = c.addBlockEndorsement m.endorser m.sigInfo false) ∨
    ∃ m, msg = .commit m ∧ (∀ m' ∈ c.commitMsgs, m'.committer ≠ m.committer) ∧
      c' = { (c.addEndorsers m m.endorsersSig.entries).addBlockEndorsement m.committer
        (m.sigInfo m.committerSig) true with commitMsgs := c.commitMsgs ++ [m] } := by
  cases msg with
  | proposal m =>
    simp only [CandidateInfo.newMsg, CandidateInfo.newBlockProposal] at h
    split at h
    · obtain ⟨old, -, h⟩ := bind_ok.mp h
      obtain ⟨new, -, h⟩ := bind_ok.mp h
      obtain ⟨u, -, h⟩ := bind_ok.mp h
      exact .inl (Except.ok.inj h).symm
    · obtain ⟨sig, hsig, h⟩ := bind_ok.mp h
      exact .inr (.inl ⟨m, sig, rfl, hsig, (Except.ok.inj h).symm⟩)
  | endorse m => exact .inr (.inr (.inl ⟨m, rfl, (Except.ok.inj h).symm⟩))
  | commit m =>
    simp only [CandidateInfo.newMsg, CandidateInfo.newBlockCommitment] at h
    split at h
    · obtain ⟨u, -, h⟩ := bind_ok.mp h
      exact .inl (Except.ok.inj h).symm
    next hnone =>
      refine .inr (.inr (.inr ⟨m, rfl, fun m' hm' heq => ?_, ?_⟩))
      · exact absurd heq (by simpa using find?_eq_none.mp hnone m' hm')
      · cases h
        rw [show c.commitMsgs = (c.addEndorsers m m.endorsersSig.entries).commitMsgs from
          (addEndorsers_commitMsgs c m _).1.symm]
        rfl

/-- The signatures after a message are those before and the votes of the message. -/
theorem holds_newMsg (hold : c'.Holds i e) :
    c.Holds i e ∨ msg.Votes i e := by
  rcases newMsg_cases h with rfl | ⟨m, sig, rfl, hsig, rfl⟩ | ⟨m, rfl, rfl⟩ | ⟨m, rfl, -, rfl⟩
  · exact .inl hold
  · rcases holds_addBlockEndorsement hold with h | ⟨hi, he⟩
    · exact .inl h
    · subst he
      exact .inr ⟨hi, rfl, hsig, rfl⟩
  · exact holds_addBlockEndorsement hold
  · have hold' : ((c.addEndorsers m m.endorsersSig.entries).addBlockEndorsement m.committer
        (m.sigInfo m.committerSig) true).Holds i e := hold
    rcases holds_addBlockEndorsement hold' with h | hlast
    · rcases holds_addEndorsers h with h | ⟨sig, hmem, he⟩
      · exact .inl h
      · exact .inr (.inl ⟨sig, OrderedMap.get_eq_some.mpr hmem, he⟩)
    · exact .inr (.inr hlast)

theorem commitMsgs_newMsg {m} (hm : m ∈ c'.commitMsgs) : m ∈ c.commitMsgs ∨ msg = .commit m := by
  rcases newMsg_cases h with rfl | ⟨m', sig, rfl, hsig, rfl⟩ | ⟨m', rfl, rfl⟩ | ⟨m', rfl, -, rfl⟩
  · exact .inl hm
  · exact .inl hm
  · exact .inl hm
  · rcases mem_append.mp hm with hm | hm
    · exact .inl hm
    · exact .inr (congrArg _ (mem_singleton.mp hm).symm)

theorem proposals_newMsg {m} (hm : m ∈ c'.proposals) : m ∈ c.proposals ∨ msg = .proposal m := by
  rcases newMsg_cases h with rfl | ⟨m', sig, rfl, hsig, rfl⟩ | ⟨m', rfl, rfl⟩ | ⟨m', rfl, -, rfl⟩
  · exact .inl hm
  · rcases mem_append.mp hm with hm | hm
    · exact .inl hm
    · exact .inr (congrArg _ (mem_singleton.mp hm).symm)
  · exact .inl hm
  · exact .inl (by simpa [(addEndorsers_commitMsgs c m' _).2] using hm)

end Poly.Vbft
