import Poly.Vbft.Server

/-! Whose signatures the block pool holds: a vote is checked with the key of the peer that sent it,
so it is the vote of the peer that it names only where every sender tells the truth. -/
namespace Poly.Vbft

open Lib Server List OrderedMap

section Genuine

variable {K : Keys} (cfg : NodeConfig K)

def Verifies (pk : K.PublicKey) (hash : Uint256) (sig : Bytes) : Prop :=
  ∃ s, K.deserializeSignature sig = .ok s ∧ K.verify pk hash.val s = true

/-- A signature of a hash under the key of a peer. -/
def SignedBy (i : UInt32) (hash : Uint256) (sig : Bytes) : Prop :=
  ∃ pk, cfg.peerKey i = some pk ∧ Verifies pk hash sig

/-- A proposal with the signatures of the proposer that it names. -/
def Proposed (msg : BlockProposalMsg K) : Prop :=
  ∃ pk, cfg.peerKey msg.block.proposer = some pk ∧ msg.verify K cfg.sha256 pk = .ok ()

/-- The hash is that of the block, or of the empty block, that the proposer has proposed. -/
def BlockOf (blkNum proposer : UInt32) (forEmpty : Bool) (hash : Uint256) : Prop :=
  ∃ msg, Proposed cfg msg ∧ msg.getBlockNum = blkNum ∧ msg.block.proposer = proposer ∧
    proposedHash cfg msg forEmpty = .ok hash

/-- A message whose signatures are those of the peers that it names, for the block that it
names. -/
def Genuine : ConsensusMsg K → Prop
  | .proposal msg => Proposed cfg msg
  | .endorse msg =>
    BlockOf cfg msg.blockNum msg.endorsedProposer msg.endorseForEmpty msg.endorsedBlockHash ∧
      SignedBy cfg msg.endorser msg.endorsedBlockHash msg.endorserSig
  | .commit msg =>
    BlockOf cfg msg.blockNum msg.blockProposer msg.commitForEmpty msg.commitBlockHash ∧
      SignedBy cfg msg.committer msg.commitBlockHash msg.committerSig ∧
      ∀ i sig, msg.endorsersSig.get i = some sig → SignedBy cfg i msg.commitBlockHash sig

/-- A signature of the peer for the block that it is held for. -/
def AuthenticSig (blkNum i : UInt32) (e : CandidateEndorseSigInfo) : Prop :=
  ∃ hash, BlockOf cfg blkNum e.endorsedProposer e.forEmpty hash ∧ SignedBy cfg i hash e.signature

/-- Every signature that the pool holds and every commit that it has stored. -/
structure Authentic (pool : BlockPool K) : Prop where
  sigs : ∀ blkNum c, pool.get blkNum = some c → ∀ i e, c.Holds i e → AuthenticSig cfg blkNum i e
  commits : ∀ blkNum c, pool.get blkNum = some c → ∀ msg ∈ c.commitMsgs, Genuine cfg (.commit msg)

/-- What a node does not check of the endorsements and commits it receives: they name their sender
and a proposed block, and the signatures that they carry are those of the peers they name. -/
def Truthful (fromPeer : UInt32) : ConsensusMsg K → Prop
  | .proposal _ => True
  | .endorse msg => msg.endorser = fromPeer ∧
      BlockOf cfg msg.blockNum msg.endorsedProposer msg.endorseForEmpty msg.endorsedBlockHash
  | .commit msg => msg.committer = fromPeer ∧
      BlockOf cfg msg.blockNum msg.blockProposer msg.commitForEmpty msg.commitBlockHash ∧
      ∀ i sig, msg.endorsersSig.get i = some sig → SignedBy cfg i msg.commitBlockHash sig

def NodeEvent.Truthful : NodeEvent K → Prop
  | .receive fromPeer msg _ _ => Vbft.Truthful cfg fromPeer msg
  | _ => True

end Genuine

section Verify

variable {K : Keys} {cfg : NodeConfig K} {what : String} {pk : K.PublicKey} {hash : Uint256}
  {sig : Bytes}

theorem verifies_of_ok {u} (h : verifyBlockSig K what pk hash sig = .ok u) :
    Verifies pk hash sig := by
  unfold verifyBlockSig at h
  split at h
  · cases h
  next s hs => exact ⟨s, hs, by simpa using h⟩

theorem verifies_header {header u} (h : verifyHeaderSig K cfg.sha256 what pk header = .ok u) :
    ∃ sig hash, header.sigData[0]? = some sig ∧ header.hash cfg.sha256 = .ok hash ∧
      Verifies pk hash sig := by
  obtain ⟨sig, hsig, h⟩ := bind_ok.mp h
  obtain ⟨hash, hhash, h⟩ := bind_ok.mp h
  rw [orFail_ok, head?_eq_getElem?] at hsig
  exact ⟨sig, hash, hsig, hhash, verifies_of_ok h⟩

/-- The signature that a proposal brings is the proposer's for its block. -/
theorem Proposed.sig_authentic {msg} (h : Proposed cfg msg) (hsig : msg.sig = .ok sig) :
    ∃ hash, proposedHash cfg msg false = .ok hash ∧ SignedBy cfg msg.block.proposer hash sig := by
  obtain ⟨pk, hpk, hverify⟩ := h
  obtain ⟨_, hblock, -⟩ := bind_ok.mp hverify
  obtain ⟨sig', hash, hsig', hhash, hver⟩ := verifies_header hblock
  cases hsig'.symm.trans (goIndex_ok.mp hsig)
  exact ⟨hash, hhash, pk, hpk, hver⟩

/-- What the receive loop establishes of a message whose sender tells the truth. -/
theorem genuine_of_verifyMsg {fromPeer msg u} (h : verifyMsg cfg fromPeer msg = .ok u)
    (htrue : Truthful cfg fromPeer msg) : Genuine cfg msg := by
  obtain ⟨pk, hpk, h⟩ := bind_ok.mp h
  rw [orFail_ok] at hpk
  cases msg with
  | proposal m =>
    obtain ⟨pk', hpk', h⟩ := bind_ok.mp h
    exact ⟨pk', orFail_ok.mp hpk', h⟩
  | endorse m =>
    obtain ⟨hsender, hblock⟩ := htrue
    exact ⟨hblock, pk, hsender ▸ hpk, verifies_of_ok h⟩
  | commit m =>
    obtain ⟨hsender, hblock, hsigs⟩ := htrue
    exact ⟨hblock, ⟨pk, hsender ▸ hpk, verifies_of_ok h⟩, hsigs⟩

theorem Genuine.vote {msg} (h : Genuine cfg msg) {i e} (hvote : msg.Votes i e) :
    AuthenticSig cfg msg.getBlockNum i e := by
  cases msg with
  | proposal m =>
    obtain ⟨rfl, hproposer, hsig, hempty⟩ := hvote
    obtain ⟨hash, hhash, hsigned⟩ := h.sig_authentic hsig
    exact ⟨hash, ⟨m, h, rfl, hproposer.symm, hempty ▸ hhash⟩, hsigned⟩
  | endorse m =>
    obtain ⟨rfl, rfl⟩ := hvote
    exact ⟨m.endorsedBlockHash, h⟩
  | commit m =>
    obtain ⟨hblock, hcommitter, hsigs⟩ := h
    rcases hvote with ⟨sig, hget, rfl⟩ | ⟨rfl, rfl⟩
    · exact ⟨m.commitBlockHash, hblock, hsigs i sig hget⟩
    · exact ⟨m.commitBlockHash, hblock, hcommitter⟩

end Verify

section Pools

variable {K : Keys} {cfg : NodeConfig K}

structure GenuineCandidate (cfg : NodeConfig K) (blkNum : UInt32) (c : CandidateInfo K) :
    Prop where
  sigs : ∀ i e, c.Holds i e → AuthenticSig cfg blkNum i e
  commits : ∀ msg ∈ c.commitMsgs, Genuine cfg (.commit msg)
  proposals : ∀ msg ∈ c.proposals, Genuine cfg (.proposal msg)

def GenuinePool (cfg : NodeConfig K) (pool : BlockPool K) : Prop :=
  ∀ blkNum c, pool.get blkNum = some c → GenuineCandidate cfg blkNum c

def GenuineRounds (cfg : NodeConfig K) (pool : MsgPool K) : Prop :=
  ∀ blkNum, ∀ x ∈ pool.round blkNum, Genuine cfg x.2

variable {pool : BlockPool K} {rounds : MsgPool K} {msg : ConsensusMsg K} {blkNum : UInt32}

theorem GenuineCandidate.new : GenuineCandidate cfg blkNum CandidateInfo.new where
  sigs := by
    rintro i e ⟨eSigs, hget, -⟩
    cases hget
  commits := nofun
  proposals := nofun

theorem GenuineCandidate.newMsg {c c'} (hc : GenuineCandidate cfg msg.getBlockNum c)
    (hmsg : Genuine cfg msg) (h : c.newMsg msg = .ok c') :
    GenuineCandidate cfg msg.getBlockNum c' where
  sigs := fun i e hold => (holds_newMsg h hold).elim (hc.sigs i e) hmsg.vote
  commits := fun m hm => (commitMsgs_newMsg h hm).elim (hc.commits m) fun heq => heq ▸ hmsg
  proposals := fun m hm => (proposals_newMsg h hm).elim (hc.proposals m) fun heq => heq ▸ hmsg

section

variable (h : GenuinePool cfg pool)
include h

theorem GenuinePool.candidate (blkNum : UInt32) :
    GenuineCandidate cfg blkNum (pool.candidate blkNum) := by
  unfold BlockPool.candidate
  cases hget : pool.get blkNum with
  | none => exact .new
  | some c => exact h blkNum c hget

theorem GenuinePool.insert {c} (hc : GenuineCandidate cfg blkNum c) :
    GenuinePool cfg (pool.insert blkNum c) := by
  intro n c' hget
  by_cases hn : n = blkNum
  · subst hn
    rw [get_insert_self, Option.some.injEq] at hget
    exact hget ▸ hc
  · rw [get_insert_of_ne _ _ hn] at hget
    exact h n c' hget

theorem GenuinePool.newMsg (hmsg : Genuine cfg msg) :
    GenuinePool cfg (pool.newMsg msg) := by
  unfold BlockPool.newMsg
  split
  next c hc => exact h.insert ((h.candidate msg.getBlockNum).newMsg hmsg hc)
  · exact h

theorem GenuinePool.foldl_newMsg {msgs : List (ConsensusMsg K)}
    (hmsgs : ∀ msg ∈ msgs, Genuine cfg msg) :
    GenuinePool cfg (msgs.foldl BlockPool.newMsg pool) := by
  induction msgs generalizing pool with
  | nil => exact h
  | cons msg msgs ih =>
    exact ih (h.newMsg (hmsgs msg mem_cons_self))
      fun m hm => hmsgs m (mem_cons_of_mem msg hm)

end

theorem get_freeRounds {ν : Type} {pool historyLen sealedNum n} {v : ν}
    (h : (freeRounds pool historyLen sealedNum).get n = some v) : pool.get n = some v := by
  have herase : ∀ (keys : List UInt32) (m : OrderedMap UInt32 ν),
      (keys.foldl OrderedMap.erase m).get n = some v → m.get n = some v := by
    intro keys
    induction keys with
    | nil => exact fun m hm => hm
    | cons k keys ih =>
      intro m hm
      have hget := ih _ hm
      rw [get_erase] at hget
      split at hget
      · cases hget
      · exact hget
  unfold freeRounds at h
  split at h
  · exact h
  · exact herase _ _ h

theorem GenuinePool.free (h : GenuinePool cfg pool) (historyLen sealedNum : UInt32) :
    GenuinePool cfg (freeRounds pool historyLen sealedNum) :=
  fun n c hget => h n c (get_freeRounds hget)

variable (h : GenuineRounds cfg rounds)
include h

theorem GenuineRounds.free (historyLen sealedNum : UInt32) :
    GenuineRounds cfg (freeRounds rounds historyLen sealedNum) := by
  intro n x hx
  unfold MsgPool.round at hx
  cases hget : (freeRounds rounds historyLen sealedNum).get n with
  | none =>
    rw [hget] at hx
    exact absurd hx not_mem_nil
  | some r =>
    rw [hget] at hx
    refine h n x ?_
    rw [MsgPool.round, get_freeRounds hget]
    exact hx

theorem GenuineRounds.insert {r} (hr : ∀ x ∈ r, Genuine cfg x.2) :
    GenuineRounds cfg (rounds.insert blkNum r) := by
  intro n x hx
  by_cases hn : n = blkNum
  · subst hn
    rw [MsgPool.round, get_insert_self] at hx
    exact hr x hx
  · rw [MsgPool.round, get_insert_of_ne _ _ hn] at hx
    exact h n x hx

theorem GenuineRounds.addMsg {current historyLen msgHash rounds'} (hmsg : Genuine cfg msg)
    (hadd : rounds.addMsg current historyLen msg msgHash = .ok rounds') :
    GenuineRounds cfg rounds' := by
  obtain ⟨_, -, hadd⟩ := bind_ok.mp hadd
  cases hadd
  refine h.insert fun x hx => ?_
  unfold ConsensusRound.addMsg at hx
  split at hx
  · exact h _ x hx
  · rcases mem_append.mp hx with hx | hx
    · exact h _ x hx
    · rw [mem_singleton.mp hx]
      exact hmsg

theorem GenuineRounds.dropMsg (blkNum : UInt32)
    (msgHash : Uint256) : GenuineRounds cfg (rounds.dropMsg blkNum msgHash) := by
  unfold MsgPool.dropMsg
  split
  · exact h
  next r hget =>
    refine h.insert fun x hx => h blkNum x ?_
    rw [MsgPool.round, hget]
    exact mem_of_mem_filter hx

theorem GenuineRounds.picked {α : Type}
    {pick : Uint256 × ConsensusMsg K → Option α} (kind : α → ConsensusMsg K)
    (hpick : ∀ x m, pick x = some m → x.2 = kind m) {m : α}
    (hm : m ∈ (rounds.round blkNum).filterMap pick) : Genuine cfg (kind m) := by
  obtain ⟨x, hmem, hx⟩ := mem_filterMap.mp hm
  rw [← hpick x m hx]
  exact h blkNum x hmem

theorem GenuineRounds.proposal {m} (hm : m ∈ (rounds.round blkNum).proposals) :
    Genuine cfg (.proposal m) := by
  refine h.picked _ ?_ hm
  rintro ⟨_, _ | _ | _⟩ m ⟨⟩
  rfl

theorem GenuineRounds.endorsement {m} (hm : m ∈ (rounds.round blkNum).endorsements) :
    Genuine cfg (.endorse m) := by
  refine h.picked _ ?_ hm
  rintro ⟨_, _ | _ | _⟩ m ⟨⟩
  rfl

theorem GenuineRounds.commit {m} (hm : m ∈ (rounds.round blkNum).commits) :
    Genuine cfg (.commit m) := by
  refine h.picked _ ?_ hm
  rintro ⟨_, _ | _ | _⟩ m ⟨⟩
  rfl

theorem GenuineRounds.proposalOf {isProposer : UInt32 → Bool} {x}
    (hx : x ∈ (rounds.round blkNum).proposalOf isProposer) : Genuine cfg (.proposal x.2) := by
  refine h.picked (fun x : Uint256 × BlockProposalMsg K => .proposal x.2) ?_ hx
  rintro ⟨_, msg⟩ m hm
  cases msg with
  | proposal m' =>
    simp only at hm
    split at hm
    · cases hm
      rfl
    · cases hm
  | endorse m' => cases hm
  | commit m' => cases hm

end Pools

section Run

variable {K : Keys} {cfg : NodeConfig K} {s s' : Server K} {msg : ConsensusMsg K}

/-- Every message of the node is genuine, wherever it is. -/
structure NodeInv (cfg : NodeConfig K) (s : Server K) : Prop where
  rounds : GenuineRounds cfg s.msgPool
  candidates : GenuinePool cfg s.blockPool
  verifying : ∀ msg ∈ s.verifying, Genuine cfg (.proposal msg)
  queued : ∀ msg ∈ s.msgC, Genuine cfg msg

namespace NodeInv

theorem start (blkNum : UInt32) : NodeInv cfg (Server.start blkNum) where
  rounds := fun n x hx => absurd hx not_mem_nil
  candidates := by
    intro n c hget
    cases hget
  verifying := nofun
  queued := nofun

theorem processConsensusMsg (h : NodeInv cfg s) (hmsg : Genuine cfg msg) :
    NodeInv cfg (s.processConsensusMsg msg) := by
  unfold Server.processConsensusMsg
  split
  · refine { h with queued := fun m hm => ?_ }
    rcases mem_append.mp hm with hm | hm
    · exact h.queued m hm
    · exact mem_singleton.mp hm ▸ hmsg
  · exact h

variable {m : BlockProposalMsg K}

section

variable (h : NodeInv cfg s)
include h

theorem processProposalMsg (hmsg : Genuine cfg (.proposal m))
    (msgHash : Uint256) (check : ProposalCheck) :
    NodeInv cfg (s.processProposalMsg m msgHash check) := by
  cases check with
  | drop => exact { h with rounds := h.rounds.dropMsg m.getBlockNum msgHash }
  | refuse => exact h
  | accept => exact h.processConsensusMsg hmsg
  | verifyTxs =>
    refine { h with verifying := fun m' hm => ?_ }
    rcases mem_append.mp hm with hm | hm
    · exact h.verifying m' hm
    · exact mem_singleton.mp hm ▸ hmsg

theorem pooled {msgHash} (hmsg : Genuine cfg msg) (hs : s.pooled cfg msg msgHash = some s') :
    NodeInv cfg s' := by
  obtain ⟨rounds, hrounds, heq⟩ := Option.bind_eq_some_iff.mp hs
  cases heq
  exact { h with rounds := h.rounds.addMsg hmsg (toOption_eq_some.mp hrounds) }

theorem pooled_getD (hmsg : Genuine cfg msg) (msgHash : Uint256) :
    NodeInv cfg ((s.pooled cfg msg msgHash).getD s) := by
  cases hs : s.pooled cfg msg msgHash with
  | none => exact h
  | some s' => exact h.pooled hmsg hs

theorem onConsensusMsg (hmsg : Genuine cfg msg) (msgHash : Uint256)
    (check : ProposalCheck) : NodeInv cfg (s.onConsensusMsg cfg msg msgHash check) := by
  unfold Server.onConsensusMsg
  split
  · exact h
  split
  · exact h.pooled_getD hmsg msgHash
  split
  · exact h
  split
  · exact h
  next s' hs =>
    have h' := h.pooled hmsg hs
    cases msg with
    | proposal m => exact h'.processProposalMsg hmsg msgHash check
    | endorse | commit => exact h'.processConsensusMsg hmsg

theorem receive {fromPeer : UInt32} (htrue : Truthful cfg fromPeer msg)
    (msgHash : Uint256) (check : ProposalCheck) :
    NodeInv cfg (s.receive cfg fromPeer msg msgHash check) := by
  unfold Server.receive
  split
  · exact h
  next u hverify => exact h.onConsensusMsg (genuine_of_verifyMsg hverify htrue) msgHash check

theorem processMsgEvent : NodeInv cfg s.processMsgEvent := by
  unfold Server.processMsgEvent
  split
  · exact h
  next msg rest hqueue =>
    have hmsg : Genuine cfg msg := h.queued msg (hqueue ▸ mem_cons_self)
    have hrest : ∀ m ∈ rest, Genuine cfg m :=
      fun m hm => h.queued m (hqueue ▸ mem_cons_of_mem msg hm)
    dsimp only
    split
    · exact { h with candidates := h.candidates.newMsg hmsg, queued := hrest }
    · exact { h with queued := hrest }

theorem replay {msgs : List (ConsensusMsg K)}
    (hmsgs : ∀ msg ∈ msgs, Genuine cfg msg) : NodeInv cfg (s.replay msgs) :=
  { h with candidates := h.candidates.foldl_newMsg hmsgs }

theorem startNewRound (isProposer : UInt32 → Bool) (next : RoundStart) :
    NodeInv cfg (s.startNewRound isProposer next) := by
  have hround := h.rounds
  have h' : NodeInv cfg (s.replay
      (((s.msgPool.round s.currentBlockNum).proposals.filter fun p =>
        !isProposer p.block.proposer).map .proposal ++
      (s.msgPool.round s.currentBlockNum).endorsements.map .endorse ++
      (s.msgPool.round s.currentBlockNum).commits.map .commit)) := by
    apply h.replay
    intro msg hmsg
    rcases mem_append.mp hmsg with hmsg | hmsg
    · rcases mem_append.mp hmsg with hmsg | hmsg
      · obtain ⟨m, hm, rfl⟩ := mem_map.mp hmsg
        exact hround.proposal (mem_of_mem_filter hm)
      · obtain ⟨m, hm, rfl⟩ := mem_map.mp hmsg
        exact hround.endorsement hm
    · obtain ⟨m, hm, rfl⟩ := mem_map.mp hmsg
      exact hround.commit hm
  simp only [Server.startNewRound]
  cases next with
  | commit =>
    dsimp only
    cases hhead : (s.msgPool.round s.currentBlockNum).commits.head? with
    | none => exact h'
    | some m => exact h'.processConsensusMsg (hround.commit (mem_of_head? hhead))
  | endorse =>
    dsimp only
    cases hhead : (s.msgPool.round s.currentBlockNum).endorsements.head? with
    | none => exact h'
    | some m => exact h'.processConsensusMsg (hround.endorsement (mem_of_head? hhead))
  | proposal check =>
    dsimp only
    split
    · exact h'
    next msgHash p hlast =>
      exact h'.processProposalMsg (hround.proposalOf (mem_of_getLast? hlast)) msgHash check
  | wait => exact h'

theorem fastForward : NodeInv cfg s.fastForward := by
  apply h.replay
  intro msg hmsg
  rcases mem_append.mp hmsg with hmsg | hmsg
  · obtain ⟨m, hm, rfl⟩ := mem_map.mp hmsg
    exact h.rounds.proposal hm
  · obtain ⟨m, hm, rfl⟩ := mem_map.mp hmsg
    exact h.rounds.commit hm

theorem proposals {blkNum : UInt32} (hm : m ∈ s.proposals blkNum) :
    Genuine cfg (.proposal m) := by
  rcases mem_append.mp hm with hm | hm
  · exact (h.candidates.candidate blkNum).proposals m hm
  · exact h.rounds.proposal hm

end

variable {forEmpty : Bool}

theorem setProposalEndorsed (h : NodeInv cfg s) {pool}
    (hpool : s.blockPool.setProposalEndorsed m forEmpty = .ok pool) :
    NodeInv cfg { s with blockPool := pool } := by
  obtain ⟨c, hc, hpool⟩ := bind_ok.mp hpool
  obtain ⟨hsigs, hcommits, hproposals⟩ := h.candidates m.getBlockNum c (orFail_ok.mp hc)
  refine { h with candidates := ?_ }
  split at hpool
  · obtain ⟨_, -, hpool⟩ := bind_ok.mp hpool
    cases hpool
    exact h.candidates.insert ⟨hsigs, hcommits, hproposals⟩
  · split at hpool
    · cases hpool
      exact h.candidates.insert ⟨hsigs, hcommits, hproposals⟩
    · obtain ⟨_, -, hpool⟩ := bind_ok.mp hpool
      cases hpool
      exact h.candidates

theorem setProposalCommitted (h : NodeInv cfg s) {pool}
    (hpool : s.blockPool.setProposalCommitted m forEmpty = .ok pool) :
    NodeInv cfg { s with blockPool := pool } := by
  obtain ⟨c, hc, hpool⟩ := bind_ok.mp hpool
  obtain ⟨hsigs, hcommits, hproposals⟩ := h.candidates m.getBlockNum c (orFail_ok.mp hc)
  obtain ⟨_, -, hpool⟩ := bind_ok.mp hpool
  refine { h with candidates := ?_ }
  split at hpool
  · cases hpool
    exact h.candidates.insert ⟨hsigs, hcommits, hproposals⟩
  · cases hpool
    exact h.candidates.insert ⟨hsigs, hcommits, hproposals⟩

variable (hsign : ∀ (hash : Uint256) sig, cfg.sign hash.val = .ok sig →
  SignedBy cfg cfg.index hash sig)
include hsign

theorem endorseMsg_genuine (hm : Genuine cfg (.proposal m)) {e}
    (he : constructEndorseMsg cfg m forEmpty = .ok e) : Genuine cfg (.endorse e) := by
  obtain ⟨hash, hhash, he⟩ := bind_ok.mp he
  obtain ⟨sig, hsig, he⟩ := bind_ok.mp he
  cases he
  exact ⟨⟨m, hm, rfl, rfl, hhash⟩, hsign hash sig hsig⟩

theorem commitMsg_genuine (hm : Genuine cfg (.proposal m)) {hash}
    (hhash : proposedHash cfg m forEmpty = .ok hash) {endorses}
    (hendorses : ∀ e ∈ endorses, SignedBy cfg e.endorser hash e.endorserSig) {c}
    (hc : constructCommitMsg cfg m endorses forEmpty = .ok c) : Genuine cfg (.commit c) := by
  obtain ⟨hash', hhash', hc⟩ := bind_ok.mp hc
  cases ok_unique hhash hhash'
  obtain ⟨sig, hsig, hc⟩ := bind_ok.mp hc
  cases hc
  refine ⟨⟨m, hm, rfl, rfl, hhash⟩, hsign hash sig hsig, fun i sig' hget => ?_⟩
  -- each entry of the map is the signature of one of the endorsements
  have hfold : ∀ (l : List BlockEndorseMsg) (map : OrderedMap UInt32 Bytes),
      (∀ e ∈ l, SignedBy cfg e.endorser hash e.endorserSig) →
      (∀ i sig, map.get i = some sig → SignedBy cfg i hash sig) →
      ∀ i sig, (l.foldl (fun m e => m.insert e.endorser e.endorserSig) map).get i = some sig →
        SignedBy cfg i hash sig := by
    intro l
    induction l with
    | nil => exact fun map _ hmap => hmap
    | cons e l ih =>
      intro map hl hmap
      exact ih _ (fun e' he' => hl e' (mem_cons_of_mem e he'))
        (forall_get_insert hmap (hl e mem_cons_self))
  refine hfold endorses _ hendorses ?_ i sig' hget
  intro j sig'' hj
  cases hj

variable (h : NodeInv cfg s)
include h

theorem endorseBlock (hm : Genuine cfg (.proposal m)) {isEndorser : Bool}
    (hs : s.endorseBlock cfg m forEmpty isEndorser = .ok s') : NodeInv cfg s' := by
  simp only [Server.endorseBlock] at hs
  split at hs
  · exact Except.ok.inj hs ▸ h
  split at hs
  · exact Except.ok.inj hs ▸ h
  split at hs
  · exact Except.ok.inj hs ▸ h
  obtain ⟨e, he, hs⟩ := bind_ok.mp hs
  obtain ⟨pool, hpool, hs⟩ := bind_ok.mp hs
  cases hs
  have hgen := endorseMsg_genuine hsign hm he
  have h' := (h.setProposalEndorsed hpool).processConsensusMsg hgen
  split
  · exact h'.pooled_getD hgen _
  · exact h'

theorem commitBlock (hm : Genuine cfg (.proposal m)) {isCommitter : Bool}
    (hs : s.commitBlock cfg m forEmpty isCommitter = .ok s') : NodeInv cfg s' := by
  simp only [Server.commitBlock] at hs
  split at hs
  · exact Except.ok.inj hs ▸ h
  split at hs
  · exact Except.ok.inj hs ▸ h
  obtain ⟨hash, hhash, hs⟩ := bind_ok.mp hs
  obtain ⟨c, hc, hs⟩ := bind_ok.mp hs
  obtain ⟨pool, hpool, hs⟩ := bind_ok.mp hs
  cases hs
  have hgen : Genuine cfg (.commit c) := by
    refine commitMsg_genuine hsign hm hhash (fun e he => ?_) hc
    obtain ⟨hmem, hsame⟩ := mem_filter.mp he
    have hsame' : e.endorsedBlockHash = hash ∧ e.endorseForEmpty = forEmpty := by
      simpa using hsame
    exact hsame'.1 ▸ (h.rounds.endorsement hmem).2
  have h' := (h.setProposalCommitted hpool).processConsensusMsg hgen
  split
  · exact h'.pooled_getD hgen _
  · exact h'

/-- One event keeps every message genuine, if what is received is truthful. -/
theorem step {ev} (htrue : ev.Truthful cfg) : NodeInv cfg (s.step cfg ev) := by
  cases ev with
  | receive fromPeer msg msgHash check => exact h.receive htrue msgHash check
  | txsVerified position =>
    simp only [Server.step]
    split
    · exact h
    next m hget =>
      have h' : NodeInv cfg { s with verifying := s.verifying.eraseIdx position } :=
        { h with verifying := fun m' hm => h.verifying m' (mem_of_mem_eraseIdx hm) }
      exact h'.processConsensusMsg (h.verifying m (mem_of_getElem? hget))
  | processMsg => exact h.processMsgEvent
  | startNewRound isProposer next => exact h.startNewRound isProposer next
  | fastForward => exact h.fastForward
  | makeProposal m check =>
    simp only [Server.step]
    split
    · split
      · exact h
      next u hverify =>
        have hgen : Genuine cfg (.proposal m) := genuine_of_verifyMsg hverify trivial
        exact (h.pooled_getD hgen _).processProposalMsg hgen _ check
    · exact h
  | endorseBlock blkNum position forEmpty isEndorser =>
    simp only [Server.step]
    split
    · exact h
    next m hget =>
      cases hs : s.endorseBlock cfg m forEmpty isEndorser with
      | error e => exact h
      | ok s' => exact h.endorseBlock hsign (h.proposals (mem_of_getElem? hget)) hs
  | commitBlock blkNum position forEmpty isCommitter =>
    simp only [Server.step]
    split
    · exact h
    next m hget =>
      cases hs : s.commitBlock cfg m forEmpty isCommitter with
      | error e => exact h
      | ok s' => exact h.commitBlock hsign (h.proposals (mem_of_getElem? hget)) hs
  | sealed =>
    exact { h with rounds := h.rounds.free _ _, candidates := h.candidates.free _ _ }
  | setReady ready => exact { h with }
  | stop =>
    exact { h with rounds := (NodeInv.start 0).rounds, candidates := (NodeInv.start 0).candidates }

theorem run {events : List (NodeEvent K)}
    (htrue : ∀ ev ∈ events, ev.Truthful cfg) : NodeInv cfg (events.foldl (Server.step cfg) s) := by
  induction events generalizing s with
  | nil => exact h
  | cons ev events ih =>
    exact ih (h.step hsign (htrue ev mem_cons_self))
      fun e he => htrue e (mem_cons_of_mem ev he)

end NodeInv

/-- Where every endorsement and commit that a node receives names its sender and a proposed block,
and carries signatures of the peers that it lists, the block pool holds nothing but signatures of
the peers that they are held for. The node's own signatures are taken to verify under its key. -/
theorem votes_authentic (cfg : NodeConfig K)
    (hsign : ∀ (hash : Uint256) sig, cfg.sign hash.val = .ok sig → SignedBy cfg cfg.index hash sig)
    (blkNum : UInt32) (events : List (NodeEvent K)) (htrue : ∀ ev ∈ events, ev.Truthful cfg) :
    Authentic cfg (events.foldl (Server.step cfg) (Server.start blkNum)).blockPool := by
  have hstart : NodeInv cfg (Server.start blkNum) := NodeInv.start blkNum
  have hinv := hstart.run hsign htrue
  exact ⟨fun n c hget => (hinv.candidates n c hget).sigs,
    fun n c hget => (hinv.candidates n c hget).commits⟩

end Run

/-- A node with index 0; the key of each peer is its index. -/
def sampleNode : NodeConfig echoKeys where
  sha256 := zeroPad 32
  index := 0
  c := 1
  historyLen := 64
  peerKey i := some [UInt8.ofNat i.toNat]
  sign data := .ok (0 :: data)
  hashMsg _ := Uint256.empty

theorem sampleNode_signedBy {i hash sig} :
    SignedBy sampleNode i hash sig ↔ sig = UInt8.ofNat i.toNat :: hash.val := by
  constructor
  · rintro ⟨pk, hpk, s, hs, hver⟩
    cases hpk
    cases hs
    exact eq_of_beq hver
  · rintro rfl
    exact ⟨_, rfl, _, rfl, beq_self_eq_true _⟩

def sampleUnsigned : UnsignedHeader :=
  ⟨0, 0, Uint256.empty, Uint256.empty, Uint256.empty, Uint256.empty, 0, 5, 0, [], Address.empty⟩

def sampleHash : Uint256 := zeroPad 32 (zeroPad 32 sampleUnsigned.bytes).val

/-- The block that peer 2 proposes, with its signature. -/
def sampleProposal : BlockProposalMsg echoKeys :=
  ⟨⟨⟨⟨sampleUnsigned, [], [2 :: sampleHash.val]⟩, []⟩, none, 2⟩⟩

/-- An endorsement of that block with the signature of peer `signer`. -/
def sampleEndorsement (endorser : UInt32) (signer : UInt8) : BlockEndorseMsg :=
  ⟨endorser, 2, 5, sampleHash, false, signer :: sampleHash.val⟩

/-- A commit with the signature of peer `signer` that lists an endorser with another. -/
def signedCommit (committer : UInt32) (signer : UInt8) (endorser : UInt32) (sig : Bytes) :
    BlockCommitMsg :=
  ⟨committer, 2, 5, sampleHash, false, OrderedMap.empty.insert endorser sig,
    signer :: sampleHash.val⟩

/-- A message that arrives and is processed at once. -/
def sampleDelivery (fromPeer : UInt32) (msg : ConsensusMsg echoKeys) (msgHash : Uint256) :
    List (NodeEvent echoKeys) :=
  [.receive fromPeer msg msgHash .accept, .processMsg]

def sampleRun (events : List (NodeEvent echoKeys)) : CandidateInfo echoKeys :=
  (events.foldl (Server.step sampleNode) (Server.start 5)).blockPool.candidate 5

/-- Peer 3 endorses the block in the name of peer 1, and commits it in the name of peer 4 with a
signature of peer 2 that is none. -/
def forgedEvents : List (NodeEvent echoKeys) :=
  sampleDelivery 3 (.endorse (sampleEndorsement 1 3)) (zeroPad 32 [1]) ++
    sampleDelivery 3 (.commit (signedCommit 4 3 2 [])) (zeroPad 32 [2])

deriving instance DecidableEq for BlockCommitMsg

theorem votes_forged :
    ((sampleRun forgedEvents).Holds 1 (sampleEndorsement 1 3).sigInfo ∧
      ∀ hash, ¬ SignedBy sampleNode 1 hash (sampleEndorsement 1 3).endorserSig) ∧
    ((sampleRun forgedEvents).Holds 2 ⟨2, [], false⟩ ∧ ∀ hash, ¬ SignedBy sampleNode 2 hash []) ∧
    ∃ msg ∈ (sampleRun forgedEvents).commitMsgs, msg.committer = 4 ∧
      ∀ hash, ¬ SignedBy sampleNode 4 hash msg.committerSig := by
  refine ⟨⟨⟨[(sampleEndorsement 1 3).sigInfo], by decide +kernel, mem_singleton_self _⟩, ?_⟩,
    ⟨⟨[⟨2, [], false⟩], by decide +kernel, mem_singleton_self _⟩, ?_⟩,
    signedCommit 4 3 2 [], ?_, rfl, ?_⟩
  · intro hash h
    exact absurd (List.cons.inj (sampleNode_signedBy.mp h)).1 (by decide)
  · intro hash h
    cases sampleNode_signedBy.mp h
  · decide +kernel
  · intro hash h
    exact absurd (List.cons.inj (sampleNode_signedBy.mp h)).1 (by decide)

/-- The proposal and an endorsement in the name of its sender. -/
def honestEvents : List (NodeEvent echoKeys) :=
  sampleDelivery 2 (.proposal sampleProposal) (zeroPad 32 [1]) ++
    sampleDelivery 1 (.endorse (sampleEndorsement 1 1)) (zeroPad 32 [2])

theorem votes_authentic_honest :
    (sampleRun honestEvents).Holds 1 (sampleEndorsement 1 1).sigInfo ∧
      Authentic sampleNode
        (honestEvents.foldl (Server.step sampleNode) (Server.start 5)).blockPool := by
  refine ⟨⟨[(sampleEndorsement 1 1).sigInfo], by decide +kernel, mem_singleton_self _⟩, ?_⟩
  refine votes_authentic sampleNode (fun hash sig hsig => ?_) 5 honestEvents fun ev hev => ?_
  · cases hsig
    exact sampleNode_signedBy.mpr rfl
  · simp only [honestEvents, sampleDelivery, cons_append, nil_append, mem_cons,
      not_mem_nil, or_false] at hev
    rcases hev with rfl | rfl | rfl | rfl
    · trivial
    · trivial
    · exact ⟨rfl, sampleProposal, ⟨[2], rfl, by decide +kernel⟩, rfl, rfl, rfl⟩
    · trivial

end Poly.Vbft
