import Poly.Vbft.BlockPool

/-! The path of a message through a node: the receive loop, the message pool, the queue of the
message processor and the block pool, with the node's own endorsements and commits. -/
namespace Poly.Vbft

open Lib

section MsgPool

variable {K : Keys}

/-- The messages of one block number with their hashes, oldest first. -/
abbrev ConsensusRound (K : Keys) := List (Uint256 × ConsensusMsg K)

abbrev MsgPool (K : Keys) := OrderedMap UInt32 (ConsensusRound K)

abbrev BlockPool (K : Keys) := OrderedMap UInt32 (CandidateInfo K)

def errDropFarFutureMsg : Failure := .error "msg pool dropped msg for far future"

namespace ConsensusRound

variable (r : ConsensusRound K)

def addMsg (msg : ConsensusMsg K) (msgHash : Uint256) : ConsensusRound K :=
  if r.any fun x => x.1 = msgHash then r else r ++ [(msgHash, msg)]

def proposals : List (BlockProposalMsg K) :=
  r.filterMap fun x => match x.2 with
    | .proposal msg => some msg
    | _ => none

def endorsements : List BlockEndorseMsg :=
  r.filterMap fun x => match x.2 with
    | .endorse msg => some msg
    | _ => none

def commits : List BlockCommitMsg :=
  r.filterMap fun x => match x.2 with
    | .commit msg => some msg
    | _ => none

/-- The proposals of certain proposers with their hashes. -/
def proposalOf (isProposer : UInt32 → Bool) :
    List (Uint256 × BlockProposalMsg K) :=
  r.filterMap fun x => match x.2 with
    | .proposal msg => if isProposer msg.block.proposer then some (x.1, msg) else none
    | _ => none

end ConsensusRound

namespace MsgPool

variable (pool : MsgPool K)

def round (blkNum : UInt32) : ConsensusRound K := (pool.get blkNum).getD []

def hasMsg (msg : ConsensusMsg K) (msgHash : Uint256) : Bool :=
  (pool.round msg.getBlockNum).any fun x => x.1 = msgHash

def addMsg (currentBlockNo historyLen : UInt32) (msg : ConsensusMsg K)
    (msgHash : Uint256) : Result (MsgPool K) := do
  let blkNum := msg.getBlockNum
  failIf (blkNum > currentBlockNo + historyLen) errDropFarFutureMsg
  return pool.insert blkNum ((pool.round blkNum).addMsg msg msgHash)

/-- Each message is kept under one hash. -/
def dropMsg (blkNum : UInt32) (msgHash : Uint256) : MsgPool K :=
  match pool.get blkNum with
  | none => pool
  | some r => pool.insert blkNum (r.filter fun x => x.1 ≠ msgHash)

end MsgPool

/-- The rounds of the pools that are old enough when a block is sealed are freed. -/
def freeRounds {ν : Type} (pool : OrderedMap UInt32 ν) (historyLen blockNum : UInt32) :
    OrderedMap UInt32 ν :=
  if blockNum ≤ historyLen then pool
  else (pool.keys.filter fun n => n < blockNum - historyLen).foldl OrderedMap.erase pool

namespace BlockPool

variable (pool : BlockPool K)

def candidate (blkNum : UInt32) : CandidateInfo K :=
  (pool.get blkNum).getD .new

/-- `newBlockProposal`, `newBlockEndorsement` and `newBlockCommitment`. -/
def newMsg (msg : ConsensusMsg K) : BlockPool K :=
  match (pool.candidate msg.getBlockNum).newMsg msg with
  | .ok c => pool.insert msg.getBlockNum c
  | .error _ => pool

def endorsedForBlock (chainedBlockNum blkNum : UInt32) : Bool :=
  chainedBlockNum ≥ blkNum || match pool.get blkNum with
    | none => false
    | some c => c.endorsedProposal.isSome || c.endorsedEmptyProposal.isSome

def endorsedForEmptyBlock (blkNum : UInt32) : Bool :=
  match pool.get blkNum with
  | none => false
  | some c => c.endorsedEmptyProposal.isSome

def committedForBlock (chainedBlockNum blkNum : UInt32) : Bool :=
  chainedBlockNum ≥ blkNum || match pool.get blkNum with
    | none => false
    | some c => c.committedProposal.isSome || c.committedEmptyProposal.isSome

def setProposalEndorsed (proposal : BlockProposalMsg K) (forEmpty : Bool) :
    Result (BlockPool K) := do
  let blkNum := proposal.getBlockNum
  let c ← orFail (pool.get blkNum)
    (.error s!"non-candidates for block {blkNum} yet when set endorsed")
  if forEmpty then
    failIf (c.endorsedEmptyProposal.isSome = true)
      (.error s!"block {blkNum} has endorsed for empty")
    return pool.insert blkNum { c with endorsedEmptyProposal := some proposal }
  else
    match c.endorsedProposal with
    | none => return pool.insert blkNum { c with endorsedProposal := some proposal }
    | some old =>
      let endorsed := old.block.proposer
      let skipped := proposal.block.proposer
      failIf (endorsed ≠ skipped)
        (.error s!"blk {blkNum} had endorsed for {endorsed}, skip {skipped}")
      return pool

/-- The checks for another proposer come after one that leaves them nothing to find. -/
def setProposalCommitted (proposal : BlockProposalMsg K) (forEmpty : Bool) :
    Result (BlockPool K) := do
  let blkNum := proposal.getBlockNum
  let c ← orFail (pool.get blkNum)
    (.error s!"non-candidates for block {blkNum} yet when set commit")
  failIf (c.committedProposal.isSome = true ∨ c.committedEmptyProposal.isSome = true)
    (.error s!"had committed for block {blkNum}")
  if forEmpty then return pool.insert blkNum { c with committedEmptyProposal := some proposal }
  else return pool.insert blkNum { c with committedProposal := some proposal }

/-- The result is the same in every order of the signatures. -/
def endorseFailed (blkNum c : UInt32) : Bool :=
  match pool.get blkNum with
  | none => false
  | some candidate =>
    let endorserCount := UInt32.ofNat candidate.endorseSigs.size
    let sigs := candidate.endorseSigs.entries.flatMap Prod.snd
    let endorsed := (sigs.filter fun sig => !sig.forEmpty).map
      CandidateEndorseSigInfo.endorsedProposer
    let emptyEndorseCnt := UInt32.ofNat (sigs.countP fun sig => sig.forEmpty)
    let proposalCount := endorsed.dedup.map fun p => UInt32.ofNat (endorsed.count p)
    if endorserCount < c + 1 then false
    else if proposalCount.any fun v => v > c + 1 then false
    else if UInt32.ofNat proposalCount.length > c + 1 then true
    else if emptyEndorseCnt > c then true
    else
      let l := 2 * c + 1 - endorserCount
      !(proposalCount.any fun v => v + l > c)

end BlockPool

end MsgPool

/-- What a node is set up with: its index, the configuration that it runs, the keys of the peer
pool and the account that it signs with. -/
structure NodeConfig (K : Keys) where
  sha256 : Bytes → Uint256
  index : UInt32
  c : UInt32
  historyLen : UInt32
  peerKey : UInt32 → Option K.PublicKey
  sign : Bytes → Result Bytes
  hashMsg : ConsensusMsg K → Uint256

structure Server (K : Keys) where
  currentBlockNum : UInt32
  chainedBlockNum : UInt32
  ready : Bool
  msgPool : MsgPool K
  blockPool : BlockPool K
  /-- Proposals whose transactions are being verified. -/
  verifying : List (BlockProposalMsg K)
  msgC : List (ConsensusMsg K)

/-- What the checks of a proposal against the ledger, the clock and the verifiable random value
come to. -/
inductive ProposalCheck where
  | drop
  | refuse
  | accept
  | verifyTxs

/-- With what a new round goes on once the pooled messages are in the block pool. -/
inductive RoundStart where
  | commit
  | endorse
  | proposal (check : ProposalCheck)
  | wait

variable {K : Keys} (cfg : NodeConfig K)

def Server.start (currentBlockNum : UInt32) : Server K :=
  ⟨currentBlockNum, currentBlockNum - 1, true, OrderedMap.empty, OrderedMap.empty, [], []⟩

namespace Server

variable (s : Server K)

variable (msg : ConsensusMsg K)

def processConsensusMsg : Server K :=
  if s.ready then { s with msgC := s.msgC ++ [msg] } else s

def processProposalMsg (msg : BlockProposalMsg K) (msgHash : Uint256) :
    ProposalCheck → Server K
  | .drop => { s with msgPool := s.msgPool.dropMsg msg.getBlockNum msgHash }
  | .refuse => s
  | .accept => s.processConsensusMsg (.proposal msg)
  | .verifyTxs => { s with verifying := s.verifying ++ [msg] }

/-- A message that the pool does not take is not processed. -/
def pooled (msgHash : Uint256) : Option (Server K) := do
  let msgPool ← (s.msgPool.addMsg s.currentBlockNum cfg.historyLen msg msgHash).toOption
  return { s with msgPool := msgPool }

def isCommit : ConsensusMsg K → Bool
  | .commit _ => true
  | _ => false

def onConsensusMsg (msgHash : Uint256) (check : ProposalCheck) : Server K :=
  if s.msgPool.hasMsg msg msgHash ∧ isCommit msg = false then s
  else if msg.getBlockNum > s.currentBlockNum then (s.pooled cfg msg msgHash).getD s
  else if msg.getBlockNum < s.currentBlockNum then s
  else
    match s.pooled cfg msg msgHash with
    | none => s
    | some s =>
      match msg with
      | .proposal m => s.processProposalMsg m msgHash check
      | msg => s.processConsensusMsg msg

/-- `msg.Verify`, with the key of the sender; a proposal is verified with that of the proposer. -/
def verifyMsg (fromPeer : UInt32) (msg : ConsensusMsg K) : Result Unit := do
  let pk ← orFail (cfg.peerKey fromPeer) (.error "failed to get peer pubkey")
  match msg with
  | .proposal m => do
    let pk ← orFail (cfg.peerKey m.block.proposer) (.error "failed to verify block sig")
    m.verify K cfg.sha256 pk
  | .endorse m => m.verify K pk
  | .commit m => m.verify K pk

/-- One message of the receive loop of a connection. -/
def receive (fromPeer : UInt32) (msg : ConsensusMsg K) (msgHash : Uint256)
    (check : ProposalCheck) : Server K :=
  match verifyMsg cfg fromPeer msg with
  | .error _ => s
  | .ok _ => s.onConsensusMsg cfg msg msgHash check

/-- The message processor takes the next message; what it then does itself is an event of its
own. -/
def processMsgEvent : Server K :=
  match s.msgC with
  | [] => s
  | msg :: rest =>
    let s := { s with msgC := rest }
    if msg.getBlockNum = s.currentBlockNum then { s with blockPool := s.blockPool.newMsg msg }
    else s

/-- The messages of the round that were pooled before it began. -/
def replay (msgs : List (ConsensusMsg K)) : Server K :=
  { s with blockPool := msgs.foldl BlockPool.newMsg s.blockPool }

def startNewRound (isProposer : UInt32 → Bool) (next : RoundStart) : Server K :=
  let r := s.msgPool.round s.currentBlockNum
  let others := r.proposals.filter fun p => !isProposer p.block.proposer
  let s := s.replay (others.map .proposal ++ r.endorsements.map .endorse ++ r.commits.map .commit)
  match next with
  | .commit => (r.commits.head?.map fun m => s.processConsensusMsg (.commit m)).getD s
  | .endorse => (r.endorsements.head?.map fun m => s.processConsensusMsg (.endorse m)).getD s
  | .proposal check =>
    match (r.proposalOf isProposer).getLast? with
    | none => s
    | some (msgHash, p) => s.processProposalMsg p msgHash check
  | .wait => s

/-- The part of the fast-forward action that feeds the block pool. -/
def fastForward : Server K :=
  let r := s.msgPool.round s.currentBlockNum
  s.replay (r.proposals.map .proposal ++ r.commits.map .commit)

variable (proposal : BlockProposalMsg K)

/-- The hash of the block that is endorsed or committed. -/
def proposedHash (forEmpty : Bool) : Result Uint256 :=
  if forEmpty then do
    let emptyBlock ← orFail proposal.block.emptyBlock (.error
      s!"blk {proposal.getBlockNum} proposal from {proposal.block.proposer} has no empty proposal")
    emptyBlock.header.hash cfg.sha256
  else proposal.block.block.header.hash cfg.sha256

def constructEndorseMsg (forEmpty : Bool) :
    Result BlockEndorseMsg := do
  let blkHash ← proposedHash cfg proposal forEmpty
  let endorserSig ← cfg.sign blkHash.val
  return ⟨cfg.index, proposal.block.proposer, proposal.getBlockNum, blkHash, forEmpty, endorserSig⟩

/-- A message that the node keeps and sends to the others. -/
def keep : Server K :=
  (s.pooled cfg msg (cfg.hashMsg msg)).getD s

/-- Whether the node is an endorser of the round is the last argument. -/
def endorseBlock (forEmpty isEndorser : Bool) :
    Result (Server K) := do
  let blkNum := proposal.getBlockNum
  if proposal.block.proposer = cfg.index then return s
  else if forEmpty = false ∧ s.blockPool.endorsedForBlock s.chainedBlockNum blkNum = true then
    return s
  else if forEmpty = true ∧ s.blockPool.endorsedForEmptyBlock blkNum = true then return s
  else
    let forEmpty := forEmpty || s.blockPool.endorseFailed blkNum cfg.c
    let endorseMsg ← constructEndorseMsg cfg proposal forEmpty
    let blockPool ← s.blockPool.setProposalEndorsed proposal forEmpty
    let s := { s with blockPool := blockPool }.processConsensusMsg (.endorse endorseMsg)
    return if forEmpty || isEndorser then s.keep cfg (.endorse endorseMsg) else s

def constructCommitMsg (endorses : List BlockEndorseMsg)
    (forEmpty : Bool) : Result BlockCommitMsg := do
  let blkHash ← proposedHash cfg proposal forEmpty
  let committerSig ← cfg.sign blkHash.val
  let endorsersSig := endorses.foldl (fun m e => m.insert e.endorser e.endorserSig) OrderedMap.empty
  return ⟨cfg.index, proposal.block.proposer, proposal.getBlockNum, blkHash, forEmpty, endorsersSig,
    committerSig⟩

def commitBlock (forEmpty isCommitter : Bool) :
    Result (Server K) := do
  let blkNum := proposal.getBlockNum
  if proposal.block.proposer = cfg.index then return s
  else if s.blockPool.committedForBlock s.chainedBlockNum blkNum = true then return s
  else
    let blkHash ← proposedHash cfg proposal forEmpty
    let endorses := (s.msgPool.round blkNum).endorsements.filter fun e =>
      e.endorsedBlockHash = blkHash ∧ e.endorseForEmpty = forEmpty
    let commitMsg ← constructCommitMsg cfg proposal endorses forEmpty
    let blockPool ← s.blockPool.setProposalCommitted proposal forEmpty
    let s := { s with blockPool := blockPool }.processConsensusMsg (.commit commitMsg)
    return if forEmpty || isCommitter then s.keep cfg (.commit commitMsg) else s

/-- The proposals that the node can find for a block number. -/
def proposals (blkNum : UInt32) : List (BlockProposalMsg K) :=
  (s.blockPool.candidate blkNum).proposals ++ (s.msgPool.round blkNum).proposals

def sealed (s : Server K) : Server K :=
  let sealedBlkNum := s.currentBlockNum
  { s with
    msgPool := freeRounds s.msgPool cfg.historyLen sealedBlkNum
    blockPool := freeRounds s.blockPool cfg.historyLen sealedBlkNum
    chainedBlockNum := sealedBlkNum
    currentBlockNum := sealedBlkNum + 1 }

end Server

/-- What happens at a node. What it does by a timer or because of a count of votes may happen at
any time. -/
inductive NodeEvent (K : Keys) where
  | receive (fromPeer : UInt32) (msg : ConsensusMsg K) (msgHash : Uint256) (check : ProposalCheck)
  | txsVerified (position : ℕ)
  | processMsg
  | startNewRound (isProposer : UInt32 → Bool) (next : RoundStart)
  | fastForward
  | makeProposal (msg : BlockProposalMsg K) (check : ProposalCheck)
  | endorseBlock (blkNum : UInt32) (position : ℕ) (forEmpty isEndorser : Bool)
  | commitBlock (blkNum : UInt32) (position : ℕ) (forEmpty isCommitter : Bool)
  | sealed
  | setReady (ready : Bool)
  | stop

/-- The node's next state. A proposal that it makes carries its own signature, and it endorses and
commits proposals that it has. -/
def Server.step (s : Server K) : NodeEvent K → Server K
  | .receive fromPeer msg msgHash check => s.receive cfg fromPeer msg msgHash check
  | .txsVerified position =>
    match s.verifying[position]? with
    | none => s
    | some msg => { s with verifying := s.verifying.eraseIdx position }.processConsensusMsg
        (.proposal msg)
  | .processMsg => s.processMsgEvent
  | .startNewRound isProposer next => s.startNewRound isProposer next
  | .fastForward => s.fastForward
  | .makeProposal msg check =>
    if msg.block.proposer = cfg.index then
      match verifyMsg cfg cfg.index (.proposal msg) with
      | .error _ => s
      | .ok _ =>
        (s.keep cfg (.proposal msg)).processProposalMsg msg (cfg.hashMsg (.proposal msg)) check
    else s
  | .endorseBlock blkNum position forEmpty isEndorser =>
    match (s.proposals blkNum)[position]? with
    | none => s
    | some proposal => (s.endorseBlock cfg proposal forEmpty isEndorser).toOption.getD s
  | .commitBlock blkNum position forEmpty isCommitter =>
    match (s.proposals blkNum)[position]? with
    | none => s
    | some proposal => (s.commitBlock cfg proposal forEmpty isCommitter).toOption.getD s
  | .sealed => s.sealed cfg
  | .setReady ready => { s with ready := ready }
  | .stop => { s with msgPool := OrderedMap.empty, blockPool := OrderedMap.empty }

end Poly.Vbft
