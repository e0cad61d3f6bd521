import Poly.Governance.Peers
import Poly.HeaderSync.Common

/-! The header sync handler of Heimdall, the checkpoint chain of Polygon: validator sets, commits and
the switch of the validator set. -/
namespace Poly.HeaderSync

open Lib Native

/-- The proposer priorities are left out: nothing that is verified depends on them. -/
structure Validator (K : Type) where
  address : Bytes
  pubKey : K
  votingPower : Int64
  deriving DecidableEq

structure PartSetHeader where
  total : Int64
  hash : Bytes
  deriving DecidableEq

structure BlockID where
  hash : Bytes
  partsHeader : PartSetHeader
  deriving DecidableEq

def PrecommitType : UInt8 := 0x02

/-- A vote of a validator; a `CommitSig` is one. -/
structure Vote where
  type : UInt8
  height : Int64
  round : Int64
  blockID : BlockID
  timestamp : ℤ
  validatorAddress : Bytes
  validatorIndex : Int64
  signature : Bytes
  sideTxResults : List Bytes
  deriving DecidableEq

abbrev CommitSig := Vote

/-- Height and round are read off the precommits. -/
structure Commit where
  blockID : BlockID
  precommits : List (Option CommitSig)
  deriving DecidableEq

/-- What is signed of a vote. -/
structure CanonicalVote where
  type : UInt8
  height : Int64
  round : Int64
  blockID : BlockID
  timestamp : ℤ
  chainID : Bytes
  data : Bytes
  sideTxResults : List Bytes
  deriving DecidableEq

namespace Heimdall

/-- The fields that are not looked at are kept in their encoding for the hash. -/
structure Header where
  chainID : Bytes
  height : Int64
  validatorsHash : Bytes
  nextValidatorsHash : Bytes
  appHash : Bytes
  others : List Bytes
  deriving DecidableEq

structure CosmosHeader (K : Type) where
  header : Header
  commit : Option Commit
  valsets : List (Option (Validator K))
  deriving DecidableEq

structure CosmosEpochSwitchInfo where
  height : Int64
  blockHash : Bytes
  nextValidatorsHash : Bytes
  chainID : Bytes
  deriving DecidableEq

/-- One operation of a Merkle proof. -/
structure ProofOp where
  key : Bytes
  data : Bytes
  deriving DecidableEq

structure CosmosProofValue where
  kp : Bytes
  value : Bytes
  deriving DecidableEq

structure CosmosProof (K : Type) where
  value : CosmosProofValue
  proof : List ProofOp
  header : CosmosHeader K
  deriving DecidableEq

end Heimdall

/-- The tendermint and amino calls of the handler. The root of a validator set is over the keys and
the voting powers of its members, in order, and no two sets have the same; it is nil for the empty
set. -/
structure HeimdallLib where
  PubKey : Type
  verifyBytes : PubKey → Bytes → Bytes → Bool
  setRoot : List (PubKey × Int64) → Bytes
  setRoot_nil : setRoot [] = []
  setRoot_inj : Function.Injective setRoot
  headerRoot : Heimdall.Header → Uint256
  marshalVote : CanonicalVote → Result Bytes
  unmarshalHeader : Bytes → Result (Heimdall.CosmosHeader PubKey)
  verifyValue : List Heimdall.ProofOp → Bytes → Bytes → Bytes → Result Unit
  HeimdallSpan : Type
  Span : Type
  unmarshalSpan : Bytes → Result HeimdallSpan
  spanFromHeimdall : HeimdallSpan → Result Span

/-- The dereference of a missing value. -/
def nilPointer : Failure := .panic "invalid memory address or nil pointer dereference"

def hexBytes (bs : Bytes) : String := (toHex bs).toUpper

section ValidatorSet

variable {K : Type}

def MaxTotalVotingPower : Int64 := Int64.maxValue / 8

def safeAddClip (a b : Int64) : Int64 :=
  if b > 0 ∧ a > Int64.maxValue - b then Int64.maxValue
  else if b < 0 ∧ a < Int64.minValue - b then Int64.minValue
  else a + b

/-- The variables of the loop of `processChanges`. -/
structure ChangeSet (K : Type) where
  prevAddr : Bytes
  updates : List (Validator K)
  removals : List (Validator K)

def processChange (acc : ChangeSet K) (valUpdate : Validator K) : Result (ChangeSet K) := do
  failIf (valUpdate.address = acc.prevAddr)
    (.error ("duplicate entry " ++ hexBytes valUpdate.address))
  failIf (valUpdate.votingPower < 0)
    (.error s!"voting power can't be negative: {valUpdate.votingPower}")
  failIf (valUpdate.votingPower > MaxTotalVotingPower)
    (.error (s!"to prevent clipping/ overflow, voting power can't be higher than " ++
      s!"{MaxTotalVotingPower}: {valUpdate.votingPower} "))
  if valUpdate.votingPower = 0 then
    return ⟨valUpdate.address, acc.updates, acc.removals ++ [valUpdate]⟩
  else
    return ⟨valUpdate.address, acc.updates ++ [valUpdate], acc.removals⟩

def processChanges (origChanges : List (Validator K)) : Result (ChangeSet K) :=
  (origChanges.insertionSort fun a b => a.address ≤ b.address).foldlM processChange ⟨[], [], []⟩

/-- One new validator in `verifyUpdates`. -/
def verifyUpdate (total : Int64) (valUpdate : Validator K) : Result Int64 := do
  let total := total + valUpdate.votingPower
  failIf (total > MaxTotalVotingPower) (.error (s!"failed to add/update validator, total voting " ++
    s!"power would exceed the max allowed {MaxTotalVotingPower}"))
  return total

/-- `updateWithChangeSet` on an empty set without deletes: the sorted validators. -/
def updateWithChangeSet (changes : List (Validator K)) : Result (List (Validator K)) := do
  if changes = [] then
    return []
  else
    let acc ← processChanges changes
    failIf (acc.removals.length ≠ 0)
      (.error s!"cannot process validators with voting power 0: {acc.removals.length}")
    let _ ← acc.updates.foldlM verifyUpdate 0
    return acc.updates

/-- A panic for every error. -/
def orPanic {α : Type} (context : String) : Result α → Result α
  | .ok a => .ok a
  | .error (.error e) => .error (.panic (context ++ e))
  | .error (.panic e) => .error (.panic e)

def newValidatorSet (valz : List (Option (Validator K))) : Result (List (Validator K)) := do
  let copies ← valz.mapM fun v => orFail v nilPointer
  orPanic "cannot create validator set: " (updateWithChangeSet copies)

def getByIndex (vals : List (Validator K)) (index : Int64) : Option (Validator K) :=
  if index < 0 then none else vals[index.toInt.toNat]?

/-- One validator in `updateTotalVotingPower`. -/
def addVotingPower (sum : Int64) (val : Validator K) : Result Int64 := do
  let sum := safeAddClip sum val.votingPower
  failIf (sum > MaxTotalVotingPower) (.panic
    (s!"Total voting power should be guarded to not exceed {MaxTotalVotingPower}; got: {sum}"))
  return sum

def totalVotingPower (vals : List (Validator K)) : Result Int64 := vals.foldlM addVotingPower 0

variable (L : HeimdallLib) in
def validatorsHash (vals : List (Validator L.PubKey)) : Bytes :=
  if vals = [] then [] else L.setRoot (vals.map fun v => (v.pubKey, v.votingPower))

variable (L : HeimdallLib) in
theorem validatorsHash_eq (vals : List (Validator L.PubKey)) :
    validatorsHash L vals = L.setRoot (vals.map fun v => (v.pubKey, v.votingPower)) := by
  unfold validatorsHash
  split
  next hnil => rw [hnil, List.map_nil, L.setRoot_nil]
  · rfl

end ValidatorSet

section Votes

variable (L : HeimdallLib)

def PartSetHeader.isZero (psh : PartSetHeader) : Bool := psh.total = 0 && psh.hash.length = 0

def BlockID.isZero (blockID : BlockID) : Bool :=
  blockID.hash.length = 0 && blockID.partsHeader.isZero

def canonicalizeVote (chainID : Bytes) (vote : Vote) : CanonicalVote :=
  ⟨vote.type, vote.height, vote.round, vote.blockID, vote.timestamp, chainID, [],
    vote.sideTxResults⟩

def Vote.signBytes (chainID : Bytes) (vote : Vote) : Result Bytes :=
  orPanic "" (L.marshalVote (canonicalizeVote chainID vote))

namespace Commit

variable (commit : Commit)

/-- The first precommit that is there. -/
def first : Option CommitSig := commit.precommits.findSome? id

def height : Int64 := (commit.first.map Vote.height).getD 0

def round : Int64 := (commit.first.map Vote.round).getD 0

/-- One precommit of `validateBasic`. -/
def checkPrecommit (precommit : CommitSig) : Result Unit := do
  failIf (precommit.type ≠ PrecommitType)
    (.error s!"Invalid commit vote. Expected precommit, got {precommit.type}")
  failIf (precommit.height ≠ commit.height) (.error
    s!"Invalid commit precommit height. Expected {commit.height}, got {precommit.height}")
  failIf (precommit.round ≠ commit.round) (.error
    s!"Invalid commit precommit round. Expected {commit.round}, got {precommit.round}")

def validateBasic : Result Unit := do
  failIf (commit.blockID.isZero = true) (.error "Commit cannot be for nil block")
  failIf (commit.precommits.length = 0) (.error "No precommits in commit")
  (commit.precommits.filterMap id).forM commit.checkPrecommit

/-- The vote is put together from the precommit at the index. -/
def getVote (valIdx : ℕ) : Result (Option Vote) := do
  match ← goIndex commit.precommits valIdx with
  | none => return none
  | some commitSig =>
    return some ⟨PrecommitType, commit.height, commit.round, commitSig.blockID,
      commitSig.timestamp, commitSig.validatorAddress, Int64.ofNat valIdx, commitSig.signature,
      commitSig.sideTxResults⟩

def voteSignBytes (chainID : Bytes) (valIdx : ℕ) : Result Bytes := do
  let vote ← orFail (← commit.getVote valIdx) nilPointer
  vote.signBytes L chainID

end Commit

end Votes

namespace Heimdall

section Verify

variable (L : HeimdallLib)

def Header.hash (h : Header) : Bytes :=
  if h.validatorsHash.length = 0 then [] else (L.headerRoot h).val

variable {L} in
/-- One precommit in the loop of `verifyCosmosHeader`. The validator is taken by the index that the
precommit names, and so is the vote that its signature is checked against. -/
def tallyPrecommit (valset : List (Validator L.PubKey)) (commit : Commit) (chainID : Bytes)
    (tallied : Int64) : Option CommitSig → Result Int64
  | none => return tallied
  | some commitSig => do
    let idx := commitSig.validatorIndex
    let val ← orFail (getByIndex valset idx)
      (.error s!"VerifyCosmosHeader, validator {idx} doesn't exist!")
    failIf (commitSig.type ≠ PrecommitType)
      (.error s!"VerifyCosmosHeader, commitSig.Type({commitSig.type}) wrong")
    let precommitSignBytes ← commit.voteSignBytes L chainID idx.toInt.toNat
    failIf (L.verifyBytes val.pubKey precommitSignBytes commitSig.signature = false)
      (.error ("VerifyCosmosHeader, Invalid commit -- invalid signature: " ++
        hexBytes commitSig.signature))
    if commit.blockID = commitSig.blockID then
      return tallied + val.votingPower
    else
      return tallied

variable {L} in
def verifyCosmosHeader (myHeader : CosmosHeader L.PubKey) (info : CosmosEpochSwitchInfo) :
    Result Unit := do
  let valset ← newValidatorSet myHeader.valsets
  let hash := validatorsHash L valset
  failIf (info.nextValidatorsHash ≠ hash) (.error
    ("VerifyCosmosHeader, block validator is not right, next validator hash: " ++
      hexBytes info.nextValidatorsHash ++ ", validator set hash: " ++ toHex hash))
  failIf (myHeader.header.validatorsHash ≠ hash) (.error
    ("VerifyCosmosHeader, block validator is not right!, header validator hash: " ++
      hexBytes myHeader.header.validatorsHash ++ ", validator set hash: " ++ toHex hash))
  let commit ← orFail myHeader.commit nilPointer
  failIf (commit.height ≠ myHeader.header.height) (.error
    (s!"VerifyCosmosHeader, commit height is not right! commit height: {commit.height}, " ++
      s!"header height: {myHeader.header.height}"))
  failIf (commit.blockID.hash ≠ myHeader.header.hash L) (.error
    ("VerifyCosmosHeader, commit hash is not right!, commit block hash: " ++
      hexBytes commit.blockID.hash ++ ", header hash: " ++ toHex hash))
  wrapError "VerifyCosmosHeader, commit is not right! err: " commit.validateBasic
  failIf (valset.length ≠ commit.precommits.length)
    (.error "VerifyCosmosHeader, the size of precommits is not right!")
  let tallied ← commit.precommits.foldlM (tallyPrecommit valset commit info.chainID) 0
  let total ← totalVotingPower valset
  failIf (tallied ≤ total * 2 / 3) (.error "VerifyCosmosHeader, voteing power is not enough!")

end Verify

section Storage

namespace CosmosEpochSwitchInfo

def serialization (info : CosmosEpochSwitchInfo) : Bytes :=
  Sink.writeUint64 info.height.toUInt64 ++ Sink.writeVarBytes info.blockHash ++
    Sink.writeVarBytes info.nextValidatorsHash ++ Sink.writeVarBytes info.chainID

def deserialization : Reader Failure CosmosEpochSwitchInfo := do
  let height ← Source.nextUint64 (.error "deserialize height of CosmosEpochSwitchInfo failed")
  let blockHash ← Source.nextVarBytes
    (.error "deserialize BlockHash of CosmosEpochSwitchInfo failed")
  let nextValidatorsHash ← Source.nextVarBytes
    (.error "deserialize NextValidatorsHash of CosmosEpochSwitchInfo failed")
  let chainID ← Source.nextVarBytes (.error "deserialize ChainID of CosmosEpochSwitchInfo failed")
  return ⟨height.toInt64, blockHash, nextValidatorsHash, chainID⟩

end CosmosEpochSwitchInfo

/-- A missing record reads as an empty one. -/
def getEpochSwitchInfo (chainId : UInt64) : NativeM CosmosEpochSwitchInfo := do
  let val ← getCache (syncKey EPOCH_SWITCH chainId)
  let raw ← wrapM "deserialize bytes from raw storage item err: "
    (lift (getValueFromRawStorageItem (val.getD [])))
  wrapM "failed to deserialize CosmosEpochSwitchInfo: "
    (lift (decode CosmosEpochSwitchInfo.deserialization raw))

variable (enableEventLog : Bool)

def notifyEpochSwitchInfo (chainID : UInt64) (info : CosmosEpochSwitchInfo) : NativeM Unit := do
  if enableEventLog then
    let s ← get
    addNotify ⟨HeaderSyncContractAddress, [.num chainID.toNat, .str (ascii (hexBytes info.blockHash)),
      .int info.height.toInt, .str (ascii (hexBytes info.nextValidatorsHash)), .str info.chainID,
      .num s.height.toNat]⟩
  else
    return ()

def putEpochSwitchInfo (chainId : UInt64) (info : CosmosEpochSwitchInfo) : NativeM Unit := do
  putItem (syncKey EPOCH_SWITCH chainId) info.serialization
  notifyEpochSwitchInfo enableEventLog chainId info

end Storage

variable (C : Crypto) (L : HeimdallLib) (enableEventLog : Bool)

def syncGenesisHeader : NativeM Unit := do
  let param ← wrapM "HeimdallHandler SyncGenesisHeader, contract params deserialize error: "
    (lift (decode SyncGenesisHeaderParam.deserialization (← getInput)))
  let operatorAddress ← wrapM
    "HeimdallHandler SyncGenesisHeader, get current consensus operator address error: "
    (Governance.getCurConOperator C)
  wrapM "HeimdallHandler SyncGenesisHeader, checkWitness error: " (validateOwner operatorAddress)
  let header ← wrapM "HeimdallHandler SyncGenesisHeader: "
    (lift (L.unmarshalHeader param.genesisHeader))
  let info ← attempt (getEpochSwitchInfo param.chainID)
  failIf (info ≠ none)
    (.error "HeimdallHandler SyncGenesisHeader, genesis header had been initialized")
  putEpochSwitchInfo enableEventLog param.chainID ⟨header.header.height, header.header.hash L,
    header.header.nextValidatorsHash, header.header.chainID⟩

/-- One header in the loop of `syncBlockHeader`, with the number of useful headers. -/
def syncHeader (acc : CosmosEpochSwitchInfo × ℕ) (v : Bytes) :
    Result (CosmosEpochSwitchInfo × ℕ) := do
  let info := acc.1
  let myHeader ← wrapError "SyncBlockHeader failed to unmarshal header: " (L.unmarshalHeader v)
  if myHeader.header.nextValidatorsHash = myHeader.header.validatorsHash then
    return acc
  else if info.height ≥ myHeader.header.height then
    return acc
  else
    wrapError "SyncBlockHeader, failed to verify header: " (verifyCosmosHeader myHeader info)
    return ({ info with
      nextValidatorsHash := myHeader.header.nextValidatorsHash
      height := myHeader.header.height
      blockHash := myHeader.header.hash L }, acc.2 + 1)

def syncBlockHeader : NativeM Unit := do
  let params ← wrapM "SyncBlockHeader, contract params deserialize error: "
    (lift (decode SyncBlockHeaderParam.deserialization (← getInput)))
  let info ← wrapM "SyncBlockHeader, get epoch switching height failed: "
    (getEpochSwitchInfo params.chainID)
  let (info, cnt) ← lift (params.headers.foldlM (syncHeader L) (info, 0))
  failIf (cnt = 0) (.error "no header you commited is useful")
  putEpochSwitchInfo enableEventLog params.chainID info

def verifySpan (heimdallPolyChainID : UInt64) (proof : CosmosProof L.PubKey) : NativeM L.Span := do
  let info ← wrapM "HeimdallHandler failed to get epoch switching height: "
    (getEpochSwitchInfo heimdallPolyChainID)
  wrapM "HeimdallHandler failed to verify cosmos header: "
    (lift (verifyCosmosHeader proof.header info))
  failIf (proof.proof.length ≠ 2) (.error "proof size wrong")
  let op ← lift (goIndex proof.proof 1)
  failIf (op.key ≠ ascii "bor") (.error "wrong module for proof")
  wrapM "validateHeaderExtraField VerifyValue error: " (lift
    (L.verifyValue proof.proof proof.header.header.appHash proof.value.kp proof.value.value))
  let heimdallSpan ← wrapM "validateHeaderExtraField heimdallSpan UnmarshalBinaryBare error: "
    (lift (L.unmarshalSpan proof.value.value))
  lift (L.spanFromHeimdall heimdallSpan)

end Heimdall

end Poly.HeaderSync
