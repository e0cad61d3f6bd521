import Poly.HeaderSync.Heimdall

/-! The header sync handler of Cosmos chains: headers of two encodings, told apart by their block
version, with the commit that signs them. -/
namespace Poly.HeaderSync.Cosmos

open Lib Native
-- both packages have the same record under the same key
open Heimdall (CosmosEpochSwitchInfo getEpochSwitchInfo putEpochSwitchInfo)

/-- The fields that are not looked at are kept in their encoding for the hash. -/
structure Header where
  versionBlock : UInt64
  chainID : Bytes
  height : Int64
  validatorsHash : Bytes
  nextValidatorsHash : Bytes
  appHash : Bytes
  others : List Bytes
  deriving DecidableEq

def BlockIDFlagAbsent : UInt8 := 1

def BlockIDFlagCommit : UInt8 := 2

def BlockIDFlagNil : UInt8 := 3

/-- The signature at one position of a commit; the timestamp is zero where there is none. -/
structure CommitSig where
  blockIDFlag : UInt8
  validatorAddress : Bytes
  timestamp : ℤ
  signature : Bytes
  deriving DecidableEq

structure Commit where
  height : Int64
  round : Int64
  blockID : BlockID
  signatures : List CommitSig
  deriving DecidableEq

structure CosmosHeader (K : Type) where
  header : Header
  commit : Option Commit
  valsets : List (Option (Validator K))
  deriving DecidableEq

/-- The tendermint and amino calls of the handler. The functions with `34` are those of the new
encoding; they take the old types, which the handler converts. -/
structure CosmosLib where
  PubKey : Type
  verifyBytes : PubKey → Bytes → Bytes → Bool
  setHash : List (Validator PubKey) → Bytes
  setHash34 : List (Validator PubKey) → Result Bytes
  headerHash : Header → Bytes
  headerHash34 : Header → Bytes
  voteSignBytes : Commit → Bytes → ℕ → Result Bytes
  voteSignBytes34 : Commit → Bytes → ℕ → Result Bytes
  unmarshalHeader : Bytes → Result (CosmosHeader PubKey)

def AddressSize : ℕ := 20

def MaxSignatureSize : ℕ := 64

variable (cs : CommitSig)

def CommitSig.absent : Bool := cs.blockIDFlag = BlockIDFlagAbsent

def emptyBlockID : BlockID := ⟨[], ⟨0, []⟩⟩

/-- The block that a signature is for. -/
def CommitSig.blockID (commitBlockID : BlockID) : Result BlockID :=
  if cs.blockIDFlag = BlockIDFlagAbsent then .ok emptyBlockID
  else if cs.blockIDFlag = BlockIDFlagCommit then .ok commitBlockID
  else if cs.blockIDFlag = BlockIDFlagNil then .ok emptyBlockID
  else .error (.panic s!"Unknown BlockIDFlag: {cs.blockIDFlag}")

def CommitSig.validateBasic : Result Unit := do
  failIf (cs.blockIDFlag ∉ [BlockIDFlagAbsent, BlockIDFlagCommit, BlockIDFlagNil])
    (.error s!"unknown BlockIDFlag: {cs.blockIDFlag}")
  if cs.blockIDFlag = BlockIDFlagAbsent then
    failIf (cs.validatorAddress.length ≠ 0) (.error "validator address is present")
    failIf (cs.timestamp ≠ 0) (.error "time is present")
    failIf (cs.signature.length ≠ 0) (.error "signature is present")
  else
    failIf (cs.validatorAddress.length ≠ AddressSize)
      (.error (s!"expected ValidatorAddress size to be {AddressSize} bytes, " ++
        s!"got {cs.validatorAddress.length} bytes"))
    failIf (cs.signature.length = 0) (.error "signature is missing")
    failIf (cs.signature.length > MaxSignatureSize)
      (.error s!"signature is too big (max: {MaxSignatureSize})")

def Commit.validateBasic (commit : Commit) : Result Unit := do
  failIf (commit.height < 0) (.error "negative Height")
  failIf (commit.round < 0) (.error "negative Round")
  failIf (commit.blockID.isZero = true) (.error "commit cannot be for nil block")
  failIf (commit.signatures.length = 0) (.error "no signatures in commit")
  commit.signatures.zipIdx.forM fun x =>
    wrapError s!"wrong CommitSig #{x.2}: " x.1.validateBasic

section Verify

variable (L : CosmosLib)

def hashCosmosHeader (header : Header) : Bytes :=
  if header.versionBlock < 11 then L.headerHash header else L.headerHash34 header

def hashCosmosValSet (valSet : List (Validator L.PubKey)) (blockVersion : UInt64) : Result Bytes :=
  if blockVersion < 11 then .ok (L.setHash valSet) else L.setHash34 valSet

/-- The chain id is the one that the header itself names. -/
def voteSignBytes (header : Header) (commit : Commit) (valIdx : ℕ) : Result Bytes :=
  if header.versionBlock < 11 then L.voteSignBytes commit header.chainID valIdx
  else L.voteSignBytes34 commit header.chainID valIdx

variable {L} in
/-- Sorted by address in the old version, as submitted in the new one. -/
def getValByIndex (vals : List (Option (Validator L.PubKey))) (blockVersion : UInt64) (idx : ℕ) :
    Result (Validator L.PubKey) := do
  if blockVersion < 11 then
    orFail (← newValidatorSet vals)[idx]? nilPointer
  else
    orFail (← goIndex vals idx) nilPointer

variable {L} in
/-- One signature in the loop of `VerifyCosmosHeader`, with its position. -/
def tallySignature (myHeader : CosmosHeader L.PubKey) (commit : Commit) (tallied : Int64)
    (x : CommitSig × ℕ) : Result Int64 := do
  let (commitSig, idx) := x
  if commitSig.absent then
    return tallied
  else
    let val ← getValByIndex myHeader.valsets myHeader.header.versionBlock idx
    let precommitSignBytes ← voteSignBytes L myHeader.header commit idx
    failIf (L.verifyBytes val.pubKey precommitSignBytes commitSig.signature = false)
      (.error ("VerifyCosmosHeader, Invalid commit -- invalid signature: " ++
        hexBytes commitSig.signature))
    let blockID ← commitSig.blockID commit.blockID
    if commit.blockID = blockID then
      return tallied + val.votingPower
    else
      return tallied

variable {L} in
def verifyCosmosHeader (myHeader : CosmosHeader L.PubKey) (info : CosmosEpochSwitchInfo) :
    Result Unit := do
  let valset ← newValidatorSet myHeader.valsets
  let valSetHash ← hashCosmosValSet L valset myHeader.header.versionBlock
  failIf (info.nextValidatorsHash ≠ valSetHash ∧ info.nextValidatorsHash ≠ L.setHash valset) (.error
    ("VerifyCosmosHeader, block validator is not right, next validator hash: " ++
      hexBytes info.nextValidatorsHash ++ ", validator set hash: " ++ toHex valSetHash))
  failIf (myHeader.header.validatorsHash ≠ valSetHash) (.error
    ("VerifyCosmosHeader, block validator is not right!, header validator hash: " ++
      hexBytes myHeader.header.validatorsHash ++ ", validator set hash: " ++ toHex valSetHash))
  let commit ← orFail myHeader.commit nilPointer
  failIf (commit.height ≠ myHeader.header.height) (.error
    (s!"VerifyCosmosHeader, commit height is not right! commit height: {commit.height}, " ++
      s!"header height: {myHeader.header.height}"))
  failIf (commit.blockID.hash ≠ hashCosmosHeader L myHeader.header) (.error
    ("VerifyCosmosHeader, commit hash is not right!, commit block hash: " ++
      hexBytes commit.blockID.hash ++ ", header hash: " ++ toHex valSetHash))
  wrapError "VerifyCosmosHeader, commit is not right! err: " commit.validateBasic
  failIf (valset.length ≠ commit.signatures.length)
    (.error "VerifyCosmosHeader, the size of precommits is not right!")
  let tallied ← commit.signatures.zipIdx.foldlM (tallySignature myHeader commit) 0
  let total ← totalVotingPower valset
  failIf (tallied ≤ total * 2 / 3) (.error "VerifyCosmosHeader, voteing power is not enough!")

end Verify

variable (C : Crypto) (L : CosmosLib) (enableEventLog : Bool)

def syncGenesisHeader : NativeM Unit := do
  let param ← wrapM "CosmosHandler SyncGenesisHeader, contract params deserialize error: "
    (lift (decode SyncGenesisHeaderParam.deserialization (← getInput)))
  let operatorAddress ← wrapM
    "CosmosHandler SyncGenesisHeader, get current consensus operator address error: "
    (Governance.getCurConOperator C)
  wrapM "CosmosHandler SyncGenesisHeader, checkWitness error: " (validateOwner operatorAddress)
  let header ← wrapM "CosmosHandler SyncGenesisHeader: "
    (lift (L.unmarshalHeader param.genesisHeader))
  let info ← attempt (getEpochSwitchInfo param.chainID)
  failIf (info ≠ none)
    (.error "CosmosHandler SyncGenesisHeader, genesis header had been initialized")
  putEpochSwitchInfo enableEventLog param.chainID ⟨header.header.height,
    hashCosmosHeader L header.header, header.header.nextValidatorsHash, header.header.chainID⟩

/-- One header in the loop of `SyncBlockHeader`, with the number of useful headers. -/
def syncHeader (acc : CosmosEpochSwitchInfo × ℕ) (v : Bytes) :
    Result (CosmosEpochSwitchInfo × ℕ) := do
  let info := acc.1
  let myHeader ← wrapError "SyncBlockHeader failed to unmarshal header: " (L.unmarshalHeader v)
  if myHeader.header.nextValidatorsHash = myHeader.header.validatorsHash then
    return acc
  else if info.height ≥ myHeader.header.height then
    return acc
  else
    wrapError "SyncBlockHeader, failed to verify header: " (verifyCosmosHeader myHeader info)
    return ({ info with
      nextValidatorsHash := myHeader.header.nextValidatorsHash
      height := myHeader.header.height
      blockHash := hashCosmosHeader L myHeader.header }, acc.2 + 1)

def syncBlockHeader : NativeM Unit := do
  let params ← wrapM "SyncBlockHeader, contract params deserialize error: "
    (lift (decode SyncBlockHeaderParam.deserialization (← getInput)))
  let info ← wrapM "SyncBlockHeader, get epoch switching height failed: "
    (getEpochSwitchInfo params.chainID)
  let (info, cnt) ← lift (params.headers.foldlM (syncHeader L) (info, 0))
  failIf (cnt = 0) (.error "no header you commited is useful")
  putEpochSwitchInfo enableEventLog params.chainID info

end Poly.HeaderSync.Cosmos
