import Poly.HeaderSync.Canonical

/-! The header sync handler of MSC, a clique chain: headers are sealed by signers, whose list stands
in the checkpoint headers and changes by votes in between. -/
namespace Poly.HeaderSync.Msc

open Lib Native

section Types

structure ExtraInfo where
  period : UInt64
  epoch : UInt64
  deriving DecidableEq

structure Context where
  extraInfo : ExtraInfo
  chainID : UInt64

structure HeaderWithDifficultySum where
  header : EthHeader
  difficultySum : ℕ
  /-- `none` for a checkpoint; for other headers, the hash of a checkpoint or of a vote header. -/
  lastVoteParentOrEpoch : Option Uint256
  deriving DecidableEq

/-- The libraries: hashes and seals of headers, and JSON. -/
structure MscLib where
  hash : EthHeader → Uint256
  uncleHash : Uint256
  /-- The address recovered from the seal at the end of the extra data. -/
  recover : EthHeader → Result Address
  unmarshalHeader : Bytes → Result EthHeader
  marshalHeader : EthHeader → Result Bytes
  unmarshalRecord : Bytes → Result HeaderWithDifficultySum
  marshalRecord : HeaderWithDifficultySum → Result Bytes
  unmarshalExtraInfo : Bytes → Result ExtraInfo

variable (L : MscLib)

def records : Records HeaderWithDifficultySum where
  name := "msc"
  hash := L.hash
  header := HeaderWithDifficultySum.header
  difficultySum := HeaderWithDifficultySum.difficultySum
  marshal := L.marshalRecord
  unmarshal := L.unmarshalRecord

def extraVanity : ℕ := 32

def extraSeal : ℕ := 65

def diffInTurn : ℕ := 2

def diffNoTurn : ℕ := 1

def nonceAuthVote : FixedBytes 8 := ⟨List.replicate 8 0xff, rfl⟩

def nonceDropVote : FixedBytes 8 := ⟨List.replicate 8 0, rfl⟩

/-- The bytes of the extra data between the vanity and the seal; negative if they are too short. -/
def signersBytes (header : EthHeader) : ℤ := header.extra.length - extraVanity - extraSeal

def ecrecover (header : EthHeader) : Result Address := do
  failIf (header.extra.length < extraSeal) (.error "extra-data 65 byte signature suffix missing")
  L.recover header

/-- The header is at the start of an epoch. -/
def Checkpoint (epoch : UInt64) (header : EthHeader) : Prop := header.number64 % epoch = 0

instance (epoch : UInt64) : DecidablePred (Checkpoint epoch) :=
  fun header => inferInstanceAs (Decidable (header.number64 % epoch = 0))

/-- An epoch of zero is not divided by. -/
def isCheckpoint (ctx : Context) (header : EthHeader) : Result Bool := do
  failIf (ctx.extraInfo.epoch = 0) (.panic "integer divide by zero")
  return decide (Checkpoint ctx.extraInfo.epoch header)

end Types

structure Tally where
  authorize : Bool
  votes : ℕ
  deriving DecidableEq

structure Vote where
  signer : Address
  address : Address
  authorize : Bool
  deriving DecidableEq

structure Snapshot where
  signers : OrderedMap Address Unit
  votes : List Vote
  tally : OrderedMap Address Tally

def newSnapshot (signers : List Address) : Snapshot :=
  ⟨signers.foldl (fun m signer => m.insert signer ()) OrderedMap.empty, [], OrderedMap.empty⟩

namespace Snapshot

variable (s : Snapshot)

variable (address : Address)

def isSigner : Bool := (s.signers.get address).isSome

variable (authorize : Bool)

def validVote : Bool :=
  (s.isSigner address && !authorize) || (!s.isSigner address && authorize)

/-- `none` for a vote that is not cast. -/
def cast : Option Snapshot :=
  if s.validVote address authorize then
    match s.tally.get address with
    | some old => some { s with tally := s.tally.insert address { old with votes := old.votes + 1 } }
    | none => some { s with tally := s.tally.insert address ⟨authorize, 1⟩ }
  else
    none

def uncast : Snapshot :=
  match s.tally.get address with
  | none => s
  | some tally =>
    if tally.authorize ≠ authorize then s
    else if tally.votes > 1 then
      { s with tally := s.tally.insert address { tally with votes := tally.votes - 1 } }
    else { s with tally := s.tally.erase address }

/-- Discard the previous vote of a signer on an address. -/
def discardVote (signer address : Address) : Snapshot :=
  let previous (vote : Vote) : Bool := vote.signer = signer && vote.address = address
  match s.votes.find? previous with
  | none => s
  | some vote =>
    { s.uncast vote.address vote.authorize with votes := s.votes.eraseP previous }

/-- Discard the votes of a signer that is none any more. -/
def discardVotesOf (signer : Address) : Snapshot :=
  let uncasted := (s.votes.filter fun vote => vote.signer = signer).foldl
    (fun s vote => s.uncast vote.address vote.authorize) s
  { uncasted with votes := s.votes.filter fun vote => vote.signer ≠ signer }

/-- Change the list of signers if the vote on an address passed. -/
def settle : Snapshot :=
  match s.tally.get address with
  | none => s
  | some tally =>
    if tally.votes > s.signers.size / 2 then
      let s := if tally.authorize then { s with signers := s.signers.insert address () }
        else { s with signers := s.signers.erase address }.discardVotesOf address
      { s with
        votes := s.votes.filter fun vote => vote.address ≠ address
        tally := s.tally.erase address }
    else s

def readNonce (nonce : FixedBytes 8) : Result Bool :=
  if nonce = nonceAuthVote then .ok true
  else if nonce = nonceDropVote then .ok false
  else .error (.error "vote nonce not 0x00..0 or 0xff..f")

/-- One header of `apply`, with the signer it has. -/
def applyHeader (L : MscLib) (s : Snapshot) (header : EthHeader) : Result (Snapshot × Address) := do
  let signer ← wrapError "ecrecover err " (ecrecover L header)
  failIf (s.isSigner signer = false)
    (.error s!"unauthorized signer for block {header.number64}")
  let s := s.discardVote signer header.coinbase
  let authorize ← readNonce header.nonce
  let s : Snapshot := match s.cast header.coinbase authorize with
    | some s => { s with votes := s.votes ++ [⟨signer, header.coinbase, authorize⟩] }
    | none => s
  return (s.settle header.coinbase, signer)

/-- The headers applied one after another, with the last height that the target signed. -/
def apply (L : MscLib) (targetSigner : Address) (headers : List EthHeader)
    (start : Snapshot × UInt64) : Result (Snapshot × UInt64) :=
  headers.foldlM (fun acc header => do
    let (s, signer) ← acc.1.applyHeader L header
    return (s, if targetSigner = signer then header.number64 else acc.2)) start

/-- Whether it is the signer's turn, and its place in the list; the length of a list is a `uint64`. -/
def inturn (number : UInt64) (signer : Address) : Result (Bool × ℕ) := do
  let signers := s.signers.keys
  failIf (signers = []) (.panic "integer divide by zero")
  let offset := signers.findIdx (· = signer)
  return (decide (number.toNat % signers.length = offset), offset)

end Snapshot

section Search

variable (L : MscLib)

def getGenesis (chainID : UInt64) : NativeM (Option EthHeader) := do
  match ← getCache (syncKey GENESIS_HEADER chainID) with
  | none => return none
  | some raw =>
    let genesisBytes ← wrapM "getGenesis, GetValueFromRawStorageItem err:"
      (lift (getValueFromRawStorageItem raw))
    let genesisHeader ← wrapM "getGenesis, json.Unmarshal err:"
      (lift (L.unmarshalHeader genesisBytes))
    return some genesisHeader

/-- The list of signers in the extra data. -/
def checkpointSigners (header : EthHeader) : Result (List Address) := do
  let count := (signersBytes header).tdiv AddressLength
  failIf (count < 0) (.panic "makeslice: len out of range")
  return (List.range count.toNat).map fun i =>
    zeroPad 20 (header.extra.drop (extraVanity + i * AddressLength))

/-- Follow the pointers from a header to a checkpoint: the checkpoint, and the vote headers on the
way, the latest first. -/
def collect (chainID : UInt64) : ℕ → Uint256 → NativeM (EthHeader × List EthHeader)
  | 0, _ => throw (.panic "loop without end")
  | n + 1, hash => do
    let headerWS ← wrapM "msc Handler snapshot getHeader error: "
      ((records L).getHeader chainID hash)
    match headerWS.lastVoteParentOrEpoch with
    | none => return (headerWS.header, [])
    | some last =>
      let (checkpoint, votes) ← collect chainID n last
      return (checkpoint,
        if headerWS.header.coinbase ≠ Address.empty then headerWS.header :: votes else votes)

/-- The last of some headers down from a hash that the target signed; zero if there is none. -/
def searchRecent (chainID : UInt64) (targetSigner : Address) (genesisNumber : UInt64) :
    ℕ → UInt64 → Uint256 → NativeM UInt64
  | 0, _, _ => return 0
  | n + 1, number, startHash => do
    let headerWS ← wrapM "msc Handler snapshot getHeader error: "
      ((records L).getHeader chainID startHash)
    failIf (number ≠ headerWS.header.number64) (.error "bug happened in msc")
    let signer ← wrapM "msc Handler snapshot ecrecover error: " (lift (ecrecover L headerWS.header))
    if targetSigner = signer then
      return headerWS.header.number64
    else if number - 1 < genesisNumber then
      return 0
    else
      searchRecent chainID targetSigner genesisNumber n (number - 1) headerWS.header.parentHash

/-- The signers after a header, and the last height that the target signed; recent headers are only
searched where the target signed neither the checkpoint nor a vote header. -/
def snapshot (ctx : Context) (number : UInt64) (hash : Uint256) (targetSigner : Address) :
    NativeM (Snapshot × UInt64) := do
  let genesis ← wrapM "msc Handler snapshot getGenesis error: " (getGenesis L ctx.chainID)
  let genesis ← orFail genesis (.error "msc Handler snapshot genesis not set")
  failIf (number < genesis.number64)
    (.error "msc Handler snapshot header before genesis is not allowed")
  let (checkpoint, votes) ← collect L ctx.chainID walkSteps hash
  let signers ← lift (checkpointSigners checkpoint)
  let signer ← wrapM "msc Handler snapshot ecrecover error: " (lift (ecrecover L checkpoint))
  let seen := if targetSigner = signer then checkpoint.number64 else 0
  let (snap, lastSeenHeight) ← wrapM "msc Handler snapshot apply error: "
    (lift (Snapshot.apply L targetSigner votes.reverse (newSnapshot signers, seen)))
  if lastSeenHeight > 0 then
    return (snap, lastSeenHeight)
  else
    let lastSeenHeight ← searchRecent L ctx.chainID targetSigner genesis.number64
      (snap.signers.size / 2) number hash
    return (snap, lastSeenHeight)

end Search

section Verification

variable (L : MscLib)

variable (ctx : Context)

variable (header : EthHeader)

def verifySeal : NativeM Unit := do
  let number := header.number64
  failIf (number = 0) (.error "unknown block")
  let signer ← lift (ecrecover L header)
  let (snap, lastSeenHeight) ← wrapM "msc Handler SyncBlockHeader, snapshot err: "
    (snapshot L ctx (number - 1) header.parentHash signer)
  let checkpoint ← lift (isCheckpoint ctx header)
  failIf (checkpoint ∧ (header.extra.take (header.extra.length - extraSeal)).drop extraVanity ≠
      snap.signers.keys.flatMap Subtype.val)
    (.error "mismatching signer list on checkpoint block")
  let limit := UInt64.ofNat (snap.signers.size / 2) + 1
  failIf (lastSeenHeight > 0 ∧ number < lastSeenHeight + limit)
    (.error (s!"msc Handler SyncBlockHeader, RecentlySigned, lastSeenHeight:{lastSeenHeight} " ++
      s!"currentHeight:{number.toInt64} #V:{snap.signers.size}"))
  let (inturn, offset) ← lift (snap.inturn number signer)
  let expected := if inturn then diffInTurn else diffNoTurn
  failIf (header.difficulty ≠ expected)
    (.error (s!"invalid difficulty, got {header.difficulty} expect {expected} " ++
      s!"offset:{offset} signers:{snap.signers.size}"))

def verifyCascadingFields : NativeM Unit := do
  let parent ← (records L).getHeader ctx.chainID header.parentHash
  failIf (parent.header.number64 ≠ header.number64 - 1) (.error "unknown ancestor")
  failIf (parent.header.time + ctx.extraInfo.period > header.time) (.error "invalid timestamp")
  verifySeal L ctx header

/-- The checks of the fields of one header, at the time `now`. -/
def checkFields (now : ℤ) (ctx : Context) (header : EthHeader) : Result Unit := do
  failIf (header.time > UInt64.ofInt now) (.error "block in the future")
  let checkpoint ← isCheckpoint ctx header
  failIf (checkpoint ∧ header.coinbase ≠ Address.empty)
    (.error "beneficiary in checkpoint block non-zero")
  failIf (header.nonce ≠ nonceAuthVote ∧ header.nonce ≠ nonceDropVote)
    (.error "vote nonce not 0x00..0 or 0xff..f")
  failIf (checkpoint ∧ header.nonce ≠ nonceDropVote)
    (.error "vote nonce in checkpoint block non-zero")
  failIf (header.extra.length < extraVanity) (.error "extra-data 32 byte vanity prefix missing")
  failIf (header.extra.length < extraVanity + extraSeal)
    (.error "extra-data 65 byte signature suffix missing")
  failIf (¬ checkpoint ∧ signersBytes header ≠ 0)
    (.error "non-checkpoint block contains extra signer list")
  failIf (checkpoint ∧ (signersBytes header = 0 ∨ (signersBytes header).tmod AddressLength ≠ 0))
    (.error "invalid signer list on checkpoint block")
  failIf (header.mixDigest ≠ Uint256.empty) (.error "non-zero mix digest")
  failIf (header.uncleHash ≠ L.uncleHash) (.error "non empty uncle hash")
  failIf (header.difficulty ≠ diffInTurn ∧ header.difficulty ≠ diffNoTurn)
    (.error "invalid difficulty")

def verifyHeader (now : ℤ) (ctx : Context) (header : EthHeader) : NativeM Unit := do
  lift (checkFields L now ctx header)
  verifyCascadingFields L ctx header

/-- The record of a header on top of that of its parent. -/
def newRecord (parentHeader : HeaderWithDifficultySum)
    (externTd : ℕ) : Result HeaderWithDifficultySum := do
  let checkpoint ← isCheckpoint ctx header
  let parentCheckpoint ← isCheckpoint ctx parentHeader.header
  let last := if checkpoint then none
    else if parentCheckpoint then some (L.hash parentHeader.header)
    else if parentHeader.header.coinbase ≠ Address.empty then some (L.hash parentHeader.header)
    else parentHeader.lastVoteParentOrEpoch
  return ⟨header, externTd, last⟩

end Verification

variable (C : Crypto) (L : MscLib) (enableEventLog : Bool)

def storeGenesis (chainID : UInt64) (genesisHeader : EthHeader) : NativeM Unit := do
  let genesisBytes ← lift (L.marshalHeader genesisHeader)
  putItem (syncKey GENESIS_HEADER chainID) genesisBytes
  (records L).putGenesis chainID enableEventLog ⟨genesisHeader, genesisHeader.difficulty, none⟩

def syncGenesisHeader : NativeM Unit := do
  let params ← wrapM "msc Handler SyncGenesisHeader, contract params deserialize error: "
    (lift (decode SyncGenesisHeaderParam.deserialization (← getInput)))
  let side ← wrapM "msc Handler SyncGenesisHeader, GetSideChain error: "
    (getExtraInfo params.chainID)
  let extraInfo ← wrapM "msc Handler SyncGenesisHeader, ExtraInfo Unmarshal error: "
    (lift (L.unmarshalExtraInfo side))
  failIf (extraInfo.epoch = 0) (.error "msc Handler SyncGenesisHeader, invalid epoch")
  failIf (extraInfo.period = 0) (.error "msc Handler SyncGenesisHeader, invalid period")
  let operatorAddress ← wrapM
    "msc Handler SyncGenesisHeader, get current consensus operator address error: "
    (Governance.getCurConOperator C)
  wrapM "msc Handler SyncGenesisHeader, checkWitness error: " (validateOwner operatorAddress)
  let stored ← wrapM "msc Handler SyncGenesisHeader, isGenesisStored error: "
    (getGenesis L params.chainID)
  failIf (stored ≠ none) (.error "msc Handler SyncGenesisHeader, genesis had been initialized")
  let genesis ← wrapM "msc Handler SyncGenesisHeader, deserialize GenesisHeader err: "
    (lift (L.unmarshalHeader params.genesisHeader))
  failIf (genesis.number64 % extraInfo.epoch ≠ 0)
    (.error s!"invalid genesis height:{genesis.number64}")
  failIf (signersBytes genesis = 0 ∨ (signersBytes genesis).tmod AddressLength ≠ 0)
    (.error s!"invalid signer list, signersBytes:{signersBytes genesis}")
  wrapM "msc Handler SyncGenesisHeader, storeGenesis error: "
    (storeGenesis L enableEventLog params.chainID genesis)

/-- A header whose parent is there and that is not there itself. -/
def acceptHeader (now : ℤ) (ctx : Context) (header : EthHeader) : NativeM Unit := do
  wrapM "msc Handler SyncBlockHeader, verifyHeader err: " (verifyHeader L now ctx header)
  wrapM "msc Handler SyncBlockHeader, addHeader err: "
    ((records L).addHeader ctx.chainID header (newRecord L ctx header))
  notifyPutHeader enableEventLog ctx.chainID header.number64 (hashHex (L.hash header))

/-- One header of `SyncBlockHeader`; one that is there already, or that has no parent there, is
passed over. -/
def syncHeader (now : ℤ) (ctx : Context) (raw : Bytes) : NativeM Unit := do
  let header ← wrapM "msc Handler SyncBlockHeader, deserialize header err: "
    (lift (L.unmarshalHeader raw))
  if ← isHeaderExist ctx.chainID (L.hash header) then
    return ()
  else if ← isHeaderExist ctx.chainID header.parentHash then
    acceptHeader L enableEventLog now ctx header
  else
    return ()

/-- The loop of `SyncBlockHeader`; `clock i` is the time at which its `i`-th header is looked at. -/
def syncHeaders (clock : ℕ → ℤ) (ctx : Context) : List Bytes → ℕ → NativeM Unit
  | [], _ => return ()
  | raw :: rest, i => do
    syncHeader L enableEventLog (clock i) ctx raw
    syncHeaders clock ctx rest (i + 1)

def syncBlockHeader (clock : ℕ → ℤ) : NativeM Unit := do
  let headerParams ← wrapM "msc Handler SyncBlockHeader, contract params deserialize error: "
    (lift (decode SyncBlockHeaderParam.deserialization (← getInput)))
  let side ← wrapM "msc Handler SyncBlockHeader, GetSideChain error: "
    (getExtraInfo headerParams.chainID)
  let extraInfo ← wrapM "msc Handler SyncBlockHeader, ExtraInfo Unmarshal error: "
    (lift (L.unmarshalExtraInfo side))
  syncHeaders L enableEventLog clock ⟨extraInfo, headerParams.chainID⟩ headerParams.headers 0

end Poly.HeaderSync.Msc
