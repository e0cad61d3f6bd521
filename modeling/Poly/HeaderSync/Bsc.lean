import Poly.HeaderSync.Eth

/-! The header sync handler of BSC, a chain sealed by validators in turn: the list of the validators
stands in the first header of an epoch and takes effect half a list later. -/
namespace Poly.HeaderSync.Bsc

open Lib Native

section Types

/-- The height of a header with a list of validators; the height may be missing in what the genesis
header comes with. -/
structure HeightAndValidators where
  height : Option ℤ
  validators : List Address
  deriving DecidableEq

structure GenesisHeader where
  header : EthHeader
  prevValidators : List HeightAndValidators
  deriving DecidableEq

structure ExtraInfo where
  chainID : Option ℤ
  deriving DecidableEq

structure Context where
  extraInfo : ExtraInfo
  chainID : UInt64

structure HeaderWithDifficultySum where
  header : EthHeader
  difficultySum : ℕ
  /-- The hash of the last header before this one that has a list of validators. -/
  epochParentHash : Option Uint256
  deriving DecidableEq

/-- The libraries: hashes and seals of headers, and JSON. -/
structure BscLib where
  hash : EthHeader → Uint256
  uncleHash : Uint256
  /-- The address recovered from the seal at the end of the extra data, over the chain id. -/
  recover : Option ℤ → EthHeader → Result Address
  unmarshalHeader : Bytes → Result EthHeader
  unmarshalGenesis : Bytes → Result GenesisHeader
  marshalGenesis : GenesisHeader → Result Bytes
  unmarshalRecord : Bytes → Result HeaderWithDifficultySum
  marshalRecord : HeaderWithDifficultySum → Result Bytes
  unmarshalExtraInfo : Bytes → Result ExtraInfo

variable (L : BscLib)

def records : Records HeaderWithDifficultySum where
  name := "bsc"
  hash := L.hash
  header := HeaderWithDifficultySum.header
  difficultySum := HeaderWithDifficultySum.difficultySum
  marshal := L.marshalRecord
  unmarshal := L.unmarshalRecord

def extraVanity : ℕ := 32

def extraSeal : ℕ := 65

def diffInTurn : ℕ := 2

def diffNoTurn : ℕ := 1

def GasLimitBoundDivisor : UInt64 := 256

/-- The bytes of the extra data between the vanity and the seal; negative if they are too short. -/
def signersBytes (header : EthHeader) : ℤ := header.extra.length - extraVanity - extraSeal

/-- The header has a list of validators. -/
def HasValidators (header : EthHeader) : Prop := header.extra.length > extraVanity + extraSeal

instance : DecidablePred HasValidators :=
  fun header => inferInstanceAs (Decidable (header.extra.length > extraVanity + extraSeal))

/-- What stands between the vanity and the seal. -/
def validatorsBytes (header : EthHeader) : Bytes :=
  (header.extra.take (header.extra.length - extraSeal)).drop extraVanity

def parseValidators (validatorsBytes : Bytes) : Result (List Address) := do
  failIf (validatorsBytes.length % AddressLength ≠ 0) (.error "invalid validators bytes")
  return (List.range (validatorsBytes.length / AddressLength)).map fun i =>
    zeroPad 20 ((validatorsBytes.drop (i * AddressLength)).take AddressLength)

def ecrecover (header : EthHeader) (chainID : Option ℤ) : Result Address := do
  failIf (header.extra.length < extraSeal) (.error "extra-data 65 byte signature suffix missing")
  L.recover chainID header

end Types

section Search

variable (L : BscLib)

def getGenesis (chainID : UInt64) : NativeM (Option GenesisHeader) := do
  match ← getCache (syncKey GENESIS_HEADER chainID) with
  | none => return none
  | some raw =>
    let genesisBytes ← wrapM "getGenesis, GetValueFromRawStorageItem err:"
      (lift (getValueFromRawStorageItem raw))
    let genesisHeader ← wrapM "getGenesis, json.Unmarshal err:"
      (lift (L.unmarshalGenesis genesisBytes))
    return some genesisHeader

/-- The lists of validators in effect before a header: the last with the hash of its header, and the
one before it. -/
structure PrevValidators where
  phv : HeightAndValidators
  hash : Uint256
  pphv : HeightAndValidators

/-- The lists that the genesis header came with. -/
def genesisValidators (genesis : GenesisHeader) : Result PrevValidators := do
  let phv ← goIndex genesis.prevValidators 0
  let pphv ← goIndex genesis.prevValidators 1
  return ⟨phv, L.hash genesis.header, pphv⟩

/-- Down from a header with its record to the list of validators before the one that was found, if
one was. -/
def searchValidators (chainID : UInt64) (genesis : GenesisHeader) :
    ℕ → HeaderWithDifficultySum → Option (HeightAndValidators × Uint256) → NativeM PrevValidators
  | 0, _, _ => throw (.panic "loop without end")
  | n + 1, prev, found => do
    let next (found : Option (HeightAndValidators × Uint256)) : NativeM PrevValidators := do
      let nextParentHash := prev.epochParentHash.getD prev.header.parentHash
      if nextParentHash = L.hash genesis.header then
        match found with
        | none => lift (genesisValidators L genesis)
        | some (phv, hash) => return ⟨phv, hash, ← lift (goIndex genesis.prevValidators 0)⟩
      else
        let prev ← wrapM "bsc Handler getHeader error: "
          ((records L).getHeader chainID nextParentHash)
        searchValidators chainID genesis n prev found
    if HasValidators prev.header then
      let validators ← wrapM "bsc Handler ParseValidators error: "
        (lift (parseValidators (validatorsBytes prev.header)))
      let current : HeightAndValidators := ⟨some prev.header.number, validators⟩
      match found with
      | none => next (some (current, L.hash prev.header))
      | some (phv, hash) => return ⟨phv, hash, current⟩
    else
      next found

/-- The last of some headers down from a hash that has the target as its coinbase. A header that
cannot be read ends the search without an error. -/
def searchRecent (chainID : UInt64) (targetCoinbase : Address) (genesisHash : Uint256) :
    ℕ → Uint256 → NativeM (Option Int64)
  | 0, _ => return none
  | n + 1, nextRecentParentHash => do
    match ← attempt ((records L).getHeader chainID nextRecentParentHash) with
    | none => return none
    | some prev =>
      if prev.header.coinbase = targetCoinbase then
        return some prev.header.number64.toInt64
      else if nextRecentParentHash = genesisHash then
        return none
      else
        searchRecent chainID targetCoinbase genesisHash n prev.header.parentHash

/-- The lists of validators before a header, and the last height at which its coinbase is seen. -/
def getPrevHeightAndValidators (header : EthHeader) (ctx : Context) :
    NativeM (PrevValidators × Int64) := do
  let genesis ← wrapM "bsc Handler getGenesis error: " (getGenesis L ctx.chainID)
  let genesis ← orFail genesis (.error "bsc Handler genesis not set")
  let genesisHeaderHash := L.hash genesis.header
  failIf (L.hash header = genesisHeaderHash) (.error "genesis header should not be synced again")
  if header.parentHash = genesisHeaderHash then
    let prev ← lift (genesisValidators L genesis)
    return (prev, if genesis.header.coinbase = header.coinbase then
      genesis.header.number64.toInt64 else -1)
  else
    let parent ← wrapM "bsc Handler getHeader error: "
      ((records L).getHeader ctx.chainID header.parentHash)
    let prev ← searchValidators L ctx.chainID genesis walkSteps parent none
    if parent.header.coinbase = header.coinbase then
      return (prev, parent.header.number64.toInt64)
    else
      let maxV := max prev.phv.validators.length prev.pphv.validators.length
      let seen ← searchRecent L ctx.chainID header.coinbase genesisHeaderHash (maxV / 2 - 1)
        parent.header.parentHash
      return (prev, seen.getD (-1))

end Search

section Verification

variable (L : BscLib)

variable (header : EthHeader)

def verifySeal (ctx : Context) : Result Address := do
  failIf (header.number64 = 0) (.error "unknown block")
  let signer ← ecrecover L header ctx.extraInfo.chainID
  failIf (signer ≠ header.coinbase) (.error "coinbase do not match with signature")
  return signer

def verifyCascadingFields (ctx : Context) : NativeM Address := do
  let parent ← (records L).getHeader ctx.chainID header.parentHash
  failIf (parent.header.number64 ≠ header.number64 - 1) (.error "unknown ancestor")
  failIf (header.gasLimit > 0x7fffffffffffffff)
    (.error s!"invalid gasLimit: have {header.gasLimit}, max {0x7fffffffffffffff}")
  failIf (header.gasUsed > header.gasLimit)
    (.error s!"invalid gasUsed: have {header.gasUsed}, gasLimit {header.gasLimit}")
  let limit := parent.header.gasLimit / GasLimitBoundDivisor
  failIf (Eth.gasLimitDiff parent.header.gasLimit header.gasLimit ≥ limit ∨
      header.gasLimit < Eth.MinGasLimit)
    (.error (s!"invalid gas limit: have {header.gasLimit}, want {parent.header.gasLimit} += " ++
      s!"{limit}"))
  lift (verifySeal L header ctx)

/-- At the time `now`. -/
def verifyHeader (now : ℤ) (header : EthHeader) (ctx : Context) : NativeM Address := do
  failIf (header.time > UInt64.ofInt now) (.error "block in the future")
  failIf (header.extra.length < extraVanity) (.error "extra-data 32 byte vanity prefix missing")
  failIf (header.extra.length < extraVanity + extraSeal)
    (.error "extra-data 65 byte signature suffix missing")
  failIf ((signersBytes header).tmod AddressLength ≠ 0) (.error "invalid signer list")
  failIf (header.mixDigest ≠ Uint256.empty) (.error "non-zero mix digest")
  failIf (header.uncleHash ≠ L.uncleHash) (.error "non empty uncle hash")
  failIf (header.difficulty ≠ diffInTurn ∧ header.difficulty ≠ diffNoTurn)
    (.error "invalid difficulty")
  verifyCascadingFields L header ctx

/-- The list that is in effect for a header. -/
def inTurnValidators (prev : PrevValidators) :
    Result HeightAndValidators := do
  let height ← orFail prev.phv.height (.panic "nil pointer dereference")
  let diffWithLastEpoch := Int64.ofInt (header.number - height)
  if diffWithLastEpoch ≤ Int64.ofNat (prev.pphv.validators.length / 2) then
    failIf (HasValidators header)
      (.error "bsc Handler SyncBlockHeader: can not change epoch continuously")
    return prev.pphv
  else
    return prev.phv

/-- The signer must be a validator, and the difficulty must say whether it is its turn. -/
def checkTurn (signer : Address) (inTurnHV : HeightAndValidators) :
    Result Unit := do
  let validators := inTurnHV.validators
  failIf (validators = []) (.panic "integer divide by zero")
  let indexInTurn := header.number64.toInt64.toInt.tmod validators.length
  failIf (indexInTurn < 0)
    (.error (s!"indexInTurn is negative:{indexInTurn} inTurnHV.Height:" ++
      s!"{Int64.ofInt (inTurnHV.height.getD 0)} header.Number:{header.number64.toInt64}"))
  (validators.zipIdx.filter fun v => v.1 = signer).forM fun v => do
    let expected := if indexInTurn = v.2 then diffInTurn else diffNoTurn
    failIf (header.difficulty ≠ expected)
      (.error (s!"invalid difficulty, got {header.difficulty} expect {expected} " ++
        s!"index:{indexInTurn}"))
  failIf (signer ∉ validators) (.error "bsc Handler SyncBlockHeader, invalid signer")

/-- The validators that a header must be sealed by, and whether the signer may seal it. -/
def checkSigner (signer : Address) (prev : PrevValidators)
    (lastSeenHeight : Int64) : Result Unit := do
  let inTurnHV ← inTurnValidators header prev
  let count := inTurnHV.validators.length
  failIf (lastSeenHeight > 0 ∧
      header.number64.toInt64 ≤ lastSeenHeight + Int64.ofNat (count / 2))
    (.error (s!"bsc Handler SyncBlockHeader, RecentlySigned, lastSeenHeight:{lastSeenHeight} " ++
      s!"currentHeight:{header.number64.toInt64} #V:{count}"))
  checkTurn header signer inTurnHV

end Verification

variable (C : Crypto) (L : BscLib) (enableEventLog : Bool)

def storeGenesis (chainID : UInt64) (genesisHeader : GenesisHeader) : NativeM Unit := do
  let genesisBytes ← lift (L.marshalGenesis genesisHeader)
  putItem (syncKey GENESIS_HEADER chainID) genesisBytes
  (records L).putGenesis chainID enableEventLog
    ⟨genesisHeader.header, genesisHeader.header.difficulty, none⟩

/-- The genesis header with the list of validators in its extra data before the one it comes with. -/
def completeGenesis (genesis : GenesisHeader) : Result GenesisHeader := do
  let header := genesis.header
  failIf (signersBytes header = 0 ∨ (signersBytes header).tmod AddressLength ≠ 0)
    (.error s!"invalid signer list, signersBytes:{signersBytes header}")
  failIf (genesis.prevValidators.length ≠ 1) (.error "invalid PrevValidators")
  let prev ← goIndex genesis.prevValidators 0
  let height ← orFail prev.height (.panic "nil pointer dereference")
  failIf (header.number ≤ height) (.error "invalid height orders")
  failIf (signersBytes header < 0) (.panic "slice bounds out of range")
  let validators ← parseValidators (validatorsBytes header)
  return ⟨header, ⟨some header.number, validators⟩ :: genesis.prevValidators⟩

def syncGenesisHeader : NativeM Unit := do
  let params ← wrapM "bsc Handler SyncGenesisHeader, contract params deserialize error: "
    (lift (decode SyncGenesisHeaderParam.deserialization (← getInput)))
  let operatorAddress ← wrapM
    "bsc Handler SyncGenesisHeader, get current consensus operator address error: "
    (Governance.getCurConOperator C)
  wrapM "bsc Handler SyncGenesisHeader, checkWitness error: " (validateOwner operatorAddress)
  let stored ← wrapM "bsc Handler SyncGenesisHeader, isGenesisStored error: "
    (getGenesis L params.chainID)
  failIf (stored ≠ none) (.error "bsc Handler SyncGenesisHeader, genesis had been initialized")
  let genesis ← wrapM "bsc Handler SyncGenesisHeader, deserialize GenesisHeader err: "
    (lift (L.unmarshalGenesis params.genesisHeader))
  let genesis ← lift (completeGenesis genesis)
  wrapM "bsc Handler SyncGenesisHeader, storeGenesis error: "
    (storeGenesis L enableEventLog params.chainID genesis)

/-- A header whose parent is there and that is not there itself. -/
def acceptHeader (now : ℤ) (ctx : Context) (header : EthHeader) : NativeM Unit := do
  let signer ← wrapM "bsc Handler SyncBlockHeader, verifySignature err: "
    (verifyHeader L now header ctx)
  let (prev, lastSeenHeight) ← wrapM
    "bsc Handler SyncBlockHeader, getPrevHeightAndValidators err: "
    (getPrevHeightAndValidators L header ctx)
  lift (checkSigner header signer prev lastSeenHeight)
  wrapM "bsc Handler SyncBlockHeader, addHeader err: "
    ((records L).addHeader ctx.chainID header fun _ externTd =>
      .ok ⟨header, externTd, some prev.hash⟩)
  notifyPutHeader enableEventLog ctx.chainID header.number64 (hashHex (L.hash header))

/-- One header of `SyncBlockHeader`; one that is there already, or that has no parent there, is
passed over. -/
def syncHeader (now : ℤ) (ctx : Context) (raw : Bytes) : NativeM Unit := do
  let header ← wrapM "bsc Handler SyncBlockHeader, deserialize header err: "
    (lift (L.unmarshalHeader raw))
  if ← isHeaderExist ctx.chainID (L.hash header) then
    return ()
  else if ← isHeaderExist ctx.chainID header.parentHash then
    acceptHeader L enableEventLog now ctx header
  else
    return ()

/-- The loop of `SyncBlockHeader`; `clock i` is the time at which its `i`-th header is looked at. -/
def syncHeaders (clock : ℕ → ℤ) (ctx : Context) : List Bytes → ℕ → NativeM Unit
  | [], _ => return ()
  | raw :: rest, i => do
    syncHeader L enableEventLog (clock i) ctx raw
    syncHeaders clock ctx rest (i + 1)

def syncBlockHeader (clock : ℕ → ℤ) : NativeM Unit := do
  let headerParams ← wrapM "bsc Handler SyncBlockHeader, contract params deserialize error: "
    (lift (decode SyncBlockHeaderParam.deserialization (← getInput)))
  let side ← wrapM "bsc Handler SyncBlockHeader, GetSideChain error: "
    (getExtraInfo headerParams.chainID)
  let extraInfo ← wrapM "bsc Handler SyncBlockHeader, ExtraInfo Unmarshal error: "
    (lift (L.unmarshalExtraInfo side))
  syncHeaders L enableEventLog clock ⟨extraInfo, headerParams.chainID⟩ headerParams.headers 0

end Poly.HeaderSync.Bsc
