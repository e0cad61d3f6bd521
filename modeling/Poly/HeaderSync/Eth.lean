import Poly.HeaderSync.Canonical
import Poly.HeaderSync.Ethash

/-! The header sync handler of Ethereum: headers with a proof of work, of which the chain with the
greatest sum of difficulties is the main chain. -/
namespace Poly.HeaderSync.Eth

open Lib Native CrossChain

/-- A header with the base fee, which legacy headers do not have. -/
structure Header extends EthHeader where
  baseFee : Option ℕ
  deriving DecidableEq

structure HeaderWithDifficultySum where
  header : Header
  difficultySum : ℕ
  deriving DecidableEq

/-- The libraries: hash functions, RLP and JSON. -/
structure EthLib extends Keccak where
  hash : Header → Uint256
  /-- `HashHeader`: the hash of what is sealed. -/
  hashHeader : Header → Uint256
  emptyUncleHash : Uint256
  unmarshalHeader : Bytes → Result Header
  unmarshalRecord : Bytes → Result HeaderWithDifficultySum
  /-- Nothing for a record that cannot be written, since the error is not looked at. -/
  marshalRecord : HeaderWithDifficultySum → Bytes

def ETH_CACHE : Bytes := ascii "ethCaches"

/-- Of `params`. -/
def MaximumExtraDataSize : ℕ := 32

def GasLimitBoundDivisor : UInt64 := 1024

def MinGasLimit : UInt64 := 5000

def MinimumDifficulty : ℤ := 131072

def BLOCK_DIFF_FACTOR : ℤ := 2048

def DIFF_PERIOD : ℤ := 100000

def BOMB_DELAY : ℤ := 8999999

def BaseFeeChangeDenominator : ℕ := 8

def ElasticityMultiplier : UInt64 := 2

def InitialBaseFee : ℕ := 1000000000

section Storage

variable (L : EthLib) (enableEventLog : Bool)

def putGenesisBlockHeader (blockHeader : Header) (chainID : UInt64) : NativeM Unit := do
  let storeBytes := L.marshalRecord ⟨blockHeader, blockHeader.difficulty⟩
  let heightBytes := getUint64Bytes blockHeader.number64
  putItem (syncKey GENESIS_HEADER chainID) storeBytes
  putItem (headerKey chainID (L.hash blockHeader)) storeBytes
  putItem (syncKeyAt MAIN_CHAIN chainID heightBytes) (L.hash blockHeader).val
  putItem (syncKey CURRENT_HEADER_HEIGHT chainID) heightBytes
  notifyPutHeader enableEventLog chainID blockHeader.number64 (hashHex (L.hash blockHeader))

def putBlockHeader (blockHeader : Header) (difficultySum : ℕ) (chainID : UInt64) :
    NativeM Unit := do
  putItem (headerKey chainID (L.hash blockHeader)) (L.marshalRecord ⟨blockHeader, difficultySum⟩)
  notifyPutHeader enableEventLog chainID blockHeader.number64 (hashHex (L.hash blockHeader))

def appendHeader2Main (height : UInt64) (txhash : Uint256) (chainID : UInt64) : NativeM Unit := do
  putItem (syncKeyAt MAIN_CHAIN chainID (getUint64Bytes height)) txhash.val
  putItem (syncKey CURRENT_HEADER_HEIGHT chainID) (getUint64Bytes height)
  notifyPutHeader enableEventLog chainID height (hashHex txhash)

def getCurrentHeaderHeight (chainID : UInt64) : NativeM UInt64 := do
  let heightBytes ← getItem (syncKey CURRENT_HEADER_HEIGHT chainID)
    (.error "getPrevHeaderHeight, heightStore is nil")
    "GetHeaderByHeight, deserialize headerBytes from raw storage item err:"
  return getBytesUint64 heightBytes

def getHeaderByHash (hash : Bytes) (chainID : UInt64) : NativeM HeaderWithDifficultySum := do
  let storeBytes ← getItem (syncKeyAt HEADER_INDEX chainID hash)
    (.error "GetHeaderByHash, can not find any header records")
    "GetHeaderByHash, deserialize headerBytes from raw storage item err:"
  wrapM "GetHeaderByHash, deserialize header error: " (lift (L.unmarshalRecord storeBytes))

def getHeaderByHeight (height chainID : UInt64) : NativeM HeaderWithDifficultySum := do
  let latestHeight ← getCurrentHeaderHeight chainID
  failIf (height > latestHeight) (.error "GetHeaderByHeight, height is too big")
  let hashBytes ← getItem (syncKeyAt MAIN_CHAIN chainID (getUint64Bytes height))
    (.error "GetHeaderByHeight, can not find any header records")
    "GetHeaderByHeight, deserialize headerBytes from raw storage item err:"
  getHeaderByHash L hashBytes chainID

def getCurrentHeader (chainID : UInt64) : NativeM HeaderWithDifficultySum := do
  let height ← getCurrentHeaderHeight chainID
  getHeaderByHeight L height chainID

end Storage

section MainChain

variable (L : EthLib) (enableEventLog : Bool) (chainID : UInt64)

/-- The parent of a header of the new branch. Where there is none, the text of the error reads a
field of the missing header. -/
def parentOnBranch (new : Header) : NativeM Header := fun s =>
  match (getHeaderByHash L new.parentHash.val chainID).run s with
  | .ok (parent, t) => .ok (parent.header, t)
  | .error (.error _) => .error (.panic "nil pointer dereference")
  | .error (.panic e) => .error (.panic e)

/-- The hashes of some headers of the new branch, from its head down, and the header below them. -/
def climb : ℕ → Header → NativeM (List Uint256 × Header)
  | 0, new => return ([], new)
  | n + 1, new => do
    let parent ← parentOnBranch L chainID new
    let (newHashs, bottom) ← climb n parent
    return (L.hash new :: newHashs, bottom)

/-- Both branches at one height, followed down until their parents agree. -/
def meet : ℕ → Header → Header → UInt64 → NativeM (List Uint256 × Header × UInt64)
  | 0, _, _, _ => throw (.panic "loop without end")
  | n + 1, current, new, height => do
    if current.parentHash = new.parentHash then
      return ([], new, height)
    else
      let parent ← parentOnBranch L chainID new
      let current ← wrapM s!"RestructChain GetHeaderByHeight height:{height - 1} error:"
        (getHeaderByHeight L (height - 1) chainID)
      let (newHashs, bottom, height) ← meet n current.header parent (height - 1)
      return (L.hash new :: newHashs, bottom, height)

/-- The hashes of a branch into the main chain, from the lowest. -/
def appendBranch : List Uint256 → UInt64 → NativeM Unit
  | [], _ => return ()
  | hash :: rest, height => do
    appendHeader2Main enableEventLog height hash chainID
    appendBranch rest (height + 1)

/-- The header of the main chain not above the new one, with its height. -/
def alignCurrent (current new : Header) : NativeM (Header × UInt64) := do
  let ti := new.number64
  if current.number64 > ti then
    let lower ← wrapM s!"RestructChain GetHeaderByHeight height:{ti} error:"
      (getHeaderByHeight L ti chainID)
    return (lower.header, ti)
  else
    return (current, current.number64)

def restructChain (current new : Header) : NativeM Unit := do
  let ti := new.number64
  let (current, si) ← alignCurrent L chainID current new
  let (above, new) ← climb L chainID (ti.toNat - si.toNat) new
  let (below, new, height) ← meet L chainID walkSteps current new si
  appendBranch enableEventLog chainID (above ++ below ++ [L.hash new]).reverse height

end MainChain

section Forks

variable (networkId : UInt32)

def getEth1559Height : UInt64 := if networkId = NETWORK_ID_MAIN_NET then 12965000 else 10499401

/-- Zero for a network without the fork. -/
def getEth4345Height : UInt64 := if networkId = NETWORK_ID_MAIN_NET then 13773000 else 0

def isLondon (h : Header) : Bool :=
  h.baseFee.isSome || decide (h.number64 ≥ getEth1559Height networkId)

def isArrowGlacier (h : Header) : Bool :=
  let forkHeight := getEth4345Height networkId
  if forkHeight = 0 then false else decide (h.number64 ≥ forkHeight)

/-- The distance of two gas limits, computed on signed integers. -/
def gasLimitDiff (parentGasLimit headerGasLimit : UInt64) : UInt64 :=
  let diff := parentGasLimit.toInt64 - headerGasLimit.toInt64
  (if diff < 0 then diff * -1 else diff).toUInt64

def verifyGaslimit (parentGasLimit headerGasLimit : UInt64) : Result Unit := do
  let limit := parentGasLimit / GasLimitBoundDivisor
  failIf (gasLimitDiff parentGasLimit headerGasLimit ≥ limit)
    (.error (s!"invalid gas limit: have {headerGasLimit}, want {parentGasLimit} +-= " ++
      s!"{limit - 1}"))
  failIf (headerGasLimit < MinGasLimit) (.error "invalid gas limit below 5000")

/-- A header that counts as a London header by its height alone has no base fee to read. -/
def calcBaseFee (parent : Header) : Result ℕ := do
  if isLondon networkId parent then
    let gasTarget := parent.gasLimit / ElasticityMultiplier
    let baseFee ← orFail parent.baseFee (.panic "nil pointer dereference")
    if parent.gasUsed = gasTarget then
      return baseFee
    else if parent.gasUsed > gasTarget then
      failIf (gasTarget = 0) (.panic "division by zero")
      let gasUsedDelta := (parent.gasUsed - gasTarget).toNat
      let baseFeeDelta := max (baseFee * gasUsedDelta / gasTarget.toNat / BaseFeeChangeDenominator) 1
      return baseFee + baseFeeDelta
    else
      let gasUsedDelta := (gasTarget - parent.gasUsed).toNat
      return baseFee - baseFee * gasUsedDelta / gasTarget.toNat / BaseFeeChangeDenominator
  else
    return InitialBaseFee

/-- A big integer as `%s` prints it. -/
def printBig (n : Option ℕ) : String :=
  match n with
  | none => "<nil>"
  | some n => toString n

def verifyEip1559Header (parent header : Header) : Result Unit := do
  let parentGasLimit := if isLondon networkId parent then parent.gasLimit
    else parent.gasLimit * ElasticityMultiplier
  verifyGaslimit parentGasLimit header.gasLimit
  failIf (header.baseFee = none) (.error "header is missing baseFee")
  let expectedBaseFee ← calcBaseFee networkId parent
  failIf (header.baseFee ≠ some expectedBaseFee)
    (.error (s!"invalid baseFee: have {expectedBaseFee}, want " ++ printBig header.baseFee ++
      ", parentBaseFee " ++ printBig parent.baseFee ++ s!", parentGasUsed {parent.gasUsed}"))

/-- The gas limit and the base fee, under the rules in force for the header. -/
def verifyGas (parent header : Header) : Result Unit :=
  if isLondon networkId header then verifyEip1559Header networkId parent header
  else verifyGaslimit parent.gasLimit header.gasLimit

/-- The difficulty after a parent; the bomb counts from a height on. -/
def calcDifficulty (L : EthLib) (bombDelayFromParent : ℤ) (time : UInt64) (parent : Header) : ℤ :=
  let uncles : ℤ := if parent.uncleHash = L.emptyUncleHash then 1 else 2
  let x := max (uncles - ((time.toNat : ℤ) - parent.time.toNat) / 9) (-99)
  let adjusted := max (parent.difficulty + parent.difficulty / BLOCK_DIFF_FACTOR * x)
    MinimumDifficulty
  let fakeBlockNumber : ℤ := if parent.number ≥ bombDelayFromParent then
    parent.number - bombDelayFromParent else 0
  let periodCount := fakeBlockNumber / DIFF_PERIOD
  if periodCount > 1 then adjusted + 2 ^ (periodCount - 2).toNat else adjusted

def difficultyCalculator (L : EthLib) (time : UInt64) (parent : Header) : ℤ :=
  calcDifficulty L BOMB_DELAY time parent

def makeDifficultyCalculator (L : EthLib) (bombDelay : ℤ) (time : UInt64) (parent : Header) : ℤ :=
  calcDifficulty L (bombDelay - 1) time parent

/-- The difficulty that a header must have. -/
def expectedDifficulty (L : EthLib) (parent header : Header) : ℤ :=
  if isArrowGlacier networkId header then
    makeDifficultyCalculator L 10700000 header.time parent
  else if isLondon networkId header then
    makeDifficultyCalculator L 9700000 header.time parent
  else difficultyCalculator L header.time parent

end Forks

section ProofOfWork

variable (L : EthLib)

/-- The caches of the epochs that a call has come across. -/
abbrev Caches := List (UInt64 × List UInt32)

namespace Caches

def cacheKey (epoch : UInt64) : Bytes :=
  concatKey HeaderSyncContractAddress [ETH_CACHE, getUint64Bytes epoch]

variable (items : Caches)

/-- An item that cannot be read counts as none. -/
def tryCache (epoch : UInt64) : NativeM (Option (List UInt32) × Caches) := do
  match items.lookup epoch with
  | some current => return (some current, items)
  | none =>
    let currentStorage ← Native.getCache (cacheKey epoch)
    match currentStorage.bind fun raw => (getValueFromRawStorageItem raw).toOption with
    | none => return (none, items)
    | some buf => return (some (deserialize buf), (epoch, deserialize buf) :: items)

def addCache (epoch : UInt64) (cache : List UInt32) : NativeM Caches := do
  putItem (cacheKey epoch) (serialize cache)
  deleteCache (cacheKey (epoch - 3))
  return (epoch, cache) :: items

def getCache (block : UInt64) : NativeM (List UInt32 × Caches) := do
  let epoch := block / epochLength
  match ← tryCache items epoch with
  | (some current, items) => return (current, items)
  | (none, items) =>
    let first := epoch * epochLength + 1
    let cache := generateCache L.toKeccak (cacheSize first) (seedHash L.toKeccak first)
    let items ← addCache items epoch cache
    return (cache, items)

end Caches

def verifyHeader (header : Header) (caches : Caches) : NativeM Caches := do
  let number := header.number64
  let (cache, caches) ← Caches.getCache L caches number
  failIf (cache.length ≤ 1) (.error "cache of proof-of-work is not generated!")
  let (digest, result) ← lift (hashimoto L.toKeccak (datasetSize number) cache
    (L.hashHeader header).val header.nonce.val)
  failIf (header.mixDigest.val ≠ digest) (.error "invalid mix digest!")
  failIf (header.difficulty = 0) (.panic "division by zero")
  failIf (leNat result.val.reverse > 2 ^ 256 / header.difficulty) (.error "invalid proof-of-work!")
  return caches

end ProofOfWork

variable (C : Crypto) (L : EthLib) (networkId : UInt32) (enableEventLog : Bool)

def syncGenesisHeader : NativeM Unit := do
  let params ← wrapM "ETHHandler SyncGenesisHeader, contract params deserialize error: "
    (lift (decode SyncGenesisHeaderParam.deserialization (← getInput)))
  let operatorAddress ← wrapM
    "ETHHandler SyncGenesisHeader, get current consensus operator address error: "
    (Governance.getCurConOperator C)
  wrapM "ETHHandler SyncGenesisHeader, checkWitness error: " (validateOwner operatorAddress)
  let header ← wrapM "ETHHandler SyncGenesisHeader: getGenesisHeader, deserialize header err: "
    (lift (L.unmarshalHeader params.genesisHeader))
  let headerStore ← getCache (syncKey GENESIS_HEADER params.chainID)
  failIf (headerStore ≠ none)
    (.error "ETHHandler GetHeaderByHeight, genesis header had been initialized")
  putGenesisBlockHeader L enableEventLog header params.chainID

/-- Fifteen seconds after the time `now`. -/
def latestTime (now : ℤ) : UInt64 := UInt64.ofInt (now + 15)

/-- The checks against the parent, which is returned, and against the time `now`. -/
def checkParent (now : ℤ) (chainID : UInt64) (header : Header) (raw : Bytes) :
    NativeM HeaderWithDifficultySum := do
  let parent ← wrapBetween "SyncBlockHeader, get the parent block failed. Error:"
    (", header: " ++ text raw) (getHeaderByHash L header.parentHash.val chainID)
  failIf (header.number64 ≠ parent.header.number64 + 1)
    (.error (s!"SyncBlockHeader, invalid header height:{header.number64} " ++
      s!"parent height:{parent.header.number64}"))
  failIf (L.hash parent.header ≠ header.parentHash)
    (.error ("SyncBlockHeader, parent header is not right. Header: " ++ text raw))
  failIf (header.extra.length > MaximumExtraDataSize)
    (.error (s!"SyncBlockHeader, SyncBlockHeader extra-data too long: {header.extra.length} > " ++
      s!"{MaximumExtraDataSize}, header: " ++ text raw))
  failIf (header.time > latestTime now)
    (.error (s!"SyncBlockHeader,  verify header time error:block in the future, " ++
      s!"checktime: {now + 15}, header: " ++ text raw))
  failIf (header.time ≤ parent.header.time)
    (.error ("SyncBlockHeader, verify header time fail. Header: " ++ text raw))
  failIf (header.gasLimit > 0x7fffffffffffffff)
    (.error (s!"SyncBlockHeader, invalid gasLimit: have {header.gasLimit}, max " ++
      s!"{0x7fffffffffffffff}, header: " ++ text raw))
  failIf (header.gasUsed > header.gasLimit)
    (.error (s!"SyncBlockHeader, invalid gasUsed: have {header.gasUsed}, gasLimit " ++
      s!"{header.gasLimit}, header: " ++ text raw))
  wrapM "SyncBlockHeader, err:" (lift (verifyGas networkId parent.header header))
  let expected := expectedDifficulty networkId L parent.header header
  failIf (expected ≠ header.difficulty)
    (.error (s!"SyncBlockHeader, invalid difficulty: have {header.difficulty}, want " ++
      s!"{expected}, header: " ++ text raw))
  return parent

/-- Put the header, and make it the head of the main chain if it extends it or outweighs it. -/
def storeHeader (chainID : UInt64) (header : Header) (parent : HeaderWithDifficultySum) :
    NativeM Unit := do
  let headerDifficultySum := header.difficulty + parent.difficultySum
  putBlockHeader L enableEventLog header headerDifficultySum chainID
  let current ← wrapM "SyncBlockHeader, get the current block failed. error:"
    (getCurrentHeader L chainID)
  if L.hash current.header = header.parentHash then
    appendHeader2Main enableEventLog header.number64 (L.hash header) chainID
  else if headerDifficultySum > current.difficultySum then
    let _ ← attempt (restructChain L enableEventLog chainID current.header header)

/-- One header of `SyncBlockHeader`; one that is there already is passed over. -/
def syncHeader (now : ℤ) (chainID : UInt64) (raw : Bytes) (caches : Caches) : NativeM Caches := do
  let header ← wrapM "SyncBlockHeader, deserialize header err: " (lift (L.unmarshalHeader raw))
  if ← isHeaderExist chainID (L.hash header) then
    return caches
  else
    let parent ← checkParent L networkId now chainID header raw
    let caches ← wrapBetween "SyncBlockHeader, verify header error: " (", header: " ++ text raw)
      (verifyHeader L header caches)
    storeHeader L enableEventLog chainID header parent
    return caches

/-- The loop of `SyncBlockHeader`; `clock i` is the time at which its `i`-th header is looked at. -/
def syncHeaders (clock : ℕ → ℤ) (chainID : UInt64) : List Bytes → ℕ → Caches → NativeM Unit
  | [], _, _ => return ()
  | raw :: rest, i, caches => do
    let caches ← syncHeader L networkId enableEventLog (clock i) chainID raw caches
    syncHeaders clock chainID rest (i + 1) caches

def syncBlockHeader (clock : ℕ → ℤ) : NativeM Unit := do
  let headerParams ← wrapM "SyncBlockHeader, contract params deserialize error: "
    (lift (decode SyncBlockHeaderParam.deserialization (← getInput)))
  syncHeaders L networkId enableEventLog clock headerParams.chainID headerParams.headers 0 []

end Poly.HeaderSync.Eth
