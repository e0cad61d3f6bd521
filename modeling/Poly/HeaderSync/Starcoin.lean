import Poly.Governance.Peers
import Poly.HeaderSync.Common

/-! The header sync handler of Starcoin: headers whose difficulty is computed from a window of
ancestors, the length of which comes with the header. -/
namespace Poly.HeaderSync.Starcoin

open Lib Native

/-- `uint256.Int`: arithmetic wraps, and a quotient by zero is zero. -/
abbrev U256 := BitVec 256

def MAXU256 : U256 := BitVec.allOnes 256

/-- `SetBytes`: the number of which the bytes are the big-endian digits, of which the last 32
count. -/
def U256.setBytes (b : Bytes) : U256 := BitVec.ofNat 256 (leNat b.reverse)

/-- A header; `rest` are the fields that the handler does not read. -/
structure BlockHeader (R : Type) where
  parentHash : Bytes
  timestamp : UInt64
  number : UInt64
  gasUsed : UInt64
  difficulty : U256
  nonce : UInt32
  extra : Bytes
  rest : R
  deriving DecidableEq

structure BlockInfo (I : Type) where
  totalDifficulty : U256
  rest : I
  deriving DecidableEq

structure BlockHeaderAndBlockInfo (R I : Type) where
  blockHeader : BlockHeader R
  blockInfo : BlockInfo I
  deriving DecidableEq

structure BlockDiffInfo where
  timestamp : UInt64
  target : U256

/-- The client library: the records that JSON texts hold, the types they are turned into with
their hash and their encoding, and the proofs of work. -/
structure StcLib where
  Rest : Type
  InfoRest : Type
  JsonHeader : Type
  JsonInfo : Type
  unmarshalHeaderAndInfo : Bytes → Result (JsonHeader × JsonInfo)
  /-- With the time target and the difficulty window. -/
  unmarshalWithDifficulty : Bytes → Result (JsonHeader × JsonInfo × UInt64 × UInt64)
  toTypesHeader : JsonHeader → Result (BlockHeader Rest)
  toTypesBlockInfo : JsonInfo → Result (BlockInfo InfoRest)
  getHash : BlockHeader Rest → Result Bytes
  toHeaderBlob : BlockHeader Rest → Result Bytes
  bcsSerialize : BlockHeaderAndBlockInfo Rest InfoRest → Result Bytes
  bcsDeserialize : Bytes → Result (BlockHeaderAndBlockInfo Rest InfoRest)
  bytesToHexString : Bytes → Bytes
  cryptonight : U256 → U256 → Bytes → UInt32 → Bytes → Result Bool
  argon : U256 → U256 → Bytes → UInt32 → Bytes → Result Bool
  argon2Hash : Bytes → Result Bytes

/-- A header with its block info. -/
abbrev StcLib.Block (L : StcLib) : Type := BlockHeaderAndBlockInfo L.Rest L.InfoRest

/-- A header as it is submitted. -/
structure Submission (L : StcLib) where
  header : L.Block
  timeTarget : UInt64
  difficultyWindow : UInt64

def MAINNET_CHAIN_ID : UInt64 := 0

def TESTNET_CHAIN_ID : UInt64 := 0x7fffffffffffffff

def getChainIdByNetId (id : UInt32) : UInt64 :=
  if id = 1 then MAINNET_CHAIN_ID else if id = 2 then TESTNET_CHAIN_ID else id.toUInt64

/-- Of `params`. -/
def MaximumExtraDataSize : ℕ := 32

section Storage

variable (L : StcLib) (enableEventLog : Bool)

def putBlockHeader (blockHeader : L.Block) (chainID : UInt64) : NativeM Unit := do
  let storeBytes ← lift (L.bcsSerialize blockHeader)
  let headerHash ← lift (L.getHash blockHeader.blockHeader)
  putItem (syncKeyAt HEADER_INDEX chainID headerHash) storeBytes
  notifyPutHeader enableEventLog chainID blockHeader.blockHeader.number
    (L.bytesToHexString headerHash)

def putGenesisBlockHeader (blockHeader : L.Block) (chainID : UInt64) : NativeM Unit := do
  let storeBytes ← lift (L.bcsSerialize blockHeader)
  let headerHash ← lift (L.getHash blockHeader.blockHeader)
  let heightBytes := getUint64Bytes blockHeader.blockHeader.number
  putItem (syncKey GENESIS_HEADER chainID) storeBytes
  putItem (syncKeyAt HEADER_INDEX chainID headerHash) storeBytes
  putItem (syncKeyAt MAIN_CHAIN chainID heightBytes) headerHash
  putItem (syncKey CURRENT_HEADER_HEIGHT chainID) heightBytes
  notifyPutHeader enableEventLog chainID blockHeader.blockHeader.number
    (L.bytesToHexString headerHash)

variable (chainID : UInt64)

def getGenesisBlockHeader : NativeM L.Block := do
  let storeBytes ← getItem (syncKey GENESIS_HEADER chainID)
    (.error "GetGenesisBlockHeader, can not find any header records")
    "GetGenesisBlockHeader, deserialize headerBytes from raw storage item err:"
  wrapM "GetGenesisBlockHeader, deserialize header error: " (lift (L.bcsDeserialize storeBytes))

def getCurrentHeaderHeight : NativeM UInt64 := do
  let heightBytes ← getItem (syncKey CURRENT_HEADER_HEIGHT chainID)
    (.error "getPrevHeaderHeight, heightStore is nil")
    "GetHeaderByHeight, deserialize headerBytes from raw storage item err:"
  return getBytesUint64 heightBytes

def isHeaderExist (hash : Bytes) (chainID : UInt64) : NativeM Bool := do
  return (← getCache (syncKeyAt HEADER_INDEX chainID hash)).isSome

def getHeaderByHash (hash : Bytes) (chainID : UInt64) : NativeM L.Block := do
  let storeBytes ← getItem (syncKeyAt HEADER_INDEX chainID hash)
    (.error "GetHeaderByHash, can not find any header records")
    "GetHeaderByHash, deserialize headerBytes from raw storage item err:"
  wrapM "GetHeaderByHash, deserialize header error: " (lift (L.bcsDeserialize storeBytes))

def getHeaderByHeight (height chainID : UInt64) : NativeM L.Block := do
  let latestHeight ← getCurrentHeaderHeight chainID
  failIf (height > latestHeight) (.error "GetHeaderByHeight, height is too big")
  let hashBytes ← getItem (syncKeyAt MAIN_CHAIN chainID (getUint64Bytes height))
    (.error s!"GetHeaderByHeight, can not find any header records, height: {height}")
    "GetHeaderByHeight, deserialize headerBytes from raw storage item err:"
  getHeaderByHash L hashBytes chainID

def getCurrentHeader : NativeM L.Block := do
  let height ← getCurrentHeaderHeight chainID
  getHeaderByHeight L height chainID

def appendHeader2Main (height : UInt64) (txhash : Bytes) (chainID : UInt64) : NativeM Unit := do
  putItem (syncKeyAt MAIN_CHAIN chainID (getUint64Bytes height)) txhash
  putItem (syncKey CURRENT_HEADER_HEIGHT chainID) (getUint64Bytes height)
  notifyPutHeader enableEventLog chainID height (L.bytesToHexString txhash)

end Storage

section MainChain

variable (L : StcLib) (enableEventLog : Bool) (chainID : UInt64)

/-- The parent of a header of the new branch. Where there is none, the text of the error reads a
field of the missing header. -/
def parentOnBranch (new : L.Block) : NativeM L.Block := fun s =>
  match (getHeaderByHash L new.blockHeader.parentHash chainID).run s with
  | .error (.error _) => .error (.panic "nil pointer dereference")
  | r => r

/-- The hashes of some headers of the new branch, from its head down, and the header below them. -/
def climb : ℕ → L.Block → NativeM (List Bytes × L.Block)
  | 0, new => return ([], new)
  | n + 1, new => do
    let newHash ← lift (L.getHash new.blockHeader)
    let parent ← parentOnBranch L chainID new
    let (newHashes, bottom) ← climb n parent
    return (newHash :: newHashes, bottom)

/-- Both branches at one height, followed down until their parents agree. The steps given are
enough unless the greatest height of all is recorded as the current one. -/
def meet : ℕ → L.Block → L.Block → UInt64 → NativeM (List Bytes × L.Block × UInt64)
  | 0, _, _, _ => throw (.panic "loop without end")
  | n + 1, current, new, height => do
    if current.blockHeader.parentHash = new.blockHeader.parentHash then
      return ([], new, height)
    else
      let newHash ← lift (L.getHash new.blockHeader)
      let parent ← parentOnBranch L chainID new
      let current ← wrapM s!"ReStructChain GetHeaderByHeight height:{height - 1} error:"
        (getHeaderByHeight L (height - 1) chainID)
      let (newHashes, bottom, height) ← meet n current parent (height - 1)
      return (newHash :: newHashes, bottom, height)

/-- The hashes of a branch into the main chain, from the lowest. -/
def appendBranch : List Bytes → UInt64 → NativeM Unit
  | [], _ => return ()
  | hash :: rest, height => do
    appendHeader2Main L enableEventLog height hash chainID
    appendBranch rest (height + 1)

/-- The header of the main chain not above the new one, with its height. -/
def alignCurrent (current new : L.Block) : NativeM (L.Block × UInt64) := do
  let ti := new.blockHeader.number
  if current.blockHeader.number > ti then
    let lower ← wrapM s!"ReStructChain GetHeaderByHeight height:{ti} error:"
      (getHeaderByHeight L ti chainID)
    return (lower, ti)
  else
    return (current, current.blockHeader.number)

def reStructChain (current new : L.Block) : NativeM Unit := do
  let ti := new.blockHeader.number
  let (current, si) ← alignCurrent L chainID current new
  let (above, new) ← climb L chainID (ti.toNat - si.toNat) new
  let (below, new, height) ← meet L chainID (si.toNat + 2) current new si
  let newHash ← lift (L.getHash new.blockHeader)
  appendBranch L enableEventLog chainID (above ++ below ++ [newHash]).reverse height

end MainChain

section Difficulty

variable (L : StcLib) (networkId : UInt32)

/-- `big.Int` refuses to divide by zero. -/
def targetToDiff (target : U256) : Result U256 := do
  failIf (target = 0) (.panic "division by zero")
  return MAXU256 / target

def verifyTotalDifficulty (header parentHeader : L.Block) : Result Unit :=
  let total := header.blockInfo.totalDifficulty
  let parentTotal := parentHeader.blockInfo.totalDifficulty
  let difficulty := header.blockHeader.difficulty
  failIf (total ≠ parentTotal + difficulty) (.error (s!"verifyTotalDifficulty error. " ++
    s!"blockTotalDifficulty:{total.toNat}, parentTotalDifficulty:{parentTotal.toNat}, " ++
    s!"headerDifficulty:{difficulty.toNat}"))

/-- The ancestors that the loop visits, from the parent down. -/
def lastDifficulties (chainID : UInt64) : ℕ → UInt64 → Bytes → NativeM (List BlockDiffInfo)
  | 0, _, _ => return []
  | n + 1, height, hash => do
    let hdr ← wrapBetween "difficultyCalculator, get header error: "
      (s!", height: {height}, hash: " ++ toHex hash) (getHeaderByHash L hash chainID)
    let target ← lift (targetToDiff hdr.blockHeader.difficulty)
    let rest ← lastDifficulties chainID n (height - 1) hdr.blockHeader.parentHash
    return ⟨hdr.blockHeader.timestamp, target⟩ :: rest

variable (blocks : List BlockDiffInfo)

/-- The average time of a block, over the times from each block to the latest. -/
def averageTime : UInt64 :=
  match blocks with
  | [] | [_] => 1
  | [latest, before] =>
    if latest.timestamp - before.timestamp = 0 then 1 else latest.timestamp - before.timestamp
  | latest :: earlier =>
    let totalBlockTime := earlier.foldl (fun t b => t + (latest.timestamp - b.timestamp)) 0
    let vblocks := (List.range blocks.length).sum
    let avgTime := totalBlockTime / UInt64.ofNat vblocks
    if avgTime = 0 then 1 else avgTime

/-- The target comes with the error where there is one. -/
def getNextTarget (timePlan : UInt64) : U256 × Option String :=
  match blocks with
  | [] => (0, some "get next target blocks is null.")
  | [block] => (block.target, none)
  | blocks =>
    let totalTarget := (blocks.map fun b => b.target.toNat).sum
    if totalTarget ≥ 2 ^ 256 then
      (0, some s!"get next target, total target overflow: {totalTarget}.")
    else
      let avgTarget : U256 := BitVec.ofNat 256 totalTarget / BitVec.ofNat 256 blocks.length
      let avgTime : U256 := BitVec.ofNat 256 (averageTime blocks).toNat
      let quotient : U256 := avgTarget / BitVec.ofNat 256 timePlan.toNat
      let nextTarget := quotient * avgTime
      if quotient.toNat * avgTime.toNat ≥ 2 ^ 256 then
        (nextTarget, some (s!"get next target, next target overflow: avgTimeU256: " ++
          s!"{avgTime.toNat}, nextTarget: {nextTarget.toNat}, avgTimeU256: {avgTime.toNat} ."))
      else if nextTarget / 2 > avgTarget then (avgTarget * 2, none)
      else if nextTarget < avgTarget / 2 then (avgTarget / 2, none)
      else (nextTarget, none)

/-- The quotient is taken before the error is looked at. -/
def difficultyCalculator (blockHeader : BlockHeader L.Rest) (chainID timeTarget difficultyWindow :
    UInt64) : NativeM U256 := do
  let start := blockHeader.number - 1
  let stop := blockHeader.number - difficultyWindow - 1
  let blocks ← lastDifficulties L chainID (start.toNat - stop.toNat) start blockHeader.parentHash
  let (nextTarget, err) := getNextTarget blocks timeTarget
  let expected ← lift (targetToDiff nextTarget)
  match err with
  | some msg => throw (.error msg)
  | none => return expected

/-- The nonce and the extra bytes in their place of a header blob. -/
def setHeaderNonce (header : Bytes) (nonce : UInt32) (extra : Bytes) : Result Bytes := do
  failIf (header.length ≠ 76) (.error ("set header nonce failure, header: " ++ toHex header))
  failIf (extra.length ≠ 4) (.error ("set header nonce failure, extra: " ++ toHex extra))
  return header.take 35 ++ extra ++ leBytes 4 nonce.toNat ++ header.drop 43

def oldArgonConsensus (difficulty headerDifficulty : U256) (headerBlob : Bytes) (nonce : UInt32)
    (extra : Bytes) : Result Bool := do
  failIf (difficulty ≠ headerDifficulty) (.error (s!"verify header difficulty failure, " ++
    s!"difficulty: {difficulty.toNat}, headerDifficulty: {headerDifficulty.toNat}"))
  let powHash ← L.argon2Hash (← setHeaderNonce headerBlob nonce extra)
  let powValue := U256.setBytes powHash
  let target ← targetToDiff difficulty
  failIf (powValue > target) (.error (s!"verify header difficulty failure, " ++
    s!"powValue: {powValue.toNat}, target: {target.toNat}"))
  return true

/-- The proof of work in force for a header at a height of this chain, with its name. -/
def consensusAt (currentBlockHeight : UInt32) (number : UInt64) :
    String × (U256 → U256 → Bytes → UInt32 → Bytes → Result Bool) :=
  if number ≥ 5061625 ∧ currentBlockHeight < 35472330 ∧
      TESTNET_CHAIN_ID = getChainIdByNetId networkId then
    ("oldArgonConsensus", oldArgonConsensus L)
  else if number ≥ 5061625 ∧ currentBlockHeight ≥ 35472330 ∧
      TESTNET_CHAIN_ID = getChainIdByNetId networkId then
    ("argonConsensus", L.argon)
  else
    ("cryptonightConsensus", L.cryptonight)

def verifyHeaderDifficulty (expected : U256) (header : BlockHeader L.Rest) : NativeM Unit := do
  let s ← get
  let hb ← wrapM "verifyHeaderDifficulty, header.ToHeaderBlob error: " (lift (L.toHeaderBlob header))
  let (name, consensus) := consensusAt L networkId s.height header.number
  let ok ← wrapM (s!"verifyHeaderDifficulty, {name}.VerifyHeaderDifficulty error. " ++
      s!"Header.number: {header.number}, expectedDifficulty: {expected.toNat}, error: ")
    (lift (consensus expected header.difficulty hb header.nonce header.extra))
  failIf (ok = false)
    (.error "verifyHeaderDifficulty, consensus.VerifyHeaderDifficulty failed: ")

end Difficulty

variable (C : Crypto) (L : StcLib) (networkId : UInt32) (enableEventLog : Bool)

def syncGenesisHeader : NativeM Unit := do
  let params ← wrapM "StarcoinHandler SyncGenesisHeader, contract params deserialize error: "
    (lift (decode SyncGenesisHeaderParam.deserialization (← getInput)))
  let operatorAddress ← wrapM
    "StarcoinHandler SyncGenesisHeader, get current consensus operator address error: "
    (Governance.getCurConOperator C)
  wrapM "StarcoinHandler SyncGenesisHeader, checkWitness error: " (validateOwner operatorAddress)
  let (jsonHeader, jsonInfo) ← wrapM
    "StarcoinHandler SyncGenesisHeader: getGenesisHeader, deserialize header err: "
    (lift (L.unmarshalHeaderAndInfo params.genesisHeader))
  let headerStore ← getCache (syncKey GENESIS_HEADER params.chainID)
  failIf (headerStore ≠ none)
    (.error "STCHandler GetHeaderByHeight, genesis header had been initialized")
  let blockInfo ← wrapM "SyncGenesisHeader, block info parse error: "
    (lift (L.toTypesBlockInfo jsonInfo))
  -- the error of the conversion is not looked at before its result is read
  match L.toTypesHeader jsonHeader with
  | .error _ => throw (.panic "nil pointer dereference")
  | .ok header =>
    wrapM "STCHandler SyncGenesisHeader, put blockHeader error: "
      (putGenesisBlockHeader L enableEventLog ⟨header, blockInfo⟩ params.chainID)

/-- What a submitted text says. -/
def parseHeader (raw : Bytes) : Result (Submission L) := do
  let (jsonHeader, jsonInfo, timeTarget, difficultyWindow) ←
    wrapError "SyncBlockHeader, deserialize header err: " (L.unmarshalWithDifficulty raw)
  let hdr ← wrapError "SyncBlockHeader, to types.BlockHeader err: " (L.toTypesHeader jsonHeader)
  let blkInfo ← wrapError "SyncBlockHeader, to types.BlockInfo err: "
    (L.toTypesBlockInfo jsonInfo)
  return ⟨⟨hdr, blkInfo⟩, timeTarget, difficultyWindow⟩

/-- Thirty seconds after the time `now`, in milliseconds. -/
def latestTimestamp (now : ℤ) : UInt64 := UInt64.ofInt ((now + 30) * 1000)

/-- The checks against the parent, which is returned, and against the time `now`. -/
def checkParent (now : ℤ) (chainID : UInt64) (header : L.Block) (raw : Bytes) :
    NativeM L.Block := do
  let hdr := header.blockHeader
  let parentHeader ← wrapBetween "SyncBlockHeader, get the parent block failed. Error:"
    (", header: " ++ text raw) (getHeaderByHash L hdr.parentHash chainID)
  let parent := parentHeader.blockHeader
  failIf (hdr.number ≠ parent.number + 1) (.error (s!"SyncBlockHeader, the parent block number: " ++
    s!"{parent.number}, header number: {hdr.number}"))
  lift (verifyTotalDifficulty L header parentHeader)
  let parentHeaderHash ← wrapBetween
    "SyncBlockHeader, get the parent block header hash failed. Error:" (", header: " ++ text raw)
    (lift (L.getHash parent))
  failIf (parentHeaderHash ≠ hdr.parentHash)
    (.error ("SyncBlockHeader, parent header is not right. Header: " ++ text raw))
  failIf (hdr.extra.length > MaximumExtraDataSize)
    (.error (s!"SyncBlockHeader, SyncBlockHeader extra-data too long: {hdr.extra.length} > " ++
      s!"{MaximumExtraDataSize}, header: " ++ text raw))
  failIf (hdr.timestamp > latestTimestamp now)
    (.error (s!"SyncBlockHeader,  verify header time error: checktime: {now + 30}, header: " ++
      text raw))
  failIf (hdr.timestamp ≤ parent.timestamp)
    (.error (s!"SyncBlockHeader, verify header time fail. parent: {parent.timestamp}, Header: " ++
      text raw))
  failIf (hdr.gasUsed > 0x7fffffffffffffff)
    (.error (s!"SyncBlockHeader, invalid gasuseed: have {hdr.gasUsed}, max " ++
      s!"{0x7fffffffffffffff}, header: " ++ text raw))
  return parentHeader

/-- The difficulty is only looked at as far from the genesis header as the window is long. -/
def checkDifficulty (chainID : UInt64) (genesisHeader : L.Block) (sub : Submission L)
    (raw : Bytes) : NativeM Unit := do
  let hdr := sub.header.blockHeader
  if hdr.number - genesisHeader.blockHeader.number ≥ sub.difficultyWindow then
    let expected ← wrapBetween "difficulty calculator error: " (", header: " ++ text raw)
      (difficultyCalculator L hdr chainID sub.timeTarget sub.difficultyWindow)
    verifyHeaderDifficulty L networkId expected hdr

/-- Put the header, and make it the head of the main chain if it extends it or outweighs it. -/
def storeHeader (chainID : UInt64) (header parentHeader : L.Block) (headerHash : Bytes) :
    NativeM Unit := do
  putBlockHeader L enableEventLog header chainID
  let currentHeader ← wrapM "SyncBlockHeader, get the current block failed. error:"
    (getCurrentHeader L chainID)
  let currentHeaderHash ← lift (L.getHash currentHeader.blockHeader)
  if currentHeaderHash = header.blockHeader.parentHash then
    appendHeader2Main L enableEventLog header.blockHeader.number headerHash chainID
  else if parentHeader.blockInfo.totalDifficulty + header.blockHeader.difficulty >
      currentHeader.blockInfo.totalDifficulty then
    let _ ← attempt (reStructChain L enableEventLog chainID currentHeader header)

/-- One header of `SyncBlockHeader`; one that is there already is passed over. -/
def syncHeader (now : ℤ) (chainID : UInt64) (genesisHeader : L.Block) (raw : Bytes) :
    NativeM Unit := do
  let sub ← lift (parseHeader L raw)
  let headerHash ← wrapM "SyncBlockHeader, get header hash err: "
    (lift (L.getHash sub.header.blockHeader))
  if ← isHeaderExist headerHash chainID then
    return ()
  else
    let parentHeader ← checkParent L now chainID sub.header raw
    checkDifficulty L networkId chainID genesisHeader sub raw
    storeHeader L enableEventLog chainID sub.header parentHeader headerHash

/-- The loop of `SyncBlockHeader`; `clock i` is the time at which its `i`-th header is looked at. -/
def syncHeaders (clock : ℕ → ℤ) (chainID : UInt64) (genesisHeader : L.Block) :
    List Bytes → ℕ → NativeM Unit
  | [], _ => return ()
  | raw :: rest, i => do
    syncHeader L networkId enableEventLog (clock i) chainID genesisHeader raw
    syncHeaders clock chainID genesisHeader rest (i + 1)

/-- `SyncBlockHeader` once the parameters are read. -/
def syncParams (clock : ℕ → ℤ) (headerParams : SyncBlockHeaderParam) : NativeM Unit := do
  let genesisHeader ← wrapM "SyncBlockHeader,get genesis header error: "
    (getGenesisBlockHeader L headerParams.chainID)
  syncHeaders L networkId enableEventLog clock headerParams.chainID genesisHeader
    headerParams.headers 0

def syncBlockHeader (clock : ℕ → ℤ) : NativeM Unit := do
  let headerParams ← wrapM "SyncBlockHeader, contract params deserialize error: "
    (lift (decode SyncBlockHeaderParam.deserialization (← getInput)))
  syncParams L networkId enableEventLog clock headerParams

end Poly.HeaderSync.Starcoin
