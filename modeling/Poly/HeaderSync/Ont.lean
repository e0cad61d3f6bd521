import Poly.Governance.Peers
import Poly.HeaderSync.Common
import Poly.Ledger.VerifyHeader

/-! The header sync handler of Ontology: headers and cross-chain messages signed by the consensus
peers of an epoch. -/
namespace Poly.HeaderSync

open Lib Native Source Sink
open Ledger (VbftBlockInfo pubkeyID)

namespace Ont

structure Peer where
  index : UInt32
  peerPubkey : Bytes
  deriving DecidableEq

structure ConsensusPeers where
  chainID : UInt64
  height : UInt32
  peerMap : OrderedMap Bytes Peer
  deriving DecidableEq

abbrev KeyHeights := List UInt32

def Peer.serialization (p : Peer) : Bytes := writeUint32 p.index ++ writeVarBytes p.peerPubkey

def Peer.deserialization : Reader Failure Peer := do
  let index ← nextUint32 (.error "utils.DecodeVarUint, deserialize index error")
  let peerPubkey ← nextVarBytes (.error "utils.DecodeString, deserialize peerPubkey error")
  return ⟨index, peerPubkey⟩

/-- From the highest to the lowest. -/
def KeyHeights.serialization (heightList : KeyHeights) : Bytes :=
  let sorted := heightList.mergeSort fun a b => decide (b ≤ a)
  writeVarUint (UInt64.ofNat sorted.length) ++ sorted.flatMap writeUint32

def KeyHeights.deserialization : Reader Failure KeyHeights := do
  let n ← nextVarUint (.error "utils.DecodeVarUint, deserialize HeightList length error")
  Reader.replicate (nextUint32 (.error "utils.DecodeVarUint, deserialize height error")) n.toNat

/-- The map is keyed by the public keys that its peers are sorted by. -/
def ConsensusPeers.serialization (c : ConsensusPeers) : Bytes :=
  writeUint64 c.chainID ++ writeUint32 c.height ++ writeVarUint (UInt64.ofNat c.peerMap.size) ++
    c.peerMap.entries.reverse.flatMap fun x => x.2.serialization

def ConsensusPeers.deserialization : Reader Failure ConsensusPeers := do
  let chainID ← nextUint64 (.error "utils.DecodeVarUint, deserialize chainID error")
  let height ← nextUint32 (.error "utils.DecodeVarUint, deserialize height error")
  let n ← nextVarUint (.error "utils.DecodeVarUint, deserialize HeightList length error")
  let peers ← Reader.replicate Peer.deserialization n.toNat
  return ⟨chainID, height, peers.foldl (fun m p => m.insert p.peerPubkey p) OrderedMap.empty⟩

/-- A message with its signatures, which its hash does not cover. -/
structure CrossChainMsg (U : Type) where
  unsigned : U
  sigData : List Bytes

/-- A header with its bookkeepers and their signatures, which its hash does not cover. -/
structure OntHeader (U P : Type) where
  unsigned : U
  bookkeepers : List P
  sigData : List Bytes

/-- The types of Ontology, over the public keys `P`, and the JSON of the consensus payload. -/
structure OntLib (P : Type) where
  UnsignedMsg : Type
  msgHeight : UnsignedMsg → UInt32
  msgHash : UnsignedMsg → Uint256
  nextMsg : Reader Failure (CrossChainMsg UnsignedMsg)
  msgBytes : CrossChainMsg UnsignedMsg → Bytes
  UnsignedHeader : Type
  height : UnsignedHeader → UInt32
  hash : UnsignedHeader → Uint256
  headerFromRawBytes : Bytes → Result (OntHeader UnsignedHeader P)
  headerBytes : OntHeader UnsignedHeader P → Bytes
  unmarshalBlockInfo : UnsignedHeader → Result VbftBlockInfo

section Storage

def getKeyHeights (chainID : UInt64) : NativeM KeyHeights := do
  match ← getCache (syncKey KEY_HEIGHTS chainID) with
  | none => return []
  | some value =>
    let keyHeightsBytes ← wrapM "GetKeyHeights, deserialize from raw storage item err:"
      (lift (getValueFromRawStorageItem value))
    wrapM "GetKeyHeights, deserialize keyHeights err:"
      (lift (decode KeyHeights.deserialization keyHeightsBytes))

def putKeyHeights (chainID : UInt64) (keyHeights : KeyHeights) : NativeM Unit :=
  putItem (syncKey KEY_HEIGHTS chainID) keyHeights.serialization

/-- The first of the heights that is lower. -/
def findKeyHeight (height : UInt32) (chainID : UInt64) : NativeM UInt32 := do
  let keyHeights ← wrapM "findKeyHeight, GetKeyHeights error: " (getKeyHeights chainID)
  orFail (keyHeights.find? fun v => decide (height > v))
    (.error s!"findKeyHeight, can not find key height with height {height}")

def getConsensusPeersByHeight (chainID : UInt64) (height : UInt32) : NativeM ConsensusPeers := do
  let consensusPeerBytes ← getItem (syncKeyAt CONSENSUS_PEER chainID (getUint32Bytes height))
    (.error "getConsensusPeerByHeight, can not find any record")
    "getConsensusPeerByHeight, deserialize from raw storage item err:"
  wrapM "getConsensusPeerByHeight, deserialize consensusPeer error: "
    (lift (decode ConsensusPeers.deserialization consensusPeerBytes))

def putConsensusPeers (consensusPeers : ConsensusPeers) : NativeM Unit := do
  let chainID := consensusPeers.chainID
  let heightBytes := getUint32Bytes consensusPeers.height
  let s ← get
  putItem (syncKeyAt CONSENSUS_PEER chainID heightBytes) consensusPeers.serialization
  putItem (syncKeyAt CONSENSUS_PEER_BLOCK_HEIGHT chainID heightBytes) (getUint32Bytes s.height)
  let keyHeights ← wrapM "putConsensusPeer, GetKeyHeights error: " (getKeyHeights chainID)
  putKeyHeights chainID (keyHeights ++ [consensusPeers.height])

variable {P : Type} (L : OntLib P) (enableEventLog : Bool)

def updateConsensusPeer (chainID : UInt64) (header : OntHeader L.UnsignedHeader P) :
    NativeM Unit := do
  let blkInfo ← wrapM "updateConsensusPeer, unmarshal blockInfo error: "
    (lift (L.unmarshalBlockInfo header.unsigned))
  match blkInfo.newChainConfig with
  | none => return ()
  | some peers =>
    let peerMap := peers.foldl (fun m p => m.insert p.id ⟨p.index, p.id⟩) OrderedMap.empty
    wrapM "updateConsensusPeer, put ConsensusPeer error: "
      (putConsensusPeers ⟨chainID, L.height header.unsigned, peerMap⟩)

def putBlockHeader (chainID : UInt64) (header : OntHeader L.UnsignedHeader P) : NativeM Unit := do
  let height := L.height header.unsigned
  let blockHash := L.hash header.unsigned
  putItem (syncKeyAt BLOCK_HEADER chainID blockHash.val) (L.headerBytes header)
  putItem (syncKeyAt HEADER_INDEX chainID (getUint32Bytes height)) blockHash.val
  putItem (syncKey CURRENT_HEADER_HEIGHT chainID) (getUint32Bytes height)
  notifyPutHeader enableEventLog chainID (UInt64.ofNat height.toNat)
    (hexEncode blockHash.val.reverse)

def getHeaderByHeight (chainID : UInt64) (height : UInt32) :
    NativeM (OntHeader L.UnsignedHeader P) := do
  let blockHashBytes ← getItem (syncKeyAt HEADER_INDEX chainID (getUint32Bytes height))
    (.error "GetHeaderByHeight, can not find any index records")
    "GetHeaderByHeight, deserialize blockHashBytes from raw storage item err:"
  let headerBytes ← getItem (syncKeyAt BLOCK_HEADER chainID blockHashBytes)
    (.error "GetHeaderByHeight, can not find any header records")
    "GetHeaderByHeight, deserialize headerBytes from raw storage item err:"
  wrapM "GetHeaderByHeight, deserialize header error: " (lift (L.headerFromRawBytes headerBytes))

def putCrossChainMsg (chainID : UInt64) (msg : CrossChainMsg L.UnsignedMsg) : NativeM Unit := do
  let heightBytes := getUint32Bytes (L.msgHeight msg.unsigned)
  putItem (syncKeyAt CROSS_CHAIN_MSG chainID heightBytes) (L.msgBytes msg)
  putItem (syncKey CURRENT_MSG_HEIGHT chainID) heightBytes
  notifyPutCrossChainMsg enableEventLog chainID (L.msgHeight msg.unsigned)

def getCrossChainMsg (chainID : UInt64) (height : UInt32) :
    NativeM (CrossChainMsg L.UnsignedMsg) := do
  let msgBytes ← getItem (syncKeyAt CROSS_CHAIN_MSG chainID (getUint32Bytes height))
    (.error "GetCrossChainMsg, can not find any header records")
    "GetCrossChainMsg, deserialize headerBytes from raw storage item err:"
  wrapM "GetCrossChainMsg, deserialize header error: " (lift (decode L.nextMsg msgBytes))

end Storage

section Verify

variable (K : Keys) (L : OntLib K.PublicKey)

/-- The loop over the bookkeepers of a message: each of them is a consensus peer. -/
def checkPresent (peerMap : OrderedMap Bytes Peer) : List K.PublicKey → Result Unit
  | [] => .ok ()
  | bookkeeper :: rest => do
    let pubkey := pubkeyID K bookkeeper
    failIf (peerMap.get pubkey = none)
      (.error ("verifyCrossChainMsg, invalid pubkey error:" ++ text pubkey))
    checkPresent peerMap rest

/-- The loop over the bookkeepers of a header, which also refuses one that was there before. -/
def checkUnused (peerMap : OrderedMap Bytes Peer) : List K.PublicKey → List Bytes → Result Unit
  | [], _ => .ok ()
  | bookkeeper :: rest, usedPubKey => do
    let pubkey := pubkeyID K bookkeeper
    failIf (peerMap.get pubkey = none ∨ pubkey ∈ usedPubKey)
      (.error ("verifyHeader, invalid pubkey error:" ++ text pubkey))
    checkUnused peerMap rest (pubkey :: usedPubKey)

def verifyCrossChainMsg (chainID : UInt64) (msg : CrossChainMsg L.UnsignedMsg)
    (bookkeepers : List K.PublicKey) : NativeM Unit := do
  let height := L.msgHeight msg.unsigned
  let keyHeight ← wrapM "verifyCrossChainMsg, findKeyHeight error:" (findKeyHeight height chainID)
  let consensusPeer ← wrapM "verifyCrossChainMsg, get ConsensusPeer error:"
    (getConsensusPeersByHeight chainID keyHeight)
  let num := bookkeepers.length
  let peers := consensusPeer.peerMap.size
  failIf (num * 3 < peers) (.error (s!"verifyCrossChainMsg, header Bookkeepers num {num}" ++
    s!" must more than 2/3 consensus node num {peers}"))
  lift (checkPresent K consensusPeer.peerMap bookkeepers)
  wrapM "verifyCrossChainMsg, VerifyMultiSignature error:"
    (lift (verifyMultiSignature K (L.msgHash msg.unsigned).val bookkeepers num msg.sigData))

def verifyHeader (chainID : UInt64) (header : OntHeader L.UnsignedHeader K.PublicKey) :
    NativeM Unit := do
  let height := L.height header.unsigned
  let keyHeight ← wrapM "verifyHeader, findKeyHeight error:" (findKeyHeight height chainID)
  let consensusPeer ← wrapM "verifyHeader, get ConsensusPeer error:"
    (getConsensusPeersByHeight chainID keyHeight)
  let num := header.bookkeepers.length
  let peers := consensusPeer.peerMap.size
  failIf (num * 3 < peers) (.error (s!"verifyHeader, header Bookkeepers num {num}" ++
    s!" must more than 2/3 consensus node num {peers}"))
  lift (checkUnused K consensusPeer.peerMap header.bookkeepers [])
  wrapM "verifyHeader, VerifyMultiSignature error:"
    (lift (verifyMultiSignature K (L.hash header.unsigned).val header.bookkeepers num
      header.sigData))

end Verify

variable (C : Crypto) (L : OntLib C.keys.PublicKey) (enableEventLog : Bool)

def syncGenesisHeader : NativeM Unit := do
  let params ← wrapM "ONTHandler SyncGenesisHeader, contract params deserialize error: "
    (lift (decode SyncGenesisHeaderParam.deserialization (← getInput)))
  let operatorAddress ← wrapM
    "ONTHandler SyncGenesisHeader, get current consensus operator address error: "
    (Governance.getCurConOperator C)
  wrapM "ONTHandler SyncGenesisHeader, checkWitness error: " (validateOwner operatorAddress)
  let header ← wrapM "ONTHandler SyncGenesisHeader, deserialize header err: "
    (lift (L.headerFromRawBytes params.genesisHeader))
  wrapM "ONTHandler SyncGenesisHeader, put blockHeader error: "
    (putBlockHeader L enableEventLog params.chainID header)
  wrapM "SyncGenesisHeader, update ConsensusPeer error: "
    (updateConsensusPeer L params.chainID header)

/-- One header of `SyncBlockHeader`; a height that is there already is passed over. -/
def syncHeader (chainID : UInt64) (raw : Bytes) : NativeM Unit := do
  let header ← wrapM "SyncBlockHeader, otypes.HeaderFromRawBytes error: "
    (lift (L.headerFromRawBytes raw))
  match ← attempt (getHeaderByHeight L chainID (L.height header.unsigned)) with
  | some _ => return ()
  | none =>
    wrapM "SyncBlockHeader, verifyHeader error: " (verifyHeader C.keys L chainID header)
    wrapM "SyncBlockHeader, put BlockHeader error: "
      (putBlockHeader L enableEventLog chainID header)
    wrapM "SyncBlockHeader, update ConsensusPeer error: " (updateConsensusPeer L chainID header)

def syncBlockHeader : NativeM Unit := do
  let params ← wrapM "SyncBlockHeader, contract params deserialize error: "
    (lift (decode SyncBlockHeaderParam.deserialization (← getInput)))
  params.headers.forM (syncHeader C L enableEventLog params.chainID)

/-- A message is followed by its bookkeepers. -/
def nextSignedMsg : Reader Failure (CrossChainMsg L.UnsignedMsg × List C.keys.PublicKey) := do
  let msg ← L.nextMsg
  let n ← nextVarUint (.error "SyncCrossChainMsg, deserialization bookkeeper length error")
  let bookkeepers ← Reader.replicate
    (nextPublicKey C.keys (.error "SyncCrossChainMsg, deserialization bookkeeper error")) n.toNat
  return (msg, bookkeepers)

def syncMsg (chainID : UInt64) (raw : Bytes) : NativeM Unit := do
  let (msg, bookkeepers) ← lift (decode (nextSignedMsg C L) raw)
  match ← attempt (getCrossChainMsg L chainID (L.msgHeight msg.unsigned)) with
  | some _ => return ()
  | none =>
    wrapM "SyncCrossChainMsg, VerifyCrossChainMsg error: "
      (verifyCrossChainMsg C.keys L chainID msg bookkeepers)
    wrapM "SyncCrossChainMsg, put PutCrossChainMsg error: "
      (putCrossChainMsg L enableEventLog chainID msg)

def syncCrossChainMsg : NativeM Unit := do
  let params ← wrapM "SyncCrossChainMsg, contract params deserialize error: "
    (lift (decode SyncCrossChainMsgParam.deserialization (← getInput)))
  params.crossChainMsgs.forM (syncMsg C L enableEventLog params.chainID)

end Ont

end Poly.HeaderSync
