import Poly.Native.Utils

/-! The stored state of the node manager contract: peer pools, the governance view, the
configuration, the candidate index and the signs of the consensus nodes. -/
namespace Poly.Governance

open Lib Native Source Sink

variable (C : Crypto)

/-- A peer status is a byte; only the four named values are ever assigned. -/
abbrev Status := UInt8

def CandidateStatus : Status := 0

def ConsensusStatus : Status := 1

def QuitingStatus : Status := 2

def BlackStatus : Status := 3

def GOVERNANCE_VIEW : Bytes := ascii "governanceView"

def VBFT_CONFIG : Bytes := ascii "vbftConfig"

def CANDIDITE_INDEX : Bytes := ascii "candidateIndex"

def PEER_APPLY : Bytes := ascii "peerApply"

def PEER_POOL : Bytes := ascii "peerPool"

def PEER_INDEX : Bytes := ascii "peerIndex"

def BLACK_LIST : Bytes := ascii "blackList"

def CONSENSUS_SIGNS : Bytes := ascii "consensusSigns"

def MIN_PEER_NUM : ℕ := 4

/-- A key of the contract. -/
def nodeKey (args : List Bytes) : Bytes := concatKey NodeManagerContractAddress args

structure PeerPoolItem where
  index : UInt32
  peerPubkey : Bytes
  address : Address
  status : Status
  deriving DecidableEq

/-- Pool entries by public key text. -/
abbrev PeerPoolMap := OrderedMap Bytes PeerPoolItem

structure GovernanceView where
  view : UInt32
  height : UInt32
  txHash : Uint256
  deriving DecidableEq

structure Configuration where
  blockMsgDelay : UInt32
  hashMsgDelay : UInt32
  peerHandshakeTimeout : UInt32
  maxBlockChangeView : UInt32
  deriving DecidableEq

/-- A public key text with the address of its owner, as in a candidate's application. -/
structure PeerParam where
  peerPubkey : Bytes
  address : Address
  deriving DecidableEq

abbrev ConsensusSigns := OrderedMap Address Bool

def PeerPoolItem.serialization (item : PeerPoolItem) : Bytes :=
  writeUint32 item.index ++ writeVarBytes item.peerPubkey ++ writeVarBytes item.address.val ++
    [item.status]

def PeerPoolItem.deserialization : Reader Failure PeerPoolItem := do
  let index ← nextUint32 (.error "source.NextUint32, deserialize index error")
  let peerPubkey ← nextVarBytes (.error "source.NextString, deserialize peerPubkey error")
  let address ← nextVarBytes (.error "source.NextVarBytes, deserialize address error")
  let status ← nextByte (.error ("status.Deserialize. deserialize status error: " ++
    "serialization.ReadUint8, deserialize status error: unexpected EOF"))
  let addr ← StateT.lift (wrapError "common.AddressParseFromBytes, deserialize address error: "
    (addressParseFromBytes address))
  return ⟨index, peerPubkey, addr, status⟩

/-- The entries in descending order of their public key text. -/
def PeerPoolMap.serialization (m : PeerPoolMap) : Bytes :=
  writeVarUint (UInt64.ofNat m.size) ++
    ((m.entries.map Prod.snd).mergeSort fun a b => b.peerPubkey ≤ a.peerPubkey).flatMap
      PeerPoolItem.serialization

def PeerPoolMap.deserialization : Reader Failure PeerPoolMap := do
  let n ← nextVarUint (.error "source.NextVarUint, deserialize PeerPoolMap length error")
  let items ← Reader.replicate
    (fun bs => wrapError "deserialize peerPool error: " (PeerPoolItem.deserialization.run bs))
    n.toNat
  return items.foldl (fun m item => m.insert item.peerPubkey item) OrderedMap.empty

def GovernanceView.serialization (v : GovernanceView) : Bytes :=
  writeUint32 v.view ++ writeUint32 v.height ++ v.txHash.val

def GovernanceView.deserialization : Reader Failure GovernanceView := do
  let view ← nextUint32 (.error "source.NextUint32, deserialize view error")
  let height ← nextUint32 (.error "source.NextUint32, deserialize height error")
  let txHash ← nextHash (.error "source.NextHash, deserialize txHash error")
  return ⟨view, height, txHash⟩

/-- The addresses in descending order of their hex text, which prints the last byte first. -/
def ConsensusSigns.serialization (m : ConsensusSigns) : Bytes :=
  writeVarUint (UInt64.ofNat m.size) ++
    (m.entries.mergeSort fun a b => b.1.val.reverse ≤ a.1.val.reverse).flatMap
      fun x => writeVarBytes x.1.val ++ writeBool x.2

def ConsensusSigns.deserialization : Reader Failure ConsensusSigns := do
  let n ← nextVarUint (.error "source.NextVarUint, deserialize length of signsMap error")
  let items ← Reader.replicate (do
    let address ← nextVarBytes (.error "source.NextVarBytes, deserialize address error")
    let v ← nextBool (.error "source.NextBool, deserialize v error")
    match addressParseFromBytes address with
    | .ok addr => return (addr, v)
    | .error _ => throw (.error "common.AddressParseFromBytes, deserialize address error")) n.toNat
  return items.foldl (fun m x => m.insert x.1 x.2) OrderedMap.empty

def Configuration.serialization (c : Configuration) : Bytes :=
  writeUint32 c.blockMsgDelay ++ writeUint32 c.hashMsgDelay ++
    writeUint32 c.peerHandshakeTimeout ++ writeUint32 c.maxBlockChangeView

def Configuration.deserialization : Reader Failure Configuration := do
  let blockMsgDelay ← nextUint32 (.error "source.NextUint32, deserialize blockMsgDelay error")
  let hashMsgDelay ← nextUint32 (.error "source.NextUint32, deserialize hashMsgDelay error")
  let peerHandshakeTimeout ←
    nextUint32 (.error "source.NextUint32, deserialize peerHandshakeTimeout error")
  let maxBlockChangeView ←
    nextUint32 (.error "source.NextUint32, deserialize maxBlockChangeView error")
  return ⟨blockMsgDelay, hashMsgDelay, peerHandshakeTimeout, maxBlockChangeView⟩

def PeerParam.serialization (p : PeerParam) : Bytes :=
  writeVarBytes p.peerPubkey ++ writeVarBytes p.address.val

/-- An address written with its length. -/
def nextOwner : Reader Failure Address := do
  let address ← nextVarBytes (.error "source.NextVarBytes, deserialize address error")
  StateT.lift (wrapError "common.AddressParseFromBytes, deserialize address error: "
    (addressParseFromBytes address))

def PeerParam.deserialization : Reader Failure PeerParam := do
  let peerPubkey ← nextVarBytes (.error "source.NextString, deserialize peerPubkey error")
  let addr ← nextOwner
  return ⟨peerPubkey, addr⟩

/-- `GetPeerApply`; no application is `none`. -/
def getPeerApply (peerPubkey : Bytes) : NativeM (Option PeerParam) := do
  let raw ← wrapM "GetPeerApply, peerPubkey format error: " (lift (hexDecode peerPubkey))
  match ← getCache (nodeKey [PEER_APPLY, raw]) with
  | none => return none
  | some peerBytes =>
    let peerStore ← wrapM "GetPeerApply, deserialize from raw storage item err:"
      (lift (getValueFromRawStorageItem peerBytes))
    let peer ← wrapM "GetPeerApply, deserialize peer error: "
      (lift (decode PeerParam.deserialization peerStore))
    return some peer

def putPeerApply (peer : PeerParam) : NativeM Unit := do
  let raw ← wrapM "putPeerApply, peerPubkey format error: " (lift (hexDecode peer.peerPubkey))
  putItem (nodeKey [PEER_APPLY, raw]) peer.serialization

def getPeerPoolMap (view : UInt32) : NativeM PeerPoolMap := do
  let peerPoolMapStore ← getItem (nodeKey [PEER_POOL, getUint32Bytes view])
    (.error "getPeerPoolMap, peerPoolMap is nil") "deserialize PeerPoolMap error:"
  wrapM "deserialize, deserialize peerPoolMap error: "
    (lift (decode PeerPoolMap.deserialization peerPoolMapStore))

def putPeerPoolMap (peerPoolMap : PeerPoolMap) (view : UInt32) : NativeM Unit :=
  putItem (nodeKey [PEER_POOL, getUint32Bytes view]) (PeerPoolMap.serialization peerPoolMap)

def getConfig : NativeM Configuration := do
  let value ← getItem (nodeKey [VBFT_CONFIG]) (.error "getConfig, configBytes is nil")
    "getConfig, deserialize from raw storage item err:"
  wrapM "deserialize, deserialize config error: "
    (lift (decode Configuration.deserialization value))

def putConfig (config : Configuration) : NativeM Unit :=
  putItem (nodeKey [VBFT_CONFIG]) config.serialization

def getCandidateIndex : NativeM UInt32 := do
  let store ← getItem (nodeKey [CANDIDITE_INDEX])
    (.error "getCandidateIndex, candidateIndex is not init")
    "getCandidateIndex, deserialize from raw storage item err:"
  return getBytesUint32 store

def putCandidateIndex (candidateIndex : UInt32) : NativeM Unit :=
  putItem (nodeKey [CANDIDITE_INDEX]) (getUint32Bytes candidateIndex)

def getGovernanceView : NativeM GovernanceView := do
  let value ← getItem (nodeKey [GOVERNANCE_VIEW])
    (.error "getGovernanceView, get nil governanceViewBytes")
    "getGovernanceView, deserialize from raw storage item err:"
  wrapM "getGovernanceView, deserialize governanceView error: "
    (lift (decode GovernanceView.deserialization value))

def putGovernanceView (governanceView : GovernanceView) : NativeM Unit :=
  putItem (nodeKey [GOVERNANCE_VIEW]) governanceView.serialization

def getView : NativeM UInt32 := do
  let governanceView ← wrapM "getView, getGovernanceView error: " getGovernanceView
  return governanceView.view

variable (key : Uint256)

def getConsensusSigns : NativeM ConsensusSigns := do
  match ← getCache (nodeKey [CONSENSUS_SIGNS, key.val]) with
  | none => return OrderedMap.empty
  | some store =>
    let bytes ← wrapM "getGovernanceView, deserialize from raw storage item err:"
      (lift (getValueFromRawStorageItem store))
    wrapM "getGovernanceView, deserialize governanceView error: "
      (lift (decode ConsensusSigns.deserialization bytes))

def putConsensusSigns (consensusSigns : ConsensusSigns) : NativeM Unit :=
  putItem (nodeKey [CONSENSUS_SIGNS, key.val]) (ConsensusSigns.serialization consensusSigns)

def deleteConsensusSigns : NativeM Unit :=
  deleteCache (nodeKey [CONSENSUS_SIGNS, key.val])

/-- An event of the contract. -/
def notifyNode (states : List NotifyValue) : NativeM Unit :=
  addNotify ⟨NodeManagerContractAddress, states⟩

/-- The public keys of the consensus peers of a pool. -/
def consensusKeys (context : String) (peerPoolMap : PeerPoolMap) : Result (List C.keys.PublicKey) :=
  (peerPoolMap.entries.filter fun x => x.2.status = ConsensusStatus).mapM fun x => do
    let k ← wrapError (context ++ ", hex.DecodeString public key error: ") (hexDecode x.1)
    wrapError (context ++ ", keypair.DeserializePublicKey error: ") (C.keys.deserializePublicKey k)

/-- Record the sign of an address; true once two thirds of the consensus peers have signed. -/
def checkConsensusSigns (method input : Bytes) (address : Address) : NativeM Bool := do
  let key := C.sha256 (method ++ input)
  let stored ← wrapM "CheckConsensusSigns, GetConsensusSigns error: " (getConsensusSigns key)
  let consensusSigns := stored.insert address true
  notifyNode [.str (ascii "CheckConsensusSigns"), .num consensusSigns.size]
  let view ← wrapM "CheckConsensusSigns, GetView error: " getView
  let peerPoolMap ← wrapM "CheckConsensusSigns, GetPeerPoolMap error: " (getPeerPoolMap view)
  let keys ← lift (consensusKeys C "CheckConsensusSigns" peerPoolMap)
  let num := (keys.filter fun k =>
    (consensusSigns.get (addressFromPubKey C.keys C.sha256 C.ripemd160 k)).isSome).length
  let sum := keys.length
  if num ≥ (2 * sum + 2) / 3 then
    deleteConsensusSigns key
    return true
  else
    putConsensusSigns key consensusSigns
    return false

/-- The multi-signature address of the consensus peers of the current view. -/
def getCurConOperator : NativeM Address := do
  let view ← wrapM "GetCurConOperator, GetView error: " getView
  let peerPoolMap ← wrapM "GetCurConOperator, GetPeerPoolMap error: " (getPeerPoolMap view)
  let publicKeys ← lift (consensusKeys C "GetCurConOperator" peerPoolMap)
  return addressFromBookkeepers C.keys C.sha256 C.ripemd160 publicKeys

set_option synthInstance.maxSize 100000

/-- The keys that the contract writes. A pool is always written under a view number. -/
inductive NodeManagerKey : Bytes → Prop where
  | governanceView : NodeManagerKey (nodeKey [GOVERNANCE_VIEW])
  | vbftConfig : NodeManagerKey (nodeKey [VBFT_CONFIG])
  | candidateIndex : NodeManagerKey (nodeKey [CANDIDITE_INDEX])
  | peerApply (raw : Bytes) : NodeManagerKey (nodeKey [PEER_APPLY, raw])
  | peerPool (view : UInt32) : NodeManagerKey (nodeKey [PEER_POOL, getUint32Bytes view])
  | peerIndex (raw : Bytes) : NodeManagerKey (nodeKey [PEER_INDEX, raw])
  | blackList (raw : Bytes) : NodeManagerKey (nodeKey [BLACK_LIST, raw])
  | consensusSigns (key : Uint256) : NodeManagerKey (nodeKey [CONSENSUS_SIGNS, key.val])

/-- The contract's own frame: nothing but its keys is written. -/
abbrev NodeManagerFrame {α : Type} (x : NativeM α) : Prop := Within (OnlyWrites NodeManagerKey) x

instance : Owned NodeManagerKey (nodeKey [GOVERNANCE_VIEW]) := ⟨.governanceView⟩

instance : Owned NodeManagerKey (nodeKey [VBFT_CONFIG]) := ⟨.vbftConfig⟩

instance : Owned NodeManagerKey (nodeKey [CANDIDITE_INDEX]) := ⟨.candidateIndex⟩

instance (raw : Bytes) : Owned NodeManagerKey (nodeKey [PEER_APPLY, raw]) := ⟨.peerApply raw⟩

instance (view : UInt32) : Owned NodeManagerKey (nodeKey [PEER_POOL, getUint32Bytes view]) :=
  ⟨.peerPool view⟩

instance (raw : Bytes) : Owned NodeManagerKey (nodeKey [PEER_INDEX, raw]) := ⟨.peerIndex raw⟩

instance (raw : Bytes) : Owned NodeManagerKey (nodeKey [BLACK_LIST, raw]) := ⟨.blackList raw⟩

instance : Owned NodeManagerKey (nodeKey [CONSENSUS_SIGNS, key.val]) :=
  ⟨.consensusSigns key⟩

section Reads

variable {R : NativeService → NativeService → Prop} [IsPreorder NativeService R]

instance (peerPubkey : Bytes) : Within R (getPeerApply peerPubkey) := by
  refine @Within.bind _ _ _ _ _ _ _ _ _ fun raw => @Within.bind _ _ _ _ _ _ _ _ _ fun found => ?_
  cases found <;> infer_instance

instance (view : UInt32) : Within R (getPeerPoolMap view) := .bind

instance : Within R getConfig := .bind

instance : Within R getCandidateIndex := .bind

instance : Within R getGovernanceView := .bind

instance : Within R getView := .bind

instance (key : Uint256) : Within R (getConsensusSigns key) := .bind_option

instance : Within R (getCurConOperator C) := .bind

end Reads

instance (states : List NotifyValue) : NodeManagerFrame (notifyNode states) :=
  inferInstanceAs (NodeManagerFrame (addNotify _))

instance (peer : PeerParam) : NodeManagerFrame (putPeerApply peer) := .bind

instance (m : PeerPoolMap) (view : UInt32) : NodeManagerFrame (putPeerPoolMap m view) :=
  inferInstanceAs (NodeManagerFrame (putItem _ _))

instance (config : Configuration) : NodeManagerFrame (putConfig config) :=
  inferInstanceAs (NodeManagerFrame (putItem _ _))

instance (index : UInt32) : NodeManagerFrame (putCandidateIndex index) :=
  inferInstanceAs (NodeManagerFrame (putItem _ _))

instance (v : GovernanceView) : NodeManagerFrame (putGovernanceView v) :=
  inferInstanceAs (NodeManagerFrame (putItem _ _))

instance (signs : ConsensusSigns) :
    NodeManagerFrame (putConsensusSigns key signs) :=
  inferInstanceAs (NodeManagerFrame (putItem _ _))

instance : NodeManagerFrame (deleteConsensusSigns key) :=
  inferInstanceAs (NodeManagerFrame (deleteCache _))

instance (method input : Bytes) (address : Address) :
    NodeManagerFrame (checkConsensusSigns C method input address) := by
  dsimp only [checkConsensusSigns]
  infer_instance

end Poly.Governance
