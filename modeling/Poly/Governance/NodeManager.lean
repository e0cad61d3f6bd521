import Poly.Governance.Peers

/-! The node manager contract: the initial configuration, the candidates' life cycle and the
change of the consensus peers. -/
namespace Poly.Governance

open Lib Native Source Sink

variable (C : Crypto)

structure VBFTPeerInfo where
  index : UInt32
  peerPubkey : Bytes
  address : Bytes
  deriving DecidableEq

structure VBFTConfig where
  blockMsgDelay : UInt32
  hashMsgDelay : UInt32
  peerHandshakeTimeout : UInt32
  maxBlockChangeView : UInt32
  vrfValue : Bytes
  vrfProof : Bytes
  peers : List VBFTPeerInfo
  deriving DecidableEq

/-- The address is sent as raw bytes and kept as its base58 text. -/
def VBFTPeerInfo.deserialization : Reader Failure VBFTPeerInfo := do
  let index ← nextUint32 (.error "serialization.ReadUint32, deserialize index error!")
  let peerPubkey ← nextVarBytes (.error "serialization.ReadUint32, deserialize peerPubkey error!")
  let address ← nextAddress (.error "address.Deserialize, deserialize address error!")
  return ⟨index, peerPubkey, C.toBase58 address⟩

def VBFTConfig.deserialization : Reader Failure VBFTConfig := do
  let blockMsgDelay ←
    nextUint32 (.error "serialization.ReadUint32, deserialize blockMsgDelay error!")
  let hashMsgDelay ←
    nextUint32 (.error "serialization.ReadUint32, deserialize hashMsgDelay error!")
  let peerHandshakeTimeout ←
    nextUint32 (.error "serialization.ReadUint32, deserialize peerHandshakeTimeout error!")
  let maxBlockChangeView ←
    nextUint32 (.error "serialization.ReadUint32, deserialize maxBlockChangeView error!")
  let vrfValue ← nextVarBytes (.error "serialization.ReadString, deserialize vrfValue error!")
  let vrfProof ← nextVarBytes (.error "serialization.ReadString, deserialize vrfProof error!")
  let length ← nextVarUint (.error "serialization.ReadVarUint, deserialize peer length error!")
  let peers ← Reader.replicate (fun bs =>
    wrapError "deserialize peer error, error:" ((VBFTPeerInfo.deserialization C).run bs))
    length.toNat
  return ⟨blockMsgDelay, hashMsgDelay, peerHandshakeTimeout, maxBlockChangeView, vrfValue,
    vrfProof, peers⟩

/-- The checks on one peer, given the peers before it. -/
def checkPeer (seen : List VBFTPeerInfo) (peer : VBFTPeerInfo) : Result (List VBFTPeerInfo) := do
  failIf (peer.index ∈ seen.map (·.index)) (.error "initConfig, peer index is duplicated")
  failIf (peer.peerPubkey ∈ seen.map (·.peerPubkey))
    (.error "initConfig, peerPubkey is duplicated")
  failIf (peer.index ≤ 0) (.error "initConfig, peer index in config must > 0")
  match validatePeerPubKeyFormat C peer.peerPubkey with
  | .error (.panic msg) => throw (.panic msg)
  | .error (.error _) => throw (.error "invalid peer pubkey")
  | .ok () =>
    let _ ← wrapError "common.AddressFromBase58, address format error: "
      (C.addressFromBase58 peer.address)
    return seen ++ [peer]

def checkVBFTConfig (configuration : VBFTConfig) : Result Unit := do
  failIf (configuration.blockMsgDelay < 5000) (.error "initConfig. BlockMsgDelay must >= 5000")
  failIf (configuration.hashMsgDelay < 5000) (.error "initConfig. HashMsgDelay must >= 5000")
  failIf (configuration.peerHandshakeTimeout < 10)
    (.error "initConfig. PeerHandshakeTimeout must >= 10")
  failIf (configuration.vrfProof.length < 128) (.error "initConfig. VrfProof must >= 128")
  failIf (configuration.vrfValue.length < 128) (.error "initConfig. VrfValue must >= 128")
  let _ ← configuration.peers.foldlM (checkPeer C) []
  return ()

/-- What one peer of the configuration adds to the largest index and to the pool. -/
def initPeer (acc : UInt32 × PeerPoolMap) (peer : VBFTPeerInfo) :
    NativeM (UInt32 × PeerPoolMap) := do
  let maxId := if peer.index > acc.1 then peer.index else acc.1
  let address ← wrapM "initConfig, address format error: "
    (lift (C.addressFromBase58 peer.address))
  let item : PeerPoolItem := ⟨peer.index, peer.peerPubkey, address, ConsensusStatus⟩
  let raw ← wrapM "initConfig, peerPubkey format error: " (lift (hexDecode item.peerPubkey))
  putItem (nodeKey [PEER_INDEX, raw]) (getUint32Bytes item.index)
  return (maxId, acc.2.insert item.peerPubkey item)

/-- The writes of `InitConfig` after its checks. -/
def installConfig (configuration : VBFTConfig) : NativeM Bytes := do
  let (maxId, peerPoolMap) ← configuration.peers.foldlM (initPeer C) (0, OrderedMap.empty)
  putPeerPoolMap peerPoolMap 0
  putPeerPoolMap peerPoolMap 1
  putItem (nodeKey [CANDIDITE_INDEX]) (getUint32Bytes (maxId + 1))
  let s ← get
  putGovernanceView ⟨1, s.height, s.tx.hash⟩
  putConfig ⟨configuration.blockMsgDelay, configuration.hashMsgDelay,
    configuration.peerHandshakeTimeout, configuration.maxBlockChangeView⟩
  return BYTE_TRUE

/-- The guard reads the pool's key without a view number. -/
def initConfig : Handler := do
  let configuration ← wrapM "initConfig, contract params deserialize error: "
    (lift (decode (VBFTConfig.deserialization C) (← getInput)))
  let peerPoolMapBytes ← getCache (nodeKey [PEER_POOL])
  failIf peerPoolMapBytes.isSome (.error "initConfig. initConfig is already executed")
  wrapM "initConfig, checkVBFTConfig failed: " (lift (checkVBFTConfig C configuration))
  installConfig C configuration

def registerCandidate : Handler := do
  let params ← wrapM "registerCandidate, contract params deserialize error: "
    (lift (decode PeerParam.deserialization (← getInput)))
  wrapM "registerCandidate, checkWitness error: " (validateOwner params.address)
  lift (match validatePeerPubKeyFormat C params.peerPubkey with
    | .error (.panic msg) => .error (.panic msg)
    | .error (.error _) => .error (.error "registerCandidate, invalid peer pubkey")
    | .ok () => .ok ())
  let raw ← wrapM "registerCandidate, peerPubkey format error: " (lift (hexDecode params.peerPubkey))
  let blackList ← getCache (nodeKey [BLACK_LIST, raw])
  failIf blackList.isSome (.error "registerCandidate, this Peer is in BlackList")
  let peer ← wrapM "registerCandidate, GetPeerApply error: " (getPeerApply params.peerPubkey)
  failIf peer.isSome (.error "registerCandidate, peer already applied")
  let view ← wrapM "registerCandidate, get view error: " getView
  let peerPoolMap ← wrapM "registerCandidate, get peerPoolMap error: " (getPeerPoolMap view)
  failIf (peerPoolMap.get params.peerPubkey).isSome
    (.error "registerCandidate, peerPubkey is already in peerPoolMap")
  wrapM "registerCandidate, put putPeerApply error: " (putPeerApply params)
  notifyNode [.str (ascii "registerCandidate"), .str params.peerPubkey]
  return BYTE_TRUE

def unRegisterCandidate : Handler := do
  let params ← wrapM "unRegisterCandidate, contract params deserialize error: "
    (lift (decode PeerParam.deserialization (← getInput)))
  wrapM "unRegisterCandidate, checkWitness error: " (validateOwner params.address)
  let applied ← wrapM "unRegisterCandidate, GetPeerApply error: " (getPeerApply params.peerPubkey)
  let peer ← orFail applied (.error "unRegisterCandidate, peer is not applied")
  failIf (peer.address ≠ params.address)
    (.error "unRegisterCandidate, address is not peer owner")
  let raw ← wrapM "unRegisterCandidate, peerPubkey format error: "
    (lift (hexDecode params.peerPubkey))
  deleteCache (nodeKey [PEER_APPLY, raw])
  notifyNode [.str (ascii "unRegisterCandidate"), .str params.peerPubkey]
  return BYTE_TRUE

/-- The index of an approved peer: the one it had before, or the next free one. -/
def approvedIndex (raw : Bytes) : NativeM UInt32 := do
  match ← getCache (nodeKey [PEER_INDEX, raw]) with
  | some indexBytes =>
    let value ← wrapM "approveCandidate, get value from raw storage item error:"
      (lift (getValueFromRawStorageItem indexBytes))
    return getBytesUint32 value
  | none =>
    let candidateIndex ← wrapM "approveCandidate, get candidateIndex error: " getCandidateIndex
    putCandidateIndex (candidateIndex + 1)
    putItem (nodeKey [PEER_INDEX, raw]) (getUint32Bytes candidateIndex)
    return candidateIndex

/-- What the last sign that was needed for an approval does. -/
def enterPool (params peer : PeerParam) : NativeM Unit := do
  let raw ← wrapM "approveCandidate, peerPubkey format error: " (lift (hexDecode peer.peerPubkey))
  let index ← approvedIndex raw
  let view ← wrapM "approveCandidate, get view error: " getView
  let peerPoolMap ← wrapM "approveCandidate, get peerPoolMap error: " (getPeerPoolMap view)
  putPeerPoolMap (peerPoolMap.insert params.peerPubkey
    ⟨index, peer.peerPubkey, peer.address, CandidateStatus⟩) view
  deleteCache (nodeKey [PEER_APPLY, raw])
  notifyNode [.str (ascii "approveCandidate"), .str params.peerPubkey]

def approveCandidate : Handler := do
  let params ← wrapM "approveCandidate, contract params deserialize error: "
    (lift (decode PeerParam.deserialization (← getInput)))
  wrapM "approveCandidate, checkWitness error: " (validateOwner params.address)
  let applied ← wrapM "approveCandidate, GetPeerApply error: " (getPeerApply params.peerPubkey)
  let peer ← orFail applied (.error "approveCandidate, peer is not applied")
  let ok ← wrapM "approveCandidate, CheckConsensusSigns error: "
    (checkConsensusSigns C (ascii "approveCandidate") params.peerPubkey params.address)
  if ok then
    enterPool params peer
    return BYTE_TRUE
  else
    return BYTE_TRUE

variable (peerPoolMap : PeerPoolMap)

/-- The peers that count against the minimum. -/
def activePeers : ℕ :=
  (peerPoolMap.entries.filter fun x =>
    x.2.status = CandidateStatus ∨ x.2.status = ConsensusStatus).length

/-- One entry of a pool in the next view: leaving peers are dropped, the others take part. -/
def commitItem (x : Bytes × PeerPoolItem) : Option (Bytes × PeerPoolItem) :=
  if x.2.status = QuitingStatus ∨ x.2.status = BlackStatus then none
  else if x.2.status = CandidateStatus ∨ x.2.status = ConsensusStatus then
    some (x.1, { x.2 with status := ConsensusStatus })
  else some x

def commitPool : PeerPoolMap :=
  (peerPoolMap.entries.filterMap commitItem).foldl (fun m x => m.insert x.1 x.2) OrderedMap.empty

def executeCommitDpos : NativeM Unit := do
  let governanceView ← wrapM "executeCommitDpos, get GovernanceView error: " getGovernanceView
  let s ← get
  failIf (s.height = governanceView.height)
    (.error "executeCommitDpos, can not do commitDpos twice in one block")
  let view := governanceView.view
  let peerPoolMap ← wrapM "executeCommitDpos, get peerPoolMap error: " (getPeerPoolMap view)
  putPeerPoolMap (commitPool peerPoolMap) (view + 1)
  deleteCache (nodeKey [PEER_POOL, getUint32Bytes (view - 1)])
  putGovernanceView ⟨view + 1, s.height, s.tx.hash⟩

structure PeerListParam where
  peerPubkeyList : List Bytes
  address : Address
  deriving DecidableEq

def PeerListParam.deserialization : Reader Failure PeerListParam := do
  let n ← nextVarUint (.error "source.NextVarUint, deserialize PeerPubkeyList length error")
  let peerPubkeyList ← Reader.replicate
    (nextVarBytes (.error "source.NextString, deserialize peerPubkey error")) n.toNat
  let addr ← nextOwner
  return ⟨peerPubkeyList, addr⟩

/-- The peers to be blacked are in the pool and not black yet. -/
def checkBlackable (peerPubkey : Bytes) : Result Unit := do
  let peerPoolItem ← orFail (peerPoolMap.get peerPubkey) (.error
    ("blockNode, peerPubkey: " ++ text peerPubkey ++ " is not in peerPoolMap"))
  failIf (peerPoolItem.status = BlackStatus) (.error
    ("blackNode, peerPubkey: " ++ text peerPubkey ++ " is already blacked"))

/-- Black one peer; the flag records whether a consensus peer was among them. -/
def blackPeer (acc : Bool × PeerPoolMap) (peerPubkey : Bytes) : NativeM (Bool × PeerPoolMap) := do
  let raw ← wrapM "blackNode, peerPubkey format error: " (lift (hexDecode peerPubkey))
  let peerPoolItem ← orFail (acc.2.get peerPubkey)
    (.error "blackNode, peerPubkey is not in peerPoolMap")
  putItem (nodeKey [BLACK_LIST, raw])
    (PeerParam.serialization ⟨peerPoolItem.peerPubkey, peerPoolItem.address⟩)
  return (acc.1 || peerPoolItem.status = ConsensusStatus,
    acc.2.insert peerPubkey { peerPoolItem with status := BlackStatus })

/-- What the last sign that was needed for a blacking does. -/
def blackPeers (params : PeerListParam) (peerPoolMap : PeerPoolMap) (view : UInt32) :
    NativeM Unit := do
  let (commit, blacked) ← params.peerPubkeyList.foldlM blackPeer (false, peerPoolMap)
  putPeerPoolMap blacked view
  (if commit then wrapM "blackNode, executeCommitDpos error: " executeCommitDpos else pure ())
  notifyNode [.str (ascii "blackNode"), .strs params.peerPubkeyList]

def blackNode : Handler := do
  let params ← wrapM "blackNode, contract params deserialize error: "
    (lift (decode PeerListParam.deserialization (← getInput)))
  wrapM "blackNode, checkWitness error: " (validateOwner params.address)
  let view ← wrapM "blackNode, get view error: " getView
  let peerPoolMap ← wrapM "blackNode, get peerPoolMap error: " (getPeerPoolMap view)
  failIf (activePeers peerPoolMap ≤ MIN_PEER_NUM + params.peerPubkeyList.length - 1)
    (.error "blackNode, num of peers is less than 4")
  lift (params.peerPubkeyList.forM (checkBlackable peerPoolMap))
  let ok ← wrapM "blackNode, CheckConsensusSigns error: "
    (checkConsensusSigns C (ascii "blackNode") params.peerPubkeyList.flatten params.address)
  if ok then
    blackPeers params peerPoolMap view
    return BYTE_TRUE
  else
    return BYTE_TRUE

def whiteNode : Handler := do
  let params ← wrapM "whiteNode, contract params deserialize error: "
    (lift (decode PeerParam.deserialization (← getInput)))
  wrapM "whiteNode, checkWitness error: " (validateOwner params.address)
  let raw ← wrapM "whiteNode, peerPubkey format error: " (lift (hexDecode params.peerPubkey))
  let blackListBytes ← getCache (nodeKey [BLACK_LIST, raw])
  failIf blackListBytes.isNone (.error "whiteNode, this Peer is not in BlackList: <nil>")
  let ok ← wrapM "whiteNode, CheckConsensusSigns error: "
    (checkConsensusSigns C (ascii "whiteNode") params.peerPubkey params.address)
  if ok then
    deleteCache (nodeKey [BLACK_LIST, raw])
    notifyNode [.str (ascii "whiteNode"), .str params.peerPubkey]
    return BYTE_TRUE
  else
    return BYTE_TRUE

def quitNode : Handler := do
  let params ← wrapM "quitNode, contract params deserialize error: "
    (lift (decode PeerParam.deserialization (← getInput)))
  wrapM "quitNode, checkWitness error: " (validateOwner params.address)
  let view ← wrapM "quitNode, get view error: " getView
  let peerPoolMap ← wrapM "quitNode, get peerPoolMap error: " (getPeerPoolMap view)
  let peerPoolItem ← orFail (peerPoolMap.get params.peerPubkey)
    (.error "quitNode, peerPubkey is not in peerPoolMap")
  failIf (peerPoolItem.status ≠ ConsensusStatus ∧ peerPoolItem.status ≠ CandidateStatus)
    (.error "quitNode, peerPubkey is not CandidateStatus or ConsensusStatus")
  failIf (params.address ≠ peerPoolItem.address)
    (.error "quitNode, peerPubkey is not registered by this address")
  failIf (activePeers peerPoolMap ≤ MIN_PEER_NUM) (.error "quitNode, num of peers is less than 4")
  putPeerPoolMap (peerPoolMap.insert params.peerPubkey
    { peerPoolItem with status := QuitingStatus }) view
  notifyNode [.str (ascii "quitNode"), .str params.peerPubkey]
  return BYTE_TRUE

/-- Without the operator's witness the view changes only after a full period. -/
def commitDpos : Handler := do
  let config ← wrapM "commitDpos, get config error: " getConfig
  let governanceView ← wrapM "commitDpos, get GovernanceView error: " getGovernanceView
  let operatorAddress ← wrapM "commitDPos, get current consensus operator address error: "
    (getCurConOperator C)
  let s ← get
  failIf (s.checkWitness operatorAddress = false ∧
      ¬ s.height - governanceView.height ≥ config.maxBlockChangeView)
    (.error "commitDpos, authentication Failed")
  wrapM "executeCommitDpos, executeCommitDpos error: " executeCommitDpos
  notifyNode [.str (ascii "commitDpos")]
  return BYTE_TRUE

def updateConfig : Handler := do
  let configuration ← wrapM ("updateConfig, deserialize configuration error: " ++
      "configuration.Deserialization, deserialize configuration error: ")
    (lift (decode Configuration.deserialization (← getInput)))
  let operatorAddress ← wrapM "updateConfig, get current consensus operator address error: "
    (getCurConOperator C)
  wrapM "updateConfig, checkWitness error: " (validateOwner operatorAddress)
  failIf (configuration.blockMsgDelay < 5000) (.error "updateConfig. BlockMsgDelay must >= 5000")
  failIf (configuration.hashMsgDelay < 5000) (.error "updateConfig. HashMsgDelay must >= 5000")
  failIf (configuration.peerHandshakeTimeout < 10)
    (.error "updateConfig. PeerHandshakeTimeout must >= 10")
  failIf (configuration.maxBlockChangeView < 10000)
    (.error "updateConfig. MaxBlockChangeView must >= 10000")
  putConfig configuration
  notifyNode [.str (ascii "updateConfig"), .nums [configuration.blockMsgDelay.toNat,
    configuration.hashMsgDelay.toNat, configuration.peerHandshakeTimeout.toNat,
    configuration.maxBlockChangeView.toNat]]
  return BYTE_TRUE

/-- `RegisterNodeManagerContract`. -/
def nodeManagerContract : List (Bytes × Handler) :=
  [(ascii "initConfig", initConfig C), (ascii "registerCandidate", registerCandidate C),
    (ascii "unRegisterCandidate", unRegisterCandidate), (ascii "quitNode", quitNode),
    (ascii "approveCandidate", approveCandidate C), (ascii "blackNode", blackNode C),
    (ascii "whiteNode", whiteNode C), (ascii "updateConfig", updateConfig C),
    (ascii "commitDpos", commitDpos C)]

end Poly.Governance
