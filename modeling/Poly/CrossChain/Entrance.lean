import Poly.CrossChain.Handlers
import Poly.Governance.Runs

/-! The cross chain manager contract: a transfer is accepted from its source chain, and the
outgoing request for its target chain is recorded. -/
namespace Poly.CrossChain

open Lib Native Source Sink Governance

def SIDE_CHAIN : Bytes := ascii "sideChain"

structure SideChain where
  address : Address
  chainId : UInt64
  router : UInt64
  name : Bytes
  blocksToWait : UInt64
  ccmcAddress : Bytes
  deriving DecidableEq

/-- The extra info that may follow is not used here, and its absence is no error. -/
def SideChain.deserialization : Reader Failure SideChain := do
  let addressBytes ← nextVarBytes (.error "utils.NextVarBytes, deserialize address error")
  let address ← StateT.lift (wrapError
    "common.AddressParseFromBytes, deserialize address error: " (addressParseFromBytes addressBytes))
  let chainId ← nextVarUint (.error "source.NextVarUint, deserialize chainid error")
  let router ← nextVarUint (.error "source.NextVarUint, deserialize router error")
  let name ← nextVarBytes (.error "source.NextString, deserialize name error")
  let blocksToWait ← nextVarUint (.error "source.NextVarUint, deserialize blocksToWait error")
  let ccmcAddress ← nextVarBytes (.error "source.NextVarBytes, deserialize CCMCAddress error")
  return ⟨address, chainId, router, name, blocksToWait, ccmcAddress⟩

def sideChainKey (chainID : UInt64) : Bytes :=
  concatKey SideChainManagerContractAddress [SIDE_CHAIN, getUint64Bytes chainID]

def getSideChain (chainID : UInt64) : NativeM (Option SideChain) := do
  match ← getCache (sideChainKey chainID) with
  | none => return none
  | some sideChainStore =>
    let sideChainBytes ← wrapM "getSideChain, deserialize from raw storage item err:"
      (lift (getValueFromRawStorageItem sideChainStore))
    let sideChain ← wrapM "getSideChain, deserialize sideChain error: "
      (lift (decode SideChain.deserialization sideChainBytes))
    return some sideChain

def VOTE_ROUTER : UInt64 := 0

def BTC_ROUTER : UInt64 := 1

def HSC_ROUTER : UInt64 := 20

def HARMONY_ROUTER : UInt64 := 21

def BYTOM_ROUTER : UInt64 := 22

def RIPPLE_ROUTER : UInt64 := 23

/-- The routers with a handler of their own next to the vote handler. -/
def PROOF_ROUTERS : List UInt64 :=
  [BTC_ROUTER, 2, 3, 4, 14, 5, 8, 6, 7, 9, 17, 10, 12, 16, 19, 18, HSC_ROUTER, HARMONY_ROUTER,
    BYTOM_ROUTER, RIPPLE_ROUTER]

def notSupported (router : UInt64) : Failure := .error s!"not a supported router:{router}"

def checkRouterStartBlock (networkId : UInt32) (router : UInt64) (block : UInt32) : Result Unit :=
  failIf (router ∈ [HARMONY_ROUTER, HSC_ROUTER, BYTOM_ROUTER] ∧
    networkId = NETWORK_ID_MAIN_NET ∧ block < 18823000) (notSupported router)

/-- What the contract takes from the rest of a node: its configuration, the handlers that verify
proofs of their chains, the parts that prepare bitcoin and ripple transactions, and the contracts
next to it and the node manager. -/
structure Deployment where
  networkId : UInt32
  enableEventLog : Bool
  handlers : UInt64 → GuardedHandler
  btcMakeTransaction : MakeTxParam → UInt64 → NativeM Unit
  rippleMakeTransaction : MakeTxParam → UInt64 → NativeM Unit
  multiSign : NativeM Unit
  multiSignRipple : NativeM Unit
  reconstructRippleTx : NativeM Unit
  others : Contracts
  frame_btcMakeTransaction : ∀ p c, Within (OnlyWrites SideKey) (btcMakeTransaction p c)
  frame_rippleMakeTransaction : ∀ p c, Within (OnlyWrites SideKey) (rippleMakeTransaction p c)
  frame_multiSign : Within (OnlyWrites SideKey) multiSign
  frame_multiSignRipple : Within (OnlyWrites SideKey) multiSignRipple
  frame_reconstructRippleTx : Within (OnlyWrites SideKey) reconstructRippleTx
  frame_others : ∀ {address methods method handler}, others address = some methods →
    methods method = some handler → Within (OnlyWrites SideKey) handler

variable (C : Crypto) (D : Deployment)

def getChainHandler (router : UInt64) : Result Proposal :=
  if router = VOTE_ROUTER then .ok (voteProposal C D.networkId)
  else if router ∈ PROOF_ROUTERS then .ok (D.handlers router).proposal
  else .error (notSupported router)

/-- The chain of one end of a transfer must be registered and not blacked. -/
def checkChain (role : String) (chainID : UInt64) : NativeM SideChain := do
  let blacked ← checkIfChainBlacked chainID
  failIf (blacked = true) (.error ("ImportExTransfer, " ++ role ++ " chain is blacked"))
  let sideChain ← wrapM "ImportExTransfer, side_chain_manager.GetSideChain error: "
    (getSideChain chainID)
  orFail sideChain (.error s!"ImportExTransfer, side chain {chainID} is not registered")

/-- `ImportExTransfer` up to the answer of the source chain's handler: the source chain, its router
and the transfer. -/
def importProposal : NativeM (UInt64 × UInt64 × Option MakeTxParam) := do
  let params ← wrapM "ImportExTransfer, contract params deserialize error: "
    (lift (decode EntranceParam.deserialization (← getInput)))
  let sideChain ← checkChain "source" params.sourceChainID
  let handler ← lift (getChainHandler C D sideChain.router)
  let s ← get
  lift (checkRouterStartBlock D.networkId sideChain.router s.height)
  let txParam ← handler
  return (params.sourceChainID, sideChain.router, txParam)

def NOTIFY_MAKE_PROOF : Bytes := ascii "makeProof"

def notifyMakeProof (fromChainID toChainID : UInt64) (txHash key : Bytes) : NativeM Unit := do
  let s ← get
  if D.enableEventLog then
    addNotify ⟨CrossChainManagerContractAddress, [.str NOTIFY_MAKE_PROOF, .num fromChainID.toNat,
      .num toChainID.toNat, .str txHash, .num s.height.toNat, .str key]⟩
  else
    return ()

/-- The value whose hash becomes a leaf of the block's cross-chain tree. -/
def merkleValue (txHash : Uint256) (params : MakeTxParam) (fromChainID : UInt64) : Bytes :=
  ToMerkleValue.serialization ⟨txHash.val, fromChainID, params⟩

def putRequest (txHash : Bytes) (chainID : UInt64) (request : Bytes) : NativeM Unit :=
  putItem (requestKey chainID txHash) request

def makeTransaction (params : MakeTxParam) (fromChainID : UInt64) : NativeM Unit := do
  let s ← get
  let value := merkleValue s.tx.hash params fromChainID
  putRequest s.tx.hash.val params.toChainID value
  putMerkleVal C.sha256 value
  notifyMakeProof D fromChainID params.toChainID (hexEncode params.txHash)
    (hexEncode (requestKey params.toChainID s.tx.hash.val))

/-- The transfer handed over to its target chain. -/
def deliver (fromChainID : UInt64) (txParam : MakeTxParam) : NativeM Unit := do
  let sideChain ← checkChain "target" txParam.toChainID
  if sideChain.router = BTC_ROUTER then D.btcMakeTransaction txParam fromChainID
  else if sideChain.router = RIPPLE_ROUTER then D.rippleMakeTransaction txParam fromChainID
  else makeTransaction C D txParam fromChainID

def importExTransfer : Handler := do
  let (chainID, router, txParam) ← importProposal C D
  match txParam with
  | none =>
    -- a handler without a result that is neither of these two would be dereferenced
    failIf (router ≠ VOTE_ROUTER ∧ router ≠ RIPPLE_ROUTER)
      (.panic "invalid memory address or nil pointer dereference")
    return BYTE_TRUE
  | some txParam =>
    deliver C D chainID txParam
    return BYTE_TRUE

def nextBlackChainParam : Reader Failure UInt64 :=
  nextVarUint (.error "BlackChainParam deserialize chainID error")

/-- Both methods report a missing witness under the name of the first. -/
def changeBlackChain (method : String) (change : UInt64 → NativeM Unit) : Handler := do
  let chainID ← wrapM (method ++ ", contract params deserialize error: ")
    (lift (decode nextBlackChainParam (← getInput)))
  let operatorAddress ← wrapM (method ++ ", get current consensus operator address error: ")
    (getCurConOperator C)
  wrapM "BlackChain, checkWitness error: " (validateOwner operatorAddress)
  change chainID
  return BYTE_TRUE

def blackChain : Handler := changeBlackChain C "BlackChain" putBlackChain

def whiteChain : Handler := changeBlackChain C "WhiteChain" removeBlackChain

def answerTrue (x : NativeM Unit) : Handler := do
  x
  return BYTE_TRUE

def IMPORT_OUTER_TRANSFER_NAME : Bytes := ascii "ImportOuterTransfer"

/-- `RegisterCrossChainManagerContract`. -/
def crossChainManagerContract : List (Bytes × Handler) :=
  [(IMPORT_OUTER_TRANSFER_NAME, importExTransfer C D), (ascii "MultiSign", answerTrue D.multiSign),
    (ascii "MultiSignRipple", answerTrue D.multiSignRipple),
    (ascii "ReconstructRippleTx", answerTrue D.reconstructRippleTx),
    (ascii "BlackChain", blackChain C), (ascii "WhiteChain", whiteChain C)]

/-- The contracts registered at start. -/
def Deployment.contracts : Contracts := fun address =>
  if address = CrossChainManagerContractAddress then
    some (List.lookup · (crossChainManagerContract C D))
  else if address = NodeManagerContractAddress then
    some (List.lookup · (nodeManagerContract C))
  else D.others address

variable {C D}

section Reads

variable {R : NativeService → NativeService → Prop} [IsPreorder NativeService R]

instance (chainID : UInt64) : Within R (getSideChain chainID) := .bind_option

instance (chainID : UInt64) : Within R (checkIfChainBlacked chainID) := .bind

instance (role : String) (chainID : UInt64) : Within R (checkChain role chainID) := .bind

end Reads

variable {s t : NativeService} {c : UInt64}

/-- The handler that was run answered a chain that is registered, on the state before. -/
theorem importProposal_ok {router p} (h : (importProposal C D).run s = .ok ((c, router, p), t)) :
    ∃ params handler, decode EntranceParam.deserialization s.input = .ok params ∧
      params.sourceChainID = c ∧ getChainHandler C D router = .ok handler ∧
      handler.run s = .ok (p, t) := by
  simp only [importProposal, run_bind_ok, run_get_ok, run_getInput_ok, run_lift_ok, run_wrapM_ok,
    run_pure_ok, and_assoc, exists_and_left, exists_eq_left'] at h
  obtain ⟨params, hdec, sideChain, s₀, hc, handler, hhandler, _, -, q, t', hp, heq, rfl⟩ := h
  obtain rfl : s = s₀ := Within.of_run hc
  obtain ⟨rfl, rfl, rfl⟩ : _ ∧ _ ∧ _ := by simpa using heq
  exact ⟨params, handler, hdec, rfl, hhandler, hp⟩

theorem getChainHandler_ok {router handler} (h : getChainHandler C D router = .ok handler) :
    handler = voteProposal C D.networkId ∨ handler = (D.handlers router).proposal := by
  unfold getChainHandler at h
  split at h
  · exact .inl (Except.ok.inj h).symm
  · split at h
    · exact .inr (Except.ok.inj h).symm
    · cases h

/-- Block heights at which every handler guards with the record of done transfers. -/
def Guards (D : Deployment) (height : UInt32) : Prop :=
  D.networkId ≠ NETWORK_ID_TEST_NET ∨ height ≥ VOTE_GUARD_HEIGHT

instance (D : Deployment) (height : UInt32) : Decidable (Guards D height) :=
  inferInstanceAs (Decidable (_ ∨ _))

theorem importProposal_proposed {router p} (hg : Guards D s.height)
    (h : (importProposal C D).run s = .ok ((c, router, p), t)) : Proposed c p s t := by
  obtain ⟨params, handler, hdec, rfl, hh, hr⟩ := importProposal_ok h
  rcases getChainHandler_ok hh with rfl | rfl
  · exact voteProposal_proposed C hdec hg hr
  · exact (D.handlers router).proposed hdec hr

/-- A request is stored under the hash of the importing transaction, with one leaf of the block's
tree. -/
structure Requested (C : Crypto) (c : UInt64) (q : MakeTxParam) (s t : NativeService) : Prop where
  cacheDB_eq : t.cacheDB = s.cacheDB.put (requestKey q.toChainID s.tx.hash.val)
    (genRawStorageItem (merkleValue s.tx.hash q c))
  crossHashes_eq : t.crossHashes =
    s.crossHashes ++ [Merkle.hashLeaf C.sha256 (merkleValue s.tx.hash q c)]
  tx_eq : t.tx = s.tx
  height_eq : t.height = s.height

/-- A transfer goes to bitcoin or ripple, whose transactions are side keys, or into a request. -/
inductive Delivered (C : Crypto) (c : UInt64) (q : MakeTxParam) (s t : NativeService) : Prop where
  | side (h : OnlyWrites SideKey s t)
  | request (h : Requested C c q s t)

variable {q : MakeTxParam}

theorem makeTransaction_ok (h : (makeTransaction C D q c).run s = .ok ((), t)) :
    Requested C c q s t := by
  obtain ⟨u, s₀, hg, h⟩ := run_bind_ok.mp h
  cases hg
  obtain ⟨_, s₁, hp, h⟩ := run_bind_ok.mp h
  cases hp
  obtain ⟨_, s₂, hm, h⟩ := run_bind_ok.mp h
  cases hm
  obtain ⟨u, s₀, hg, h⟩ := run_bind_ok.mp h
  cases hg
  split at h <;> cases h <;> exact ⟨rfl, rfl, rfl, rfl⟩

theorem deliver_ok (h : (deliver C D c q).run s = .ok ((), t)) : Delivered C c q s t := by
  obtain ⟨sideChain, s₀, hc, h⟩ := run_bind_ok.mp h
  obtain rfl : s = s₀ := Within.of_run hc
  split at h
  · exact .side ((D.frame_btcMakeTransaction _ _).of_run h)
  · split at h
    · exact .side ((D.frame_rippleMakeTransaction _ _).of_run h)
    · exact .request (makeTransaction_ok h)

/-- A successful import: the handler's answer, then the delivery of the transfer if there is one. -/
theorem importExTransfer_ok {r} (h : (importExTransfer C D).run s = .ok (r, t)) :
    ∃ c router p s₁, (importProposal C D).run s = .ok ((c, router, p), s₁) ∧
      ((p = none ∧ s₁ = t) ∨ ∃ q, p = some q ∧ (deliver C D c q).run s₁ = .ok ((), t)) := by
  obtain ⟨⟨c, router, p⟩, s₁, hp, h⟩ := run_bind_ok.mp h
  refine ⟨c, router, p, s₁, hp, ?_⟩
  cases p with
  | none =>
    obtain ⟨_, s₂, hf, h⟩ := run_bind_ok.mp h
    obtain ⟨-, rfl⟩ := run_failIf_ok.mp hf
    cases h
    exact .inl ⟨rfl, rfl⟩
  | some q =>
    obtain ⟨_, s₂, hd, h⟩ := run_bind_ok.mp h
    cases h
    exact .inr ⟨q, rfl, hd⟩

/-- Keys that a transaction with this hash may write. -/
inductive TxKey (hash : Uint256) : Bytes → Prop where
  | record {k : Bytes} (h : RecordKey k) : TxKey hash k
  | request (toChainID : UInt64) : TxKey hash (requestKey toChainID hash.val)

theorem frame_importProposal {x} (h : (importProposal C D).run s = .ok (x, t)) :
    OnlyWrites RecordKey s t := by
  obtain ⟨c, router, p⟩ := x
  obtain ⟨params, handler, -, -, hh, hr⟩ := importProposal_ok h
  rcases getChainHandler_ok hh with rfl | rfl
  · exact (frame_voteProposal C D.networkId).of_run hr
  · exact (D.handlers router).frame_proposal.of_run hr

theorem Requested.writes (h : Requested C c q s t) : Writes (TxKey s.tx.hash) s t := by
  have hput := Writes.put (s := s) (genRawStorageItem (merkleValue s.tx.hash q c))
    (TxKey.request q.toChainID : TxKey s.tx.hash _)
  refine ⟨?_, ?_, h.tx_eq, h.height_eq⟩
  · rw [h.cacheDB_eq]
    exact hput.get_eq
  · rw [h.cacheDB_eq]
    exact hput.backend_eq

theorem Delivered.writes (h : Delivered C c q s t) : Writes (TxKey s.tx.hash) s t := by
  cases h with
  | side h => exact h.toWrites.mono fun _ hk => .record (.side hk)
  | request h => exact h.writes

theorem importExTransfer_writes {r} (h : (importExTransfer C D).run s = .ok (r, t)) :
    Writes (TxKey s.tx.hash) s t := by
  obtain ⟨c, router, p, s₁, hp, h⟩ := importExTransfer_ok h
  have hw := frame_importProposal hp
  have hfirst : Writes (TxKey s.tx.hash) s s₁ := hw.toWrites.mono fun _ hk => .record hk
  rcases h with ⟨-, rfl⟩ | ⟨q, -, hd⟩
  · exact hfirst
  · have hsecond := (deliver_ok hd).writes
    rw [hw.tx_eq] at hsecond
    exact hfirst.trans hsecond

end Poly.CrossChain
