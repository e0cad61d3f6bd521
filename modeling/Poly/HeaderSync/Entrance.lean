import Poly.HeaderSync.Cosmos
import Poly.HeaderSync.Ont
import Poly.HeaderSync.Quorum
import Poly.HeaderSync.TimeChecks

/-! The header sync contract: the handler of a chain is found by the router of the chain. -/
namespace Poly.HeaderSync

open Lib Native CrossChain

def ETH_ROUTER : UInt64 := 2

def ONT_ROUTER : UInt64 := 3

def COSMOS_ROUTER : UInt64 := 5

def BSC_ROUTER : UInt64 := 6

def QUORUM_ROUTER : UInt64 := 8

def MSC_ROUTER : UInt64 := 10

def POLYGON_HEIMDALL_ROUTER : UInt64 := 15

def STARCOIN_ROUTER : UInt64 := 18

/-- Bitcoin, Neo, Heco, Zilliqa, OKEx, Bor, Pixie, HSC, Harmony and Bytom. -/
def OTHER_ROUTERS : List UInt64 :=
  [BTC_ROUTER, 4, 14, 11, 7, 9, 17, 12, 16, 19, HSC_ROUTER, HARMONY_ROUTER, BYTOM_ROUTER]

section Handlers

/-- `HeaderSyncHandler`: a handler reads the clock when it checks the time of a new header, and at
no other place. -/
structure HeaderSyncHandler where
  syncGenesisHeader : NativeM Unit
  syncBlockHeader : Clock → NativeM Unit
  syncCrossChainMsg : NativeM Unit
  timed : Timed syncBlockHeader

/-- A handler that does not read the clock. -/
def HeaderSyncHandler.untimed (syncGenesisHeader syncBlockHeader syncCrossChainMsg : NativeM Unit) :
    HeaderSyncHandler :=
  ⟨syncGenesisHeader, fun _ => syncBlockHeader, syncCrossChainMsg, .const syncBlockHeader⟩

/-- What the contract takes from the rest of a node: its configuration, the libraries of the chains,
and the handlers of the other chains. -/
structure SyncDeployment (C : Crypto) where
  networkId : UInt32
  enableEventLog : Bool
  eth : Eth.EthLib
  bsc : Bsc.BscLib
  msc : Msc.MscLib
  starcoin : Starcoin.StcLib
  ont : Ont.OntLib C.keys.PublicKey
  quorum : QuorumLib
  cosmos : Cosmos.CosmosLib
  heimdall : HeimdallLib
  others : UInt64 → HeaderSyncHandler

variable {C : Crypto} (D : SyncDeployment C)

namespace SyncDeployment

def ethHandler : HeaderSyncHandler :=
  ⟨Eth.syncGenesisHeader C D.eth D.enableEventLog,
    Eth.syncBlockHeader D.eth D.networkId D.enableEventLog, return (),
    Eth.syncBlockHeader_timed D.eth D.networkId D.enableEventLog⟩

def bscHandler : HeaderSyncHandler :=
  ⟨Bsc.syncGenesisHeader C D.bsc D.enableEventLog, Bsc.syncBlockHeader D.bsc D.enableEventLog,
    return (), Bsc.syncBlockHeader_timed D.bsc D.enableEventLog⟩

def mscHandler : HeaderSyncHandler :=
  ⟨Msc.syncGenesisHeader C D.msc D.enableEventLog, Msc.syncBlockHeader D.msc D.enableEventLog,
    return (), Msc.syncBlockHeader_timed D.msc D.enableEventLog⟩

def starcoinHandler : HeaderSyncHandler :=
  ⟨Starcoin.syncGenesisHeader C D.starcoin D.enableEventLog,
    Starcoin.syncBlockHeader D.starcoin D.networkId D.enableEventLog, return (),
    Starcoin.syncBlockHeader_timed D.starcoin D.networkId D.enableEventLog⟩

def ontHandler : HeaderSyncHandler :=
  .untimed (Ont.syncGenesisHeader C D.ont D.enableEventLog)
    (Ont.syncBlockHeader C D.ont D.enableEventLog)
    (Ont.syncCrossChainMsg C D.ont D.enableEventLog)

def quorumHandler : HeaderSyncHandler :=
  .untimed (Quorum.syncGenesisHeader C D.quorum) (Quorum.syncBlockHeader D.quorum) (return ())

def cosmosHandler : HeaderSyncHandler :=
  .untimed (Cosmos.syncGenesisHeader C D.cosmos D.enableEventLog)
    (Cosmos.syncBlockHeader D.cosmos D.enableEventLog) (return ())

def heimdallHandler : HeaderSyncHandler :=
  .untimed (Heimdall.syncGenesisHeader C D.heimdall D.enableEventLog)
    (Heimdall.syncBlockHeader D.heimdall D.enableEventLog) (return ())

def getChainHandler (router : UInt64) : Result HeaderSyncHandler :=
  if router = ETH_ROUTER then .ok D.ethHandler
  else if router = ONT_ROUTER then .ok D.ontHandler
  else if router = COSMOS_ROUTER then .ok D.cosmosHandler
  else if router = BSC_ROUTER then .ok D.bscHandler
  else if router = QUORUM_ROUTER then .ok D.quorumHandler
  else if router = MSC_ROUTER then .ok D.mscHandler
  else if router = POLYGON_HEIMDALL_ROUTER then .ok D.heimdallHandler
  else if router = STARCOIN_ROUTER then .ok D.starcoinHandler
  else if router ∈ OTHER_ROUTERS then .ok (D.others router)
  else .error (notSupported router)

end SyncDeployment

end Handlers

section Methods

variable {C : Crypto} (D : SyncDeployment C)

def SYNC_GENESIS_HEADER : Bytes := ascii "syncGenesisHeader"

def SYNC_BLOCK_HEADER : Bytes := ascii "syncBlockHeader"

def SYNC_CROSS_CHAIN_MSG : Bytes := ascii "syncCrossChainMsg"

namespace SyncDeployment

/-- The handler for a chain, in a method of the given name. -/
def handlerOf (name : String) (chainID : UInt64) : NativeM HeaderSyncHandler := do
  let sideChain ← wrapM (name ++ ", side_chain_manager.GetSideChain error: ")
    (getSideChain chainID)
  let sideChain ← orFail sideChain (.error (name ++ ", side chain is not registered"))
  let handler ← lift (D.getChainHandler sideChain.router)
  let s ← get
  lift (checkRouterStartBlock D.networkId sideChain.router s.height)
  return handler

def syncGenesisHeader : NativeM Unit := do
  let params ← wrapM "SyncGenesisHeader, contract params deserialize error: "
    (lift (decode SyncGenesisHeaderParam.deserialization (← getInput)))
  let handler ← D.handlerOf "SyncGenesisHeader" params.chainID
  handler.syncGenesisHeader

def syncBlockHeader (clock : Clock) : NativeM Unit := do
  let params ← wrapM "SyncBlockHeader, contract params deserialize error: "
    (lift (decode SyncBlockHeaderParam.deserialization (← getInput)))
  let handler ← D.handlerOf "SyncBlockHeader" params.chainID
  handler.syncBlockHeader clock

def syncCrossChainMsg : NativeM Unit := do
  let params ← wrapM "SyncCrossChainMsg, contract params deserialize error: "
    (lift (decode SyncCrossChainMsgParam.deserialization (← getInput)))
  let handler ← D.handlerOf "SyncCrossChainMsg" params.chainID
  handler.syncCrossChainMsg

def methods (clock : Clock) (method : Bytes) : Option Handler :=
  if method = SYNC_GENESIS_HEADER then some (answered D.syncGenesisHeader)
  else if method = SYNC_BLOCK_HEADER then some (answered (D.syncBlockHeader clock))
  else if method = SYNC_CROSS_CHAIN_MSG then some (answered D.syncCrossChainMsg)
  else none

def syncBlockHeader_timed : Timed D.syncBlockHeader :=
  .bind (.const _) fun _ => .bind (.const _) fun _ => .bind (.const _) fun handler => handler.timed

/-- The contracts of a node in one transaction: the header sync contract, and others that do not
read the clock. -/
def contracts (others : Contracts) (clock : Clock) : Contracts := fun address =>
  if address = HeaderSyncContractAddress then some (D.methods clock) else others address

end SyncDeployment

end Methods

/-- The registered method that a call names. -/
def findMethod (contracts : Contracts) (param : ContractInvokeParam) : Result Handler := do
  let methods ← orFail (contracts param.address) (.error
    ("[Invoke] Native contract address " ++ toHex param.address.val ++ " haven't been registered."))
  orFail (methods param.method) (.error
    ("[Invoke] Native contract " ++ toHex param.address.val ++ " doesn't support this function " ++
      text param.method ++ "."))

/-- A method run in the context of its contract. -/
def runMethod (s : NativeService) (param : ContractInvokeParam) (service : Handler) :
    NativeM Bytes := do
  set (s.enter param)
  if ← pushContext param.address then
    let result ← wrapM "[Invoke] Native serivce function execute error:" service
    popContext
    modify s.leave
    return result
  else
    return []

theorem invoke_eq (contracts : Contracts) :
    invoke contracts = get >>= fun s =>
      lift (decode ContractInvokeParam.deserialization s.input) >>= fun param =>
      lift (findMethod contracts param) >>= runMethod s param := by
  refine bind_congr fun s => bind_congr fun param => ?_
  unfold findMethod
  cases contracts param.address with
  | none => rfl
  | some methods =>
    cases hm : methods param.method with
    | none | some =>
      simp only [orFail, pure_bind, hm]
      rfl

def runMethod_timed (s : NativeService) (param : ContractInvokeParam) {x : Clock → NativeM Unit}
    (h : Timed x) : Timed fun clock => runMethod s param (answered (x clock)) :=
  .bind (.const _) fun _ => .bind (.const _) fun _ => .ite
    (.bind (Timed.wrapM (.bind h fun _ => .const _)) fun _ => .const _) (.const _)

variable {C : Crypto} (D : SyncDeployment C) (others : Contracts)

/-- The call is of the method that reads the clock. -/
def IsSyncBlockHeader (param : ContractInvokeParam) : Prop :=
  param.address = HeaderSyncContractAddress ∧ param.method = SYNC_BLOCK_HEADER

instance : DecidablePred IsSyncBlockHeader := fun param =>
  inferInstanceAs (Decidable (param.address = HeaderSyncContractAddress ∧
    param.method = SYNC_BLOCK_HEADER))

theorem findMethod_syncBlockHeader {param} (h : IsSyncBlockHeader param) (clock : Clock) :
    findMethod (D.contracts others clock) param =
      .ok (answered (D.syncBlockHeader clock)) := by
  have hne : SYNC_BLOCK_HEADER ≠ SYNC_GENESIS_HEADER := by decide
  have hmethods : D.contracts others clock param.address = some (D.methods clock) := if_pos h.1
  have hmethod : D.methods clock param.method = some (answered (D.syncBlockHeader clock)) := by
    rw [SyncDeployment.methods, h.2, if_neg hne, if_pos rfl]
  simp only [findMethod, orFail, hmethods, pure_bind, hmethod]
  rfl

theorem findMethod_other {param} (h : ¬ IsSyncBlockHeader param) (clock clock' : Clock) :
    findMethod (D.contracts others clock) param =
      findMethod (D.contracts others clock') param := by
  by_cases ha : param.address = HeaderSyncContractAddress
  · have hm : param.method ≠ SYNC_BLOCK_HEADER := fun hm => h ⟨ha, hm⟩
    have hmethods (c : Clock) : D.contracts others c param.address = some (D.methods c) := if_pos ha
    have hmethod : D.methods clock param.method = D.methods clock' param.method := by
      rw [SyncDeployment.methods, SyncDeployment.methods, if_neg hm, if_neg hm]
    simp only [findMethod, hmethods, orFail, pure_bind, hmethod]
  · have hmethods (c : Clock) : D.contracts others c param.address = others param.address :=
      if_neg ha
    rw [findMethod, findMethod, hmethods, hmethods]

/-- A call from outside reads the clock where it calls the method of the header sync contract that
takes new headers. -/
def call_timed (s : NativeService) (param : ContractInvokeParam) :
    Timed fun clock => lift (findMethod (D.contracts others clock) param) >>= runMethod s param :=
  if h : IsSyncBlockHeader param then
    .congr (runMethod_timed s param D.syncBlockHeader_timed) fun clock => by
      rw [findMethod_syncBlockHeader D others h clock]
      rfl
  else
    .congr (.const (lift (findMethod (D.contracts others fun _ => 0) param) >>=
      runMethod s param)) fun clock => by
      rw [findMethod_other D others h clock fun _ => 0]

def invoke_timed : Timed fun clock => invoke (D.contracts others clock) :=
  .congr (.bind (.const _) fun s => .bind (.const _) fun param => call_timed D others s param)
    fun clock => invoke_eq (D.contracts others clock)

end Poly.HeaderSync
