import Poly.Native.Utils

/-! Parameters and keys of the header sync contract. -/
namespace Poly.HeaderSync

open Lib Native Source Sink

def CROSS_CHAIN_MSG : Bytes := ascii "crossChainMsg"

def CURRENT_MSG_HEIGHT : Bytes := ascii "currentMsgHeight"

def BLOCK_HEADER : Bytes := ascii "blockHeader"

def CURRENT_HEADER_HEIGHT : Bytes := ascii "currentHeaderHeight"

def HEADER_INDEX : Bytes := ascii "headerIndex"

def KEY_HEIGHTS : Bytes := ascii "keyHeights"

def GENESIS_HEADER : Bytes := ascii "genesisHeader"

def MAIN_CHAIN : Bytes := ascii "mainChain"

def SYNC_HEADER_NAME : Bytes := ascii "syncHeader"

def SYNC_CROSSCHAIN_MSG : Bytes := ascii "syncCrossChainMsg"

def CONSENSUS_PEER : Bytes := ascii "consensusPeer"

def CONSENSUS_PEER_BLOCK_HEIGHT : Bytes := ascii "consensusPeerBlockHeight"

def EPOCH_SWITCH : Bytes := ascii "epochSwitch"

/-- A key of the contract for one chain. -/
def syncKey (name : Bytes) (chainID : UInt64) : Bytes :=
  concatKey HeaderSyncContractAddress [name, getUint64Bytes chainID]

/-- A key of the contract for one chain and a height or a hash. -/
def syncKeyAt (name : Bytes) (chainID : UInt64) (place : Bytes) : Bytes :=
  concatKey HeaderSyncContractAddress [name, getUint64Bytes chainID, place]

structure SyncGenesisHeaderParam where
  chainID : UInt64
  genesisHeader : Bytes
  deriving DecidableEq

structure SyncBlockHeaderParam where
  chainID : UInt64
  address : Address
  headers : List Bytes
  deriving DecidableEq

structure SyncCrossChainMsgParam where
  chainID : UInt64
  address : Address
  crossChainMsgs : List Bytes
  deriving DecidableEq

def SyncGenesisHeaderParam.serialization (p : SyncGenesisHeaderParam) : Bytes :=
  writeUint64 p.chainID ++ writeVarBytes p.genesisHeader

def SyncGenesisHeaderParam.deserialization : Reader Failure SyncGenesisHeaderParam := do
  let chainID ← nextUint64 (.error "SyncGenesisHeaderParam deserialize chainID error")
  let genesisHeader ← nextVarBytes
    (.error "utils.DecodeVarBytes, deserialize genesisHeader count error")
  return ⟨chainID, genesisHeader⟩

def SyncBlockHeaderParam.serialization (p : SyncBlockHeaderParam) : Bytes :=
  writeUint64 p.chainID ++ p.address.val ++ writeUint64 (UInt64.ofNat p.headers.length) ++
    p.headers.flatMap writeVarBytes

def SyncBlockHeaderParam.deserialization : Reader Failure SyncBlockHeaderParam := do
  let chainID ← nextUint64 (.error "SyncGenesisHeaderParam deserialize chainID error")
  let address ← nextAddress (.error "utils.DecodeAddress, deserialize address error")
  let n ← nextUint64 (.error "utils.DecodeVarUint, deserialize header count error")
  let headers ← Reader.replicate
    (nextVarBytes (.error "utils.DecodeVarBytes, deserialize header error")) n.toNat
  return ⟨chainID, address, headers⟩

def SyncCrossChainMsgParam.serialization (p : SyncCrossChainMsgParam) : Bytes :=
  writeUint64 p.chainID ++ p.address.val ++ writeUint64 (UInt64.ofNat p.crossChainMsgs.length) ++
    p.crossChainMsgs.flatMap writeVarBytes

def SyncCrossChainMsgParam.deserialization : Reader Failure SyncCrossChainMsgParam := do
  let chainID ← nextUint64 (.error "SyncGenesisHeaderParam deserialize chainID error")
  let address ← nextAddress (.error "utils.DecodeAddress, deserialize address error")
  let n ← nextUint64 (.error "utils.DecodeVarUint, deserialize header count error")
  let crossChainMsgs ← Reader.replicate
    (nextVarBytes (.error "utils.DecodeVarBytes, deserialize crossChainMsg error")) n.toNat
  return ⟨chainID, address, crossChainMsgs⟩

def notifyPutHeader (enableEventLog : Bool) (chainID height : UInt64) (blockHash : Bytes) :
    NativeM Unit := do
  if enableEventLog then
    let s ← get
    addNotify ⟨HeaderSyncContractAddress, [.str SYNC_HEADER_NAME, .num chainID.toNat,
      .num height.toNat, .str blockHash, .num s.height.toNat]⟩

def notifyPutCrossChainMsg (enableEventLog : Bool) (chainID : UInt64) (height : UInt32) :
    NativeM Unit := do
  if enableEventLog then
    let s ← get
    addNotify ⟨HeaderSyncContractAddress, [.str SYNC_CROSSCHAIN_MSG, .num chainID.toNat,
      .num height.toNat, .num s.height.toNat]⟩

/-- A step whose error only says that there is no value. -/
def attempt {α : Type} (x : NativeM α) : NativeM (Option α) := fun s =>
  match x.run s with
  | .ok (a, t) => .ok (some a, t)
  | .error (.error _) => .ok (none, s)
  | .error (.panic e) => .error (.panic e)

/-- A handler method as the contract answers for it. -/
def answered (x : NativeM Unit) : Handler := do
  x
  return BYTE_TRUE

theorem answered_ok {x s t r} (h : (answered x).run s = .ok (r, t)) : x.run s = .ok ((), t) := by
  obtain ⟨_, s₁, hx, h⟩ := run_bind_ok.mp h
  cases h
  exact hx

instance {α : Type} {R : NativeService → NativeService → Prop} [IsPreorder NativeService R]
    {x : NativeM α} [Within R x] : Within R (attempt x) := by
  refine ⟨fun s a t hr => ?_⟩
  change (match x.run s with
    | .ok (a, t) => Except.ok (some a, t)
    | .error (.error _) => Except.ok (none, s)
    | .error (.panic e) => Except.error (Failure.panic e)) = _ at hr
  cases hx : x.run s with
  | ok p =>
    rw [hx] at hr
    cases hr
    exact Within.of_run hx
  | error e =>
    rw [hx] at hr
    cases e with
    | error msg =>
      cases hr
      exact refl_of R s
    | panic msg => cases hr

variable (key : Bytes)

/-- A key that holds something keeps holding something. -/
def Keeps (s t : NativeService) : Prop :=
  s.cacheDB.get key ≠ none → t.cacheDB.get key ≠ none

instance : IsPreorder NativeService (Keeps key) where
  refl _ h := h
  trans _ _ _ h₁ h₂ h := h₂ (h₁ h)

instance (key k value : Bytes) : Within (Keeps key) (putItem k value) := by
  refine ⟨fun s u t h hs => ?_⟩
  rw [get_putItem h]
  split
  · simp
  · exact hs

instance (event : NotifyEventInfo) : Within (Keeps key) (addNotify event) :=
  .modify fun _ => id

instance (log : Bool) (chainID height : UInt64) (hash : Bytes) :
    Within (Keeps key) (notifyPutHeader log chainID height hash) := by
  unfold notifyPutHeader
  infer_instance

instance {P : Bytes → Prop} (log : Bool) (chainID height : UInt64)
    (hash : Bytes) : Within (OnlyWrites P) (notifyPutHeader log chainID height hash) := by
  unfold notifyPutHeader
  infer_instance

theorem syncKey_ne {name name'} (h : name.length ≠ name'.length) (c d : UInt64) :
    syncKey name c ≠ syncKey name' d := by
  intro he
  have hflat := congrArg List.length (concatKey_inj.mp he).2
  have hlen (x : UInt64) : (getUint64Bytes x).length = 8 := leBytes_length 8 _
  simp only [List.flatten_cons, List.flatten_nil, List.append_nil, List.length_append, hlen]
    at hflat
  omega

end Poly.HeaderSync
