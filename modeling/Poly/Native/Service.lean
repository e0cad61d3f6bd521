import Poly.Core.Types
import Poly.Merkle.Hasher
import Poly.Store.CacheDB
import Poly.Lib.Within

/-! The native service: the state a contract call works on and the dispatch to the contracts. -/
namespace Poly.Native

open Lib

/-- What the contracts read of a transaction; the addresses are `none` when they cannot be
derived from its signatures. -/
structure TxView where
  hash : Uint256
  signatureAddresses : Option (List Address)
  deriving DecidableEq

/-- The libraries the contracts call. -/
structure Crypto where
  keys : Keys
  sha256 : Bytes → Uint256
  ripemd160 : Bytes → Address
  toBase58 : Address → Bytes
  addressFromBase58 : Bytes → Result Address
  vrfValidatePublicKey : keys.PublicKey → Bool

/-- Libraries in which a base58 text is the address itself, for runs on fixed inputs. -/
def openCrypto : Crypto where
  keys := openKeys
  sha256 := zeroPad 32
  ripemd160 := zeroPad 20
  toBase58 := Subtype.val
  addressFromBase58 bs :=
    if h : bs.length = 20 then .ok ⟨bs, h⟩ else .error (.error "wrong encoded address")
  vrfValidatePublicKey _ := true

/-- One value of an event. -/
inductive NotifyValue where
  | str (s : Bytes)
  | num (n : ℕ)
  | int (n : ℤ)
  | strs (l : List Bytes)
  | nums (l : List ℕ)
  deriving DecidableEq

structure NotifyEventInfo where
  contractAddress : Address
  states : List NotifyValue
  deriving DecidableEq

structure NativeService where
  cacheDB : CacheDB
  chainID : UInt64
  notifications : List NotifyEventInfo
  input : Bytes
  tx : TxView
  height : UInt32
  time : UInt32
  blockHash : Uint256
  crossHashes : List Uint256
  contexts : List Address
  preExec : Bool
  deriving DecidableEq

abbrev NativeM := StateT NativeService (Except Failure)

abbrev Handler := NativeM Bytes

/-- The registered contracts: a method table for each contract address. -/
abbrev Contracts := Address → Option (Bytes → Option Handler)

def MAX_CONTEXT_LEN : ℕ := 1024

def MAX_NATIVE_VERSION : UInt8 := 0

structure ContractInvokeParam where
  version : UInt8
  address : Address
  method : Bytes
  args : Bytes
  deriving DecidableEq

def ContractInvokeParam.serialization (p : ContractInvokeParam) : Bytes :=
  p.version :: p.address.val ++ Sink.writeVarBytes p.method ++ Sink.writeVarBytes p.args

def ContractInvokeParam.deserialization : Reader Failure ContractInvokeParam := do
  let version ← Source.nextByte (.error "[ContractInvokeParam] deserialize version error")
  failIf (version > MAX_NATIVE_VERSION) (.error (s!"[ContractInvokeParam] current version " ++
    s!"{version} over max native contract version {MAX_NATIVE_VERSION}"))
  let address ← Source.nextAddress (.error "[ContractInvokeParam] deserialize address error")
  let method ← Source.nextVarBytes (.error "[ContractInvokeParam] deserialize method error")
  let args ← Source.nextVarBytes (.error "[ContractInvokeParam] deserialize args error")
  return ⟨version, address, method, args⟩

/-- Run a reader on a byte string, dropping what it leaves. -/
def decode {α : Type} (r : Reader Failure α) (bs : Bytes) : Result α := do
  let (a, _) ← r.run bs
  return a

/-- A result as a step that does not touch the state. -/
def lift {α : Type} (r : Result α) : NativeM α := StateT.lift r

theorem run_lift_ok {α : Type} {r s t} {a : α} :
    (lift r).run s = .ok (a, t) ↔ r = .ok a ∧ s = t := by
  cases r with
  | error e =>
    simp only [reduceCtorEq, false_and, iff_false]
    intro h
    cases h
  | ok b =>
    simp only [Except.ok.injEq]
    exact run_pure_ok

namespace NativeService

variable (s : NativeService)

def callingContext : Address :=
  if s.contexts.length < 2 then Address.empty
  else s.contexts.getD (s.contexts.length - 2) Address.empty

variable (address : Address)

def checkAccountAddress : Bool :=
  match s.tx.signatureAddresses with
  | none => false
  | some addresses => addresses.contains address

def checkContractAddress : Bool :=
  s.callingContext ≠ Address.empty && s.callingContext = address

def checkWitness : Bool :=
  s.checkAccountAddress address || s.checkContractAddress address

end NativeService

/-- A call outside any other call, on an empty storage and without signatures. -/
def sampleService (input : Bytes) (height : UInt32) : NativeService :=
  ⟨CacheDB.new (OverlayDB.new OrderedMap.empty), 0, [], input, ⟨Uint256.empty, some []⟩, height, 0,
    Uint256.empty, [], [], false⟩

section Steps

def getInput : NativeM Bytes := return (← get).input

variable {s : NativeService}

theorem run_getInput_ok {t input} : getInput.run s = .ok (input, t) ↔ s.input = input ∧ s = t := by
  change Except.ok (s.input, s) = _ ↔ _
  rw [Except.ok.injEq, Prod.mk.injEq]

def getCache (key : Bytes) : NativeM (Option Bytes) := return (← get).cacheDB.get key

def putCache (key value : Bytes) : NativeM Unit :=
  modify fun s => { s with cacheDB := s.cacheDB.put key value }

def deleteCache (key : Bytes) : NativeM Unit :=
  modify fun s => { s with cacheDB := s.cacheDB.delete key }

def addNotify (notify : NotifyEventInfo) : NativeM Unit :=
  modify fun s => { s with notifications := s.notifications ++ [notify] }

def putMerkleVal (sha256 : Bytes → Uint256) (data : Bytes) : NativeM Unit :=
  modify fun s => { s with crossHashes := s.crossHashes ++ [Merkle.hashLeaf sha256 data] }

/-- The contexts only grow while they are short enough; the caller reports no error. -/
def pushContext (address : Address) : NativeM Bool := do
  let s ← get
  if s.contexts.length > MAX_CONTEXT_LEN then
    return false
  else
    set { s with contexts := s.contexts ++ [address] }
    return true

theorem pushContext_run (address : Address) (h : s.contexts.length ≤ MAX_CONTEXT_LEN) :
    (pushContext address).run s = .ok (true, { s with contexts := s.contexts ++ [address] }) := by
  refine run_bind_ok.mpr ⟨s, s, rfl, ?_⟩
  rw [if_neg (Nat.not_lt.mpr h)]
  rfl

def popContext : NativeM Unit :=
  modify fun s =>
    if s.contexts.length > 1 then { s with contexts := s.contexts.dropLast } else s

/-- An error of a contract method carries the text of the dispatcher. -/
def wrapM {α : Type} (context : String) (x : NativeM α) : NativeM α :=
  fun s => wrapError context (x.run s)

theorem run_wrapM_ok {α : Type} {context} {x : NativeM α} {r} :
    (wrapM context x).run s = .ok r ↔ x.run s = .ok r :=
  wrapError_ok

/-- An error with a text before and one after it. -/
def wrapBetween {α : Type} (before after : String) (x : NativeM α) : NativeM α :=
  fun s => wrapErrorBetween before after (x.run s)

theorem run_wrapBetween_ok {α : Type} {before after} {x : NativeM α} {r} :
    (wrapBetween before after x).run s = .ok r ↔ x.run s = .ok r :=
  wrapErrorBetween_ok

/-- The service as the called method sees it. -/
def NativeService.enter (s : NativeService) (param : ContractInvokeParam) : NativeService :=
  { s with input := param.args, notifications := [], crossHashes := [] }

/-- The service after a call that left it as `t`. -/
def NativeService.leave (s t : NativeService) : NativeService :=
  { t with
    notifications := s.notifications ++ t.notifications
    crossHashes := t.crossHashes ++ s.crossHashes
    input := s.input }

def invoke (contracts : Contracts) : NativeM Bytes := do
  let s ← get
  let param ← lift (decode ContractInvokeParam.deserialization s.input)
  let methods ← orFail (contracts param.address) (.error
    ("[Invoke] Native contract address " ++ toHex param.address.val ++ " haven't been registered."))
  let service ← orFail (methods param.method) (.error
    ("[Invoke] Native contract " ++ toHex param.address.val ++ " doesn't support this function " ++
      text param.method ++ "."))
  set (s.enter param)
  if ← pushContext param.address then
    let result ← wrapM "[Invoke] Native serivce function execute error:" service
    popContext
    modify s.leave
    return result
  else
    return []

/-- The service as a method called from outside any contract finds it. -/
def NativeService.called (s : NativeService) (param : ContractInvokeParam) : NativeService :=
  { s.enter param with contexts := [param.address] }

/-- A successful call ran one registered method and kept its effects. -/
theorem invoke_ok {contracts} {t : NativeService} {r} (hs : s.contexts = [])
    (h : (invoke contracts).run s = .ok (r, t)) :
    ∃ param methods service u, decode ContractInvokeParam.deserialization s.input = .ok param ∧
      contracts param.address = some methods ∧ methods param.method = some service ∧
      service.run (s.called param) = .ok (r, u) ∧ t.cacheDB = u.cacheDB ∧
      t.crossHashes = u.crossHashes ++ s.crossHashes := by
  simp only [invoke, run_bind_ok, run_get_ok, run_lift_ok, run_orFail_ok, and_assoc,
    exists_and_left, exists_eq_left'] at h
  obtain ⟨param, hparam, methods, hmethods, service, hservice, _, s₀, hset, pushed, s₁, hpush, h⟩ := h
  cases hset
  have hlen : (s.enter param).contexts.length ≤ MAX_CONTEXT_LEN := by
    rw [NativeService.enter, hs]
    exact Nat.zero_le _
  cases ok_unique (pushContext_run _ hlen) hpush
  obtain ⟨result, u, hr, h⟩ := run_bind_ok.mp h
  obtain ⟨_, u₁, hpop, h⟩ := run_bind_ok.mp h
  cases hpop
  obtain ⟨_, u₂, hleave, h⟩ := run_bind_ok.mp h
  cases hleave
  cases h
  have hcalled : s.called param =
      { s.enter param with contexts := (s.enter param).contexts ++ [param.address] } := by
    rw [NativeService.enter, hs]
    rfl
  refine ⟨param, methods, service, u, hparam, hmethods, hservice, ?_, ?_, ?_⟩
  · exact hcalled ▸ run_wrapM_ok.mp hr
  · simp only [NativeService.leave]
    split <;> rfl
  · simp only [NativeService.leave]
    split <;> rfl

/-- A contract method run as a transaction on the block cache: an error leaves no writes. The
block cache behind the transaction cache is the same object throughout. -/
def callContract (handler : Handler) (env : NativeService) (db : OverlayDB) :
    Result Bytes × OverlayDB :=
  match handler.run { env with cacheDB := CacheDB.new db } with
  | .ok (result, t) => (.ok result, { t.cacheDB with backend := db }.commit)
  | .error e => (.error e, db)

end Steps

section Frames

/-- The storage differs under keys of `P` only. -/
structure Writes (P : Bytes → Prop) (s t : NativeService) : Prop where
  get_eq : ∀ k, ¬ P k → t.cacheDB.get k = s.cacheDB.get k
  backend_eq : t.cacheDB.backend = s.cacheDB.backend
  tx_eq : t.tx = s.tx
  height_eq : t.height = s.height

/-- Besides, no cross-chain leaf was added. -/
structure OnlyWrites (P : Bytes → Prop) (s t : NativeService) : Prop extends Writes P s t where
  crossHashes_eq : t.crossHashes = s.crossHashes

variable {P : Bytes → Prop}

theorem Writes.refl (s : NativeService) : Writes P s s := ⟨fun _ _ => rfl, rfl, rfl, rfl⟩

variable {s t : NativeService}

theorem Writes.trans {u} (h₁ : Writes P s t) (h₂ : Writes P t u) : Writes P s u :=
  ⟨fun k hk => (h₂.get_eq k hk).trans (h₁.get_eq k hk), h₂.backend_eq.trans h₁.backend_eq,
    h₂.tx_eq.trans h₁.tx_eq, h₂.height_eq.trans h₁.height_eq⟩

theorem Writes.mono {Q : Bytes → Prop} (h : Writes P s t) (hPQ : ∀ k, P k → Q k) :
    Writes Q s t :=
  { h with get_eq := fun k hk => h.get_eq k fun hp => hk (hPQ k hp) }

theorem OnlyWrites.refl (s : NativeService) : OnlyWrites P s s := ⟨.refl s, rfl⟩

theorem OnlyWrites.trans {u} (h₁ : OnlyWrites P s t) (h₂ : OnlyWrites P t u) :
    OnlyWrites P s u :=
  ⟨h₁.toWrites.trans h₂.toWrites, h₂.crossHashes_eq.trans h₁.crossHashes_eq⟩

theorem OnlyWrites.mono {Q : Bytes → Prop} (h : OnlyWrites P s t) (hPQ : ∀ k, P k → Q k) :
    OnlyWrites Q s t :=
  ⟨h.toWrites.mono hPQ, h.crossHashes_eq⟩

instance : IsPreorder NativeService (OnlyWrites P) where
  refl := OnlyWrites.refl
  trans _ _ _ := OnlyWrites.trans

theorem Writes.put {key : Bytes} (value : Bytes) (h : P key) :
    Writes P s { s with cacheDB := s.cacheDB.put key value } := by
  refine ⟨fun k hk => ?_, rfl, rfl, rfl⟩
  have hne : k ≠ key := by
    rintro rfl
    exact hk h
  exact (CacheDB.get_put s.cacheDB key k value).trans (if_neg hne)

/-- The key is one of `P`, found by instance search. -/
class Owned (P : Bytes → Prop) (key : Bytes) : Prop where
  owned : P key

instance {key value : Bytes} [h : Owned P key] : Within (OnlyWrites P) (putCache key value) :=
  Within.modify fun _ => ⟨.put value h.owned, rfl⟩

instance {key : Bytes} [h : Owned P key] : Within (OnlyWrites P) (deleteCache key) :=
  Within.modify fun _ => ⟨.put [] h.owned, rfl⟩

instance (notify : NotifyEventInfo) : Within (OnlyWrites P) (addNotify notify) :=
  Within.modify fun _ => ⟨⟨fun _ _ => rfl, rfl, rfl, rfl⟩, rfl⟩

section Reads

variable {R : NativeService → NativeService → Prop}

instance {α : Type} {context : String} {x : NativeM α} [h : Within R x] :
    Within R (wrapM context x) :=
  ⟨fun _ _ _ hr => h.of_run (run_wrapM_ok.mp hr)⟩

instance {α : Type} {before after : String} {x : NativeM α} [h : Within R x] :
    Within R (wrapBetween before after x) :=
  ⟨fun _ _ _ hr => h.of_run (run_wrapBetween_ok.mp hr)⟩

variable [IsPreorder NativeService R]

instance (key : Bytes) : Within R (getCache key) := .bind

instance : Within R getInput := .bind

instance {α : Type} (r : Result α) : Within R (lift r) := inferInstanceAs (Within R (StateT.lift r))

end Reads

theorem succeeds_wrapM {α : Type} {context : String} {x : NativeM α} (h : Succeeds x) :
    Succeeds (wrapM context x) := by
  intro s
  obtain ⟨a, t, ha⟩ := h s
  exact ⟨a, t, wrapError_ok.mpr ha⟩

end Frames

/-- What a successful method saw at its end is what the block cache holds. -/
theorem get_callContract_ok {P : Bytes → Prop} {handler} (h : Within (OnlyWrites P) handler)
    {env t db result} (hr : handler.run { env with cacheDB := CacheDB.new db } = .ok (result, t))
    (key : Bytes) :
    (callContract handler env db).2.get (ST_STORAGE :: key) = t.cacheDB.get key := by
  have hdb : { t.cacheDB with backend := db } = t.cacheDB :=
    CacheDB.with_backend_eq (h.of_run hr).backend_eq
  unfold callContract
  rw [hr]
  exact (congrArg (fun c => c.commit.get (ST_STORAGE :: key)) hdb).trans
    (CacheDB.get_commit t.cacheDB key)

/-- A method that writes only keys of `P` leaves the others alone in the block cache. -/
theorem get_callContract {P : Bytes → Prop} {handler} (h : Within (OnlyWrites P) handler)
    (env : NativeService) (db : OverlayDB) {key} (hk : ¬ P key) :
    (callContract handler env db).2.get (ST_STORAGE :: key) =
      db.get (ST_STORAGE :: key) := by
  cases hr : handler.run { env with cacheDB := CacheDB.new db } with
  | error e =>
    unfold callContract
    rw [hr]
  | ok x => exact (get_callContract_ok h hr key).trans ((h.of_run hr).get_eq key hk)

/-- `NewNativeService`. -/
def newNativeService {K : Keys} (sha256 : Bytes → Uint256) (ripemd160 : Bytes → Address)
    (cacheDB : CacheDB) (tx : Transaction K) (time height : UInt32) (blockHash : Uint256)
    (chainID : UInt64) (input : Bytes) (preExec : Bool) : Result NativeService := do
  failIf (tx.chainID ≠ chainID) (.error ("NewNativeService Error: ChainId in Tx not equal to " ++
    s!"current block ChainId, expect: {chainID}, got: {tx.chainID}"))
  let addresses := (tx.getSignatureAddresses K sha256 ripemd160).toOption
  return ⟨cacheDB, chainID, [], input, ⟨tx.hash, addresses⟩, height, time, blockHash, [], [],
    preExec⟩

end Poly.Native
