import Poly.Native.Service

/-! Contract methods as programs over the operations of the native service: every method reads its
call, reads and writes storage, notifies, and records cross-chain leaves. -/
namespace Poly.Native

open Lib

/-- What a method reads of its call besides the storage. -/
structure CallContext where
  chainID : UInt64
  input : Bytes
  tx : TxView
  height : UInt32
  time : UInt32
  blockHash : Uint256
  contexts : List Address
  preExec : Bool
  deriving DecidableEq

def NativeService.context (s : NativeService) : CallContext :=
  ⟨s.chainID, s.input, s.tx, s.height, s.time, s.blockHash, s.contexts, s.preExec⟩

/-- A run of service operations; the values read decide how it goes on. -/
inductive Program (α : Type) : Type where
  | done (a : α)
  | fail (e : Failure)
  | get (key : Bytes) (next : Option Bytes → Program α)
  | put (key value : Bytes) (next : Program α)
  | delete (key : Bytes) (next : Program α)
  | notify (event : NotifyEventInfo) (next : Program α)
  | putMerkleVal (data : Bytes) (next : Program α)

/-- A write to contract storage. -/
inductive Write where
  | put (key value : Bytes)
  | delete (key : Bytes)
  deriving DecidableEq

/-- Contract storage as a method sees it. -/
abbrev View := Bytes → Option Bytes

namespace Write

def key : Write → Bytes
  | put key _ => key
  | delete key => key

/-- The value that a write leaves in a cache; a deletion leaves the empty one. -/
def value : Write → Bytes
  | put _ value => value
  | delete _ => []

def onView (view : View) (w : Write) : View :=
  fun k => if k = w.key then nonNil w.value else view k

def onMemDB (m : MemDB) (w : Write) : MemDB := m.insert (ST_STORAGE :: w.key) w.value

variable (db : CacheDB)

def onCache : Write → CacheDB
  | put key value => db.put key value
  | delete key => db.delete key

theorem get_onCache (w : Write) : (w.onCache db).get = onView db.get w := by
  funext k
  cases w with
  | put key value => exact CacheDB.get_put db key k value
  | delete key => exact CacheDB.get_put db key k []

variable (writes : List Write)

theorem memdb_foldl_onCache (db : CacheDB) :
    (writes.foldl onCache db).memdb = writes.foldl onMemDB db.memdb ∧
      (writes.foldl onCache db).backend = db.backend := by
  induction writes generalizing db with
  | nil => exact ⟨rfl, rfl⟩
  | cons w writes ih =>
    cases w with
    | put k v => exact ih _
    | delete k => exact ih _

/-- Under each key the last write counts, and what was there before if there is none. -/
theorem get_foldl_onMemDB (m : MemDB) (k : Bytes) :
    (writes.foldl onMemDB m).get k =
      ((writes.foldl onMemDB OrderedMap.empty).get k).or (m.get k) := by
  induction writes using List.reverseRecOn with
  | nil => rfl
  | append_singleton writes w ih =>
    rw [List.foldl_concat, List.foldl_concat, onMemDB, onMemDB, OrderedMap.get_insert,
      OrderedMap.get_insert]
    split_ifs
    · rfl
    · exact ih

theorem commit_foldl_onCache (overlay : OverlayDB) :
    (writes.foldl onCache (CacheDB.new overlay)).commit =
      ⟨overlay.store, writes.foldl onMemDB overlay.memdb⟩ := by
  obtain ⟨hmem, hback⟩ := memdb_foldl_onCache writes (CacheDB.new overlay)
  have hstore := CacheDB.commit_store (writes.foldl onCache (CacheDB.new overlay))
  have hwrites : (writes.foldl onCache (CacheDB.new overlay)).commit.memdb =
      writes.foldl onMemDB overlay.memdb := by
    apply OrderedMap.ext_get
    intro k
    rw [CacheDB.get_commit_memdb, hmem, hback, get_foldl_onMemDB writes overlay.memdb]
    rfl
  rw [hback] at hstore
  cases hc : (writes.foldl onCache (CacheDB.new overlay)).commit with
  | mk store memdb =>
    rw [hc] at hstore hwrites
    rw [← hwrites, ← show store = overlay.store from hstore]

end Write

/-- What a program did until it ended. -/
structure Trace (α : Type) where
  result : Result α
  writes : List Write
  leaves : List Bytes
  notify : List NotifyEventInfo

namespace Program

variable {α : Type}

/-- The program as a contract method runs it. -/
def run (sha256 : Bytes → Uint256) : Program α → NativeM α
  | done a => pure a
  | fail e => throw e
  | get key next => do
    let value ← getCache key
    (next value).run sha256
  | put key value next => do
    putCache key value
    next.run sha256
  | delete key next => do
    deleteCache key
    next.run sha256
  | notify event next => do
    addNotify event
    next.run sha256
  | putMerkleVal data next => do
    Native.putMerkleVal sha256 data
    next.run sha256

/-- The operations of a run over a given storage, in order. -/
def trace : Program α → View → Trace α
  | done a, _ => ⟨.ok a, [], [], []⟩
  | fail e, _ => ⟨.error e, [], [], []⟩
  | get key next, view => (next (view key)).trace view
  | put key value next, view =>
    let t := next.trace (Write.onView view (.put key value))
    { t with writes := .put key value :: t.writes }
  | delete key next, view =>
    let t := next.trace (Write.onView view (.delete key))
    { t with writes := .delete key :: t.writes }
  | notify event next, view =>
    let t := next.trace view
    { t with notify := event :: t.notify }
  | putMerkleVal data next, view =>
    let t := next.trace view
    { t with leaves := data :: t.leaves }

/-- The service after the operations of a run. -/
def after (sha256 : Bytes → Uint256) (t : Trace α) (s : NativeService) : NativeService :=
  { s with
    cacheDB := t.writes.foldl Write.onCache s.cacheDB
    crossHashes := s.crossHashes ++ t.leaves.map (Merkle.hashLeaf sha256)
    notifications := s.notifications ++ t.notify }

/-- A method that ends without an error has done what its trace says, and nothing else. -/
theorem run_eq (sha256 : Bytes → Uint256) (p : Program α) (s : NativeService) :
    (p.run sha256).run s = (p.trace s.cacheDB.get).result >>= fun a =>
      .ok (a, after sha256 (p.trace s.cacheDB.get) s) := by
  induction p generalizing s with
  | done a =>
    have hafter : after sha256 ((done a).trace s.cacheDB.get) s = s := by simp [after, trace]
    exact congrArg (fun t => Except.ok (a, t)) hafter.symm
  | fail e => rfl
  | get key next ih => exact ih (s.cacheDB.get key) s
  | put key value next ih =>
    have hnext := ih { s with cacheDB := s.cacheDB.put key value }
    rw [show (s.cacheDB.put key value).get = Write.onView s.cacheDB.get (.put key value) from
      Write.get_onCache s.cacheDB (.put key value)] at hnext
    exact hnext
  | delete key next ih =>
    have hnext := ih { s with cacheDB := s.cacheDB.delete key }
    rw [show (s.cacheDB.delete key).get = Write.onView s.cacheDB.get (.delete key) from
      Write.get_onCache s.cacheDB (.delete key)] at hnext
    exact hnext
  | notify event next ih =>
    have hnext := ih { s with notifications := s.notifications ++ [event] }
    have hafter : after sha256 (next.trace s.cacheDB.get)
        { s with notifications := s.notifications ++ [event] } =
          after sha256 ((notify event next).trace s.cacheDB.get) s := by
      simp [after, trace]
    rw [hafter] at hnext
    exact hnext
  | putMerkleVal data next ih =>
    have hnext := ih { s with crossHashes := s.crossHashes ++ [Merkle.hashLeaf sha256 data] }
    have hafter : after sha256 (next.trace s.cacheDB.get)
        { s with crossHashes := s.crossHashes ++ [Merkle.hashLeaf sha256 data] } =
          after sha256 ((putMerkleVal data next).trace s.cacheDB.get) s := by
      simp [after, trace]
    rw [hafter] at hnext
    exact hnext

end Program

/-- The contracts of a chain, each method given by its program. -/
abbrev ProgramContracts := Address → Option (Bytes → Option (CallContext → Program Bytes))

variable (sha256 : Bytes → Uint256)

variable (method : CallContext → Program Bytes)

def methodHandler : Handler := do
  let s ← get
  (method s.context).run sha256

variable (programs : ProgramContracts)

def contractsOf : Contracts :=
  fun address => (programs address).map fun methods method =>
    (methods method).map (methodHandler sha256)

variable (ctx : CallContext)

/-- The service of a call from outside, over a given transaction cache. -/
def CallContext.service (cacheDB : CacheDB) : NativeService :=
  ⟨cacheDB, ctx.chainID, [], ctx.input, ctx.tx, ctx.height, ctx.time, ctx.blockHash, [],
    ctx.contexts, ctx.preExec⟩

/-- The call as the method that it names sees it. -/
def CallContext.called (param : ContractInvokeParam) : CallContext :=
  { ctx with input := param.args, contexts := [param.address] }

/-- The program that a call runs. -/
def calledProgram : Result (Program Bytes) := do
  let param ← decode ContractInvokeParam.deserialization ctx.input
  let methods ← orFail (programs param.address) (.error
    ("[Invoke] Native contract address " ++ toHex param.address.val ++ " haven't been registered."))
  let method ← orFail (methods param.method) (.error
    ("[Invoke] Native contract " ++ toHex param.address.val ++ " doesn't support this function " ++
      text param.method ++ "."))
  return method (ctx.called param)

theorem lift_run {α : Type} (r : Result α) (s : NativeService) :
    (lift r).run s = r >>= fun a => .ok (a, s) := by
  cases r <;> rfl

theorem orFail_run {α : Type} (o : Option α) (e : Failure) (s : NativeService) :
    (orFail o e : NativeM α).run s = (orFail o e : Result α) >>= fun a => .ok (a, s) := by
  cases o <;> rfl

/-- A call from outside any contract runs the program it names on the storage it finds; the writes,
the events and the leaf hashes it leaves are those of the program. -/
theorem invoke_contractsOf {ctx} (hctx : ctx.contexts = []) (cacheDB : CacheDB) :
    (invoke (contractsOf sha256 programs)).run (ctx.service cacheDB) >>= (fun x =>
        .ok (x.2.cacheDB, x.2.notifications, x.2.crossHashes)) =
      calledProgram programs ctx >>= fun p =>
      wrapError "[Invoke] Native serivce function execute error:"
        (p.trace cacheDB.get).result >>= fun _ =>
      .ok ((p.trace cacheDB.get).writes.foldl Write.onCache cacheDB, (p.trace cacheDB.get).notify,
        (p.trace cacheDB.get).leaves.map (Merkle.hashLeaf sha256)) := by
  have hlen (param : ContractInvokeParam) :
      ((ctx.service cacheDB).enter param).contexts.length ≤ MAX_CONTEXT_LEN := by
    rw [CallContext.service, hctx]
    exact Nat.zero_le _
  simp only [invoke, calledProgram, StateT.run_bind, StateT.run_get, pure_bind, lift_run, bind_assoc,
    ok_bind, orFail_run]
  refine bind_congr fun param => ?_
  cases hp : programs param.address with
  | none =>
    simp only [contractsOf, hp]
    rfl
  | some methods =>
    cases hm : methods param.method with
    | none =>
      simp only [contractsOf, hp, hm, orFail, Option.map_some, Option.map_none, pure_bind]
      rfl
    | some method =>
      simp only [contractsOf, hp, hm, orFail, Option.map_some, pure_bind, ok_bind, StateT.run_set,
        pushContext_run _ (hlen param), if_true]
      have hcalled : { (ctx.service cacheDB).enter param with
          contexts := ((ctx.service cacheDB).enter param).contexts ++ [param.address] } =
            (ctx.called param).service cacheDB := by
        simp [NativeService.enter, CallContext.service, CallContext.called, hctx]
      have hrun : (wrapM "[Invoke] Native serivce function execute error:"
          (methodHandler sha256 method)).run ((ctx.called param).service cacheDB) = _ :=
        congrArg (wrapError _) (Program.run_eq sha256 (method _) _)
      have hcontext : ((ctx.called param).service cacheDB).context = ctx.called param := rfl
      have hcache : ((ctx.called param).service cacheDB).cacheDB = cacheDB := rfl
      rw [hcalled, StateT.run_bind, hrun, hcontext, hcache]
      cases ((method (ctx.called param)).trace cacheDB.get).result with
      | error e => cases e <;> rfl
      | ok r =>
        -- the context of the call stays on the service, which nothing reads after the call
        simp [wrapError, popContext, Program.after, CallContext.service, CallContext.called,
          NativeService.leave]

end Poly.Native
