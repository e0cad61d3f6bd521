import Poly.Governance.Peers

/-! What the chain handlers share: the parameters of a transfer, the keys of the cross chain
manager contract and the record of the transfers already done. -/
namespace Poly.CrossChain

open Lib Native Source Sink

def REQUEST : Bytes := ascii "request"

def DONE_TX : Bytes := ascii "doneTx"

def BLACKED_CHAIN : Bytes := ascii "BlackedChain"

def VOTE_INFO : Bytes := ascii "voteInfo"

/-- A key of the contract. -/
def chainKey (args : List Bytes) : Bytes := concatKey CrossChainManagerContractAddress args

def doneKey (chainID : UInt64) (crossChainID : Bytes) : Bytes :=
  chainKey [DONE_TX, getUint64Bytes chainID, crossChainID]

variable (toChainID : UInt64)

variable (txHash : Bytes)

def requestKey : Bytes :=
  chainKey [REQUEST, getUint64Bytes toChainID, txHash]

structure EntranceParam where
  sourceChainID : UInt64
  height : UInt32
  proof : Bytes
  relayerAddress : Bytes
  extra : Bytes
  headerOrCrossChainMsg : Bytes
  deriving DecidableEq

structure MakeTxParam where
  txHash : Bytes
  crossChainID : Bytes
  fromContractAddress : Bytes
  toChainID : UInt64
  toContractAddress : Bytes
  method : Bytes
  args : Bytes
  deriving DecidableEq

structure ToMerkleValue where
  txHash : Bytes
  fromChainID : UInt64
  makeTxParam : MakeTxParam
  deriving DecidableEq

def EntranceParam.serialization (p : EntranceParam) : Bytes :=
  writeUint64 p.sourceChainID ++ writeUint32 p.height ++ writeVarBytes p.proof ++
    writeVarBytes p.relayerAddress ++ writeVarBytes p.extra ++ writeVarBytes p.headerOrCrossChainMsg

def EntranceParam.deserialization : Reader Failure EntranceParam := do
  let sourceChainID ← nextUint64 (.error "EntranceParam deserialize sourcechainid error")
  let height ← nextUint32 (.error "EntranceParam deserialize height error")
  let proof ← nextVarBytes (.error "EntranceParam deserialize proof error")
  let relayerAddr ← nextVarBytes (.error "EntranceParam deserialize relayerAddr error")
  let extra ← nextVarBytes (.error "EntranceParam deserialize txdata error")
  let msg ← nextVarBytes (.error "EntranceParam deserialize headerOrCrossChainMsg error")
  return ⟨sourceChainID, height, proof, relayerAddr, extra, msg⟩

def MakeTxParam.serialization (p : MakeTxParam) : Bytes :=
  writeVarBytes p.txHash ++ writeVarBytes p.crossChainID ++ writeVarBytes p.fromContractAddress ++
    writeUint64 p.toChainID ++ writeVarBytes p.toContractAddress ++ writeVarBytes p.method ++
    writeVarBytes p.args

def MakeTxParam.deserialization : Reader Failure MakeTxParam := do
  let txHash ← nextVarBytes (.error "MakeTxParam deserialize txHash error")
  let crossChainID ← nextVarBytes (.error "MakeTxParam deserialize crossChainID error")
  let fromContractAddress ← nextVarBytes (.error "MakeTxParam deserialize fromContractAddress error")
  let toChainID ← nextUint64 (.error "MakeTxParam deserialize toChainID error")
  let toContractAddress ← nextVarBytes (.error "MakeTxParam deserialize toContractAddress error")
  let method ← nextVarBytes (.error "MakeTxParam deserialize method error")
  let args ← nextVarBytes (.error "MakeTxParam deserialize args error")
  return ⟨txHash, crossChainID, fromContractAddress, toChainID, toContractAddress, method, args⟩

def ToMerkleValue.serialization (v : ToMerkleValue) : Bytes :=
  writeVarBytes v.txHash ++ writeUint64 v.fromChainID ++ v.makeTxParam.serialization

def ToMerkleValue.deserialization : Reader Failure ToMerkleValue := do
  let txHash ← nextVarBytes (.error "MerkleValue deserialize txHash error")
  let fromChainID ← nextUint64 (.error "MerkleValue deserialize fromChainID error")
  let makeTxParam ← fun bs => wrapError "MerkleValue deserialize makeTxParam error:"
    (MakeTxParam.deserialization.run bs)
  return ⟨txHash, fromChainID, makeTxParam⟩

theorem makeTxParam_run {p : MakeTxParam} (h : p.serialization.length < 2 ^ 64) (rest : Bytes) :
    MakeTxParam.deserialization.run (p.serialization ++ rest) = .ok (p, rest) := by
  have hle := length_le_writeVarBytes
  simp only [MakeTxParam.serialization, List.length_append] at h
  simp (disch := grind) only [MakeTxParam.deserialization, MakeTxParam.serialization,
    List.append_assoc, StateT.run_bind, nextVarBytes_run, nextUint64_run, ok_bind]
  rfl

/-- What was written as a leaf is read back from it, whatever follows. -/
theorem toMerkleValue_run {v : ToMerkleValue} (h : v.serialization.length < 2 ^ 64) (rest : Bytes) :
    ToMerkleValue.deserialization.run (v.serialization ++ rest) = .ok (v, rest) := by
  have hle := length_le_writeVarBytes v.txHash
  simp only [ToMerkleValue.serialization, List.length_append] at h
  simp only [ToMerkleValue.serialization, List.append_assoc]
  refine run_bind_ok.mpr ⟨_, _, nextVarBytes_run _ _ (by omega) _, ?_⟩
  refine run_bind_ok.mpr ⟨_, _, nextUint64_run .., ?_⟩
  exact run_bind_ok.mpr ⟨_, _, wrapError_ok.mpr (makeTxParam_run (by omega) rest), rfl⟩

theorem toMerkleValue_run_sample :
    ToMerkleValue.deserialization.run
      ((ToMerkleValue.mk [1] 2 ⟨[3], [4], [5], 6, [7], [8], [9]⟩).serialization ++ [0]) =
        .ok (⟨[1], 2, ⟨[3], [4], [5], 6, [7], [8], [9]⟩⟩, [0]) :=
  toMerkleValue_run (by decide) [0]

def checkDoneTx (crossChainID : Bytes) (chainID : UInt64) : NativeM Unit := do
  let value ← getCache (doneKey chainID crossChainID)
  failIf value.isSome (.error "checkDoneTx, tx already done")

variable (crossChainID : Bytes)

def putDoneTx (chainID : UInt64) : NativeM Unit :=
  putItem (doneKey chainID crossChainID) crossChainID

def putBlackChain (chainID : UInt64) : NativeM Unit :=
  putItem (chainKey [BLACKED_CHAIN, getUint64Bytes chainID]) (getUint64Bytes chainID)

def checkIfChainBlacked (chainID : UInt64) : NativeM Bool := do
  let chainIDStore ← getCache (chainKey [BLACKED_CHAIN, getUint64Bytes chainID])
  return chainIDStore.isSome

def removeBlackChain (chainID : UInt64) : NativeM Unit :=
  deleteCache (chainKey [BLACKED_CHAIN, getUint64Bytes chainID])

/-- The other names under which the contract stores something: black lists, votes, and the
transactions and signatures that the bitcoin and ripple handlers prepare. -/
def SIDE_NAMES : List Bytes :=
  [BLACKED_CHAIN, VOTE_INFO, ascii "btctx", ascii "btcfromtx", ascii "utxos", ascii "stxos",
    ascii "multiSignInfo", ascii "multisignInfo", ascii "rippleTxInfo"]

/-- Keys that record neither a done transfer nor a request: those of other contracts, and those of
this one under another name. -/
inductive SideKey : Bytes → Prop where
  | contract {c : Address} (hc : c ≠ CrossChainManagerContractAddress) (args : List Bytes) :
      SideKey (concatKey c args)
  | name {name : Bytes} (hn : name ∈ SIDE_NAMES) (args : List Bytes) : SideKey (chainKey (name :: args))

/-- A name that no side name is a prefix of, or extends, has keys of its own. -/
theorem not_sideKey {name} (hpre : ∀ n ∈ SIDE_NAMES, ¬ n <+: name ∧ ¬ name <+: n)
    (args : List Bytes) : ¬ SideKey (chainKey (name :: args)) := by
  intro h
  generalize hk : chainKey (name :: args) = key at h
  cases h with
  | contract hc args' => exact hc (concatKey_inj.mp hk).1.symm
  | name hn args' => exact concatKey_ne (hpre _ hn).2 (hpre _ hn).1 _ _ hk

theorem not_sideKey_doneKey (chainID : UInt64) (crossChainID : Bytes) :
    ¬ SideKey (doneKey chainID crossChainID) := not_sideKey (by decide) _

theorem doneKey_ne_requestKey (chainID toChainID : UInt64) (crossChainID txHash : Bytes) :
    doneKey chainID crossChainID ≠ requestKey toChainID txHash :=
  concatKey_ne (by decide) (by decide) _ _

theorem requestKey_inj {c d a b} (h : requestKey c a = requestKey d b) : c = d ∧ a = b := by
  simpa using concatKey_number_inj h

theorem sideKey_of_nodeManagerKey {key} (h : Governance.NodeManagerKey key) : SideKey key := by
  have hc : NodeManagerContractAddress ≠ CrossChainManagerContractAddress := by decide
  cases h <;> exact .contract hc _

variable {chainID : UInt64} {s t : NativeService}

theorem checkDoneTx_ok {crossChainID} (h : (checkDoneTx crossChainID chainID).run s = .ok ((), t)) :
    s = t ∧ s.cacheDB.get (doneKey chainID crossChainID) = none := by
  obtain ⟨value, u, hg, hf⟩ := run_bind_ok.mp h
  cases hg
  obtain ⟨hnone, rfl⟩ := run_failIf_ok.mp hf
  exact ⟨rfl, Option.not_isSome_iff_eq_none.mp hnone⟩

theorem putDoneTx_ok {crossChainID} (h : (putDoneTx crossChainID chainID).run s = .ok ((), t)) :
    OnlyWrites (· = doneKey chainID crossChainID) s t ∧
      (t.cacheDB.get (doneKey chainID crossChainID)).isSome := by
  have : Owned (· = doneKey chainID crossChainID) (doneKey chainID crossChainID) := ⟨rfl⟩
  have hw : OnlyWrites (· = doneKey chainID crossChainID) s t :=
    Within.of_run (x := putItem _ _) h
  cases h
  refine ⟨hw, ?_⟩
  show (CacheDB.get (s.cacheDB.put _ _) _).isSome
  rw [CacheDB.get_put_self _ (genRawStorageItem_ne_nil _)]
  rfl

/-- What a handler did for source chain `chainID`: the transfer it returns was not recorded before
and is recorded now, and nothing else but side keys was written. -/
structure Proposed (chainID : UInt64) (p : Option MakeTxParam) (s t : NativeService) : Prop where
  writes : OnlyWrites (fun k => SideKey k ∨ ∃ q ∈ p, k = doneKey chainID q.crossChainID) s t
  fresh : ∀ q ∈ p, s.cacheDB.get (doneKey chainID q.crossChainID) = none
  done : ∀ q ∈ p, (t.cacheDB.get (doneKey chainID q.crossChainID)).isSome

theorem Proposed.none (h : OnlyWrites SideKey s t) : Proposed chainID Option.none s t where
  writes := h.mono fun _ hk => .inl hk
  fresh _ hq := by cases hq
  done _ hq := by cases hq

theorem Proposed.guarded {q s₁ s₂ s₃} (hbefore : OnlyWrites SideKey s s₁)
    (hcheck : (checkDoneTx q.crossChainID chainID).run s₁ = .ok ((), s₂))
    (hput : (putDoneTx q.crossChainID chainID).run s₂ = .ok ((), s₃))
    (hafter : OnlyWrites SideKey s₃ t) : Proposed chainID (some q) s t := by
  obtain ⟨rfl, hnone⟩ := checkDoneTx_ok hcheck
  obtain ⟨hw, hsome⟩ := putDoneTx_ok hput
  have hside := not_sideKey_doneKey chainID q.crossChainID
  refine ⟨?_, ?_, ?_⟩
  · have hput' := hw.mono (Q := fun k => SideKey k ∨ ∃ q' ∈ some q,
      k = doneKey chainID q'.crossChainID) fun k hk => .inr ⟨q, rfl, hk⟩
    exact ((hbefore.mono fun _ hk => .inl hk).trans hput').trans (hafter.mono fun _ hk => .inl hk)
  · rintro q' ⟨rfl⟩
    exact (hbefore.get_eq _ hside).symm.trans hnone
  · rintro q' ⟨rfl⟩
    rw [hafter.get_eq _ hside]
    exact hsome

/-- Keys a handler may write: side keys and the record of done transfers. -/
inductive RecordKey : Bytes → Prop where
  | side {k : Bytes} (h : SideKey k) : RecordKey k
  | done (chainID : UInt64) (crossChainID : Bytes) : RecordKey (doneKey chainID crossChainID)

instance (chainID : UInt64) :
    Owned RecordKey (doneKey chainID crossChainID) := ⟨.done _ _⟩

instance (chainID : UInt64) :
    Within (OnlyWrites RecordKey) (checkDoneTx crossChainID chainID) := .bind

instance (chainID : UInt64) :
    Within (OnlyWrites RecordKey) (putDoneTx crossChainID chainID) :=
  inferInstanceAs (Within _ (putItem _ _))

theorem frame_record {α : Type} {x : NativeM α} (h : Within (OnlyWrites SideKey) x) :
    Within (OnlyWrites RecordKey) x :=
  h.mono fun _ _ hw => hw.mono fun _ hk => .side hk

end Poly.CrossChain
