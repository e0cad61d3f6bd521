import Poly.CrossChain.Entrance
import Poly.Ledger.Execute

/-! Transactions that import a transfer: what one transaction of a block does to the record of done
transfers and to the requests. -/
namespace Poly.CrossChain

open Lib Native Governance Ledger List

variable (C : Crypto) (D : Deployment)

/-- The service on which a transaction that calls `ImportExTransfer` runs it. -/
def importCall (header : Header C.keys) (overlay : OverlayDB) (tx : Transaction C.keys) :
    Option NativeService := do
  let service ← (invokeService C header overlay tx).toOption
  let param ← (decode ContractInvokeParam.deserialization service.input).toOption
  if param.address = CrossChainManagerContractAddress ∧ param.method = IMPORT_OUTER_TRANSFER_NAME then
    some (service.called param)
  else none

/-- The source chain and the transfer that the handler answers such a transaction with. -/
def transferOf (header : Header C.keys) (overlay : OverlayDB) (tx : Transaction C.keys) :
    Option (UInt64 × MakeTxParam) := do
  let s ← importCall C header overlay tx
  let ((c, _, p), _) ← ((importProposal C D).run s).toOption
  let q ← p
  return (c, q)

section Methods

variable {C D}

theorem mem_of_lookup {method : Bytes} {handler : Handler} {l : List (Bytes × Handler)}
    (h : lookup method l = some handler) : (method, handler) ∈ l := by
  obtain ⟨l₁, l₂, rfl, -⟩ := lookup_eq_some_iff.mp h
  exact mem_append_right _ mem_cons_self

instance (c : UInt64) : Owned SideKey (chainKey [BLACKED_CHAIN, getUint64Bytes c]) :=
  ⟨.name (by decide) _⟩

theorem frame_changeBlackChain {method : String} {change : UInt64 → NativeM Unit}
    (h : ∀ c, Within (OnlyWrites SideKey) (change c)) :
    Within (OnlyWrites SideKey) (changeBlackChain C method change) := .bind

theorem frame_answerTrue {x} (h : Within (OnlyWrites SideKey) x) :
    Within (OnlyWrites SideKey) (answerTrue x) := .bind

/-- Every method of the contract but the import writes side keys only. -/
theorem crossChainManager_method {method : Bytes} {handler : Handler}
    (h : lookup method (crossChainManagerContract C D) = some handler) :
    (method = IMPORT_OUTER_TRANSFER_NAME ∧ handler = importExTransfer C D) ∨
      (method ≠ IMPORT_OUTER_TRANSFER_NAME ∧ Within (OnlyWrites SideKey) handler) := by
  have hm := mem_of_lookup h
  simp only [crossChainManagerContract, mem_cons, Prod.mk.injEq, not_mem_nil,
    or_false] at hm
  have hname {name : Bytes} (hn : name ≠ IMPORT_OUTER_TRANSFER_NAME) (hmethod : method = name) :
      method ≠ IMPORT_OUTER_TRANSFER_NAME := hmethod ▸ hn
  rcases hm with ⟨hm, rfl⟩ | ⟨hm, rfl⟩ | ⟨hm, rfl⟩ | ⟨hm, rfl⟩ | ⟨hm, rfl⟩ | ⟨hm, rfl⟩
  · exact .inl ⟨hm, rfl⟩
  · exact .inr ⟨hname (by decide) hm, frame_answerTrue D.frame_multiSign⟩
  · exact .inr ⟨hname (by decide) hm, frame_answerTrue D.frame_multiSignRipple⟩
  · exact .inr ⟨hname (by decide) hm, frame_answerTrue D.frame_reconstructRippleTx⟩
  · exact .inr ⟨hname (by decide) hm,
      frame_changeBlackChain fun _ => inferInstanceAs (Within _ (putItem _ _))⟩
  · exact .inr ⟨hname (by decide) hm,
      frame_changeBlackChain fun _ => inferInstanceAs (Within _ (deleteCache _))⟩

theorem contracts_method {param : ContractInvokeParam} {methods : Bytes → Option Handler} {handler}
    (hc : D.contracts C param.address = some methods) (hm : methods param.method = some handler) :
    (param.address = CrossChainManagerContractAddress ∧
        param.method = IMPORT_OUTER_TRANSFER_NAME ∧ handler = importExTransfer C D) ∨
      (¬ (param.address = CrossChainManagerContractAddress ∧
        param.method = IMPORT_OUTER_TRANSFER_NAME) ∧ Within (OnlyWrites SideKey) handler) := by
  unfold Deployment.contracts at hc
  split at hc
  next haddress =>
    cases hc
    rcases crossChainManager_method hm with ⟨hname, rfl⟩ | ⟨hname, hw⟩
    · exact .inl ⟨haddress, hname, rfl⟩
    · exact .inr ⟨fun h => hname h.2, hw⟩
  next haddress =>
    refine .inr ⟨fun h => haddress h.1, ?_⟩
    split at hc
    · cases hc
      exact (frame_nodeManagerContract C _ (mem_of_lookup hm)).mono fun _ _ hw =>
        hw.mono fun _ hk => sideKey_of_nodeManagerKey hk
    · exact D.frame_others hc hm

end Methods

section Transaction

variable {C D}

/-- A service made for a transaction of a block. -/
structure Fresh (header : Header C.keys) (overlay : OverlayDB) (tx : Transaction C.keys)
    (s : NativeService) : Prop where
  cacheDB_eq : s.cacheDB = CacheDB.new overlay
  hash_eq : s.tx.hash = tx.hash
  height_eq : s.height = header.height
  crossHashes_eq : s.crossHashes = []
  contexts_eq : s.contexts = []

theorem invokeService_ok {header overlay tx s} (h : invokeService C header overlay tx = .ok s) :
    Fresh header overlay tx s := by
  obtain ⟨blockHash, -, h⟩ := bind_ok.mp h
  obtain ⟨_, -, h⟩ := bind_ok.mp (wrapError_ok.mp h)
  cases h
  exact ⟨rfl, rfl, rfl, rfl, rfl⟩

/-- What a successful transaction ran: an import, or a method that writes side keys only. The
service `u` is the one it left, whose storage the block cache then holds. -/
theorem handleInvokeTransaction_cases {header : Header C.keys} {overlay} {overlay' : OverlayDB}
    {tx : Transaction C.keys} {notify hashes}
    (h : handleInvokeTransaction C (D.contracts C) header overlay tx =
      .ok (overlay', notify, hashes)) :
    ∃ s u, s.cacheDB = CacheDB.new overlay ∧ s.tx.hash = tx.hash ∧ s.height = header.height ∧
      s.crossHashes = [] ∧ hashes = u.crossHashes ∧
      (∀ k, overlay'.get (ST_STORAGE :: k) = u.cacheDB.get k) ∧ Writes (TxKey tx.hash) s u ∧
      ((importCall C header overlay tx = some s ∧
          ∃ r, (importExTransfer C D).run s = .ok (r, u)) ∨
        (importCall C header overlay tx = none ∧ OnlyWrites SideKey s u)) := by
  obtain ⟨service, r, t, hs, hr, rfl, -, rfl⟩ := handleInvokeTransaction_ok h
  have hfresh := invokeService_ok hs
  obtain ⟨param, methods, handler, u, hp, hc, hm, hrun, hdb, hhashes⟩ :=
    invoke_ok hfresh.contexts_eq hr
  have hcall : importCall C header overlay tx =
      if param.address = CrossChainManagerContractAddress ∧
        param.method = IMPORT_OUTER_TRANSFER_NAME then some (service.called param) else none := by
    unfold importCall
    rw [hs]
    show (decode ContractInvokeParam.deserialization service.input).toOption.bind _ = _
    rw [hp]
    rfl
  have hcases : (importCall C header overlay tx = some (service.called param) ∧
        ∃ r, (importExTransfer C D).run (service.called param) = .ok (r, u)) ∨
      (importCall C header overlay tx = none ∧ OnlyWrites SideKey (service.called param) u) := by
    rcases contracts_method hc hm with ⟨haddress, hmethod, rfl⟩ | ⟨hnot, hw⟩
    · exact .inl ⟨hcall.trans (if_pos ⟨haddress, hmethod⟩), r, hrun⟩
    · exact .inr ⟨hcall.trans (if_neg hnot), hw.of_run hrun⟩
  have hwrites : Writes (TxKey tx.hash) (service.called param) u := by
    rcases hcases with ⟨-, r', hi⟩ | ⟨-, hw⟩
    · exact hfresh.hash_eq ▸ importExTransfer_writes hi
    · exact hw.toWrites.mono fun _ hk => .record (.side hk)
  have hback : t.cacheDB.backend = overlay := by
    rw [hdb, hwrites.backend_eq]
    exact congrArg CacheDB.backend hfresh.cacheDB_eq
  refine ⟨service.called param, u, hfresh.cacheDB_eq, hfresh.hash_eq, hfresh.height_eq, rfl, ?_, ?_,
    hwrites, hcases⟩
  · rw [hhashes, hfresh.crossHashes_eq, append_nil]
  · intro k
    rw [CacheDB.with_backend_eq hback, CacheDB.get_commit, hdb]

end Transaction

/-- A handler that takes the transfer from the extra data as it stands. -/
def openHandler : GuardedHandler where
  paramsError := "MakeDepositProposal, contract params deserialize error: "
  doneError := "MakeDepositProposal, check done transaction error:"
  verify params := some <$> lift (decode MakeTxParam.deserialization params.extra)
  complete _ value := pure value
  frame_verify _ := inferInstance
  frame_complete := frame_complete_pure
  crossChainID_complete := crossChainID_complete_pure

/-- A node of the main network on which every chain but those of the vote handler is open. -/
def openDeployment : Deployment where
  networkId := NETWORK_ID_MAIN_NET
  enableEventLog := true
  handlers _ := openHandler
  btcMakeTransaction _ _ := pure ()
  rippleMakeTransaction _ _ := pure ()
  multiSign := pure ()
  multiSignRipple := pure ()
  reconstructRippleTx := pure ()
  others _ := none
  frame_btcMakeTransaction _ _ := inferInstance
  frame_rippleMakeTransaction _ _ := inferInstance
  frame_multiSign := inferInstance
  frame_multiSignRipple := inferInstance
  frame_reconstructRippleTx := inferInstance
  frame_others := fun h => by cases h

def sampleSideChain (chainID router : UInt64) : Bytes × Bytes :=
  (ST_STORAGE :: sideChainKey chainID, genRawStorageItem (Sink.writeVarBytes Address.empty.val ++
    Sink.writeVarUint chainID ++ Sink.writeVarUint router ++ Sink.writeVarBytes [] ++
    Sink.writeVarUint 0 ++ Sink.writeVarBytes []))

/-- Two registered chains. -/
def sampleStore : KVStore :=
  [sampleSideChain 2 2, sampleSideChain 3 3].foldl (fun m x => m.insert x.1 x.2) OrderedMap.empty

def sampleHeader (height : UInt32) : Header openCrypto.keys :=
  ⟨⟨0, 0, Uint256.empty, Uint256.empty, Uint256.empty, Uint256.empty, 0, height, 0, [],
    Address.empty⟩, [], []⟩

def sampleParam (crossChainID : Bytes) : MakeTxParam := ⟨[1], crossChainID, [], 3, [], [], []⟩

/-- A transaction that imports from the first chain a transfer to the second. -/
def sampleImport (nonce : UInt32) (crossChainID : Bytes) : Transaction openCrypto.keys where
  version := 0
  nonce := nonce
  chainID := 0
  gasLimit := 0
  gasPrice := 0
  code := ContractInvokeParam.serialization ⟨0, CrossChainManagerContractAddress,
    IMPORT_OUTER_TRANSFER_NAME, EntranceParam.serialization
      ⟨2, 0, [], [], (sampleParam crossChainID).serialization, []⟩⟩
  payer := Address.empty
  sigs := []
  raw := []
  hash := zeroPad 32 [UInt8.ofNat nonce.toNat]
  signedAddr := []

end Poly.CrossChain
