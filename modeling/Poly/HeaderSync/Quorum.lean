import Poly.Governance.Peers
import Poly.HeaderSync.Common
import Poly.Lib.Insertion

/-! The header sync handler of Quorum chains with Istanbul consensus. -/
namespace Poly.HeaderSync

open Lib Native List

/-- The proposer's seal is the field `Seal`. -/
structure IstanbulExtra where
  validators : List Address
  proposerSeal : Bytes
  committedSeal : List Bytes
  deriving DecidableEq

/-- The go-ethereum calls of the handler. A header is what its JSON reader and its hash make of
it. Unmarshalling fills an existing header, and the decoded addresses fit in memory. -/
structure QuorumLib where
  Header : Type
  newHeader : Header
  unmarshal : Bytes → Header → Result Header
  number : Header → UInt64
  mixDigest : Header → Uint256
  extra : Header → Bytes
  withExtra : Header → Bytes → Header
  hash : Header → Uint256
  rlpHash : Option Header → Uint256
  decodeExtra : Bytes → Result IstanbulExtra
  encodeExtra : IstanbulExtra → Result Bytes
  getSignatureAddress : Bytes → Bytes → Result Address
  addressHex : Address → String
  validators_size : ∀ bs e, decodeExtra bs = .ok e → 20 * e.validators.length < 2 ^ 63

def IstanbulExtraVanity : ℕ := 32

def IstanbulDigest : Uint256 := ⟨ascii "ctical byzantine fault tolerance", by decide⟩

/-- `QuorumValSet`. -/
abbrev QuorumValSet := List Address

namespace QuorumValSet

def serialize (vs : QuorumValSet) : Bytes := vs.flatMap Subtype.val

/-- The addresses cannot run out once the size is right. -/
def deserialize (raw : Bytes) : Result QuorumValSet := do
  failIf (raw.length % 20 ≠ 0) (.error s!"wrong size of raw addresses: {raw.length}")
  decode (Reader.replicate
    (Source.nextAddress (.error "failed to get next 20 bytes for the address"))
    (raw.length / 20)) raw

def exist (vs : QuorumValSet) (address : Address) : Bool := vs.any (address = ·)

def getByAddress (vs : QuorumValSet) (addr : Address) : Option ℕ := vs.findIdx? (addr = ·)

def ifChanged (vs another : QuorumValSet) : Bool :=
  vs.length ≠ another.length || (vs.zip another).any fun x => x.1 ≠ x.2

/-- The loop of `justOneChanged` from the positions `i` of the shorter and `j` of the longer list.
The element of the longer list that `j` skips to is not compared. -/
def justOneLoop (more : QuorumValSet) : QuorumValSet → ℕ → ℕ → Result Unit
  | [], _, _ => .ok ()
  | a :: less, i, j => do
    let b ← goIndex more j
    if a ≠ b then
      failIf (j + 1 - i > 1) (.error "more than one validator changed")
      justOneLoop more less (i + 1) (j + 1 + 1)
    else
      justOneLoop more less (i + 1) (j + 1)

def justOneChanged (vs another : QuorumValSet) : Result Unit :=
  if vs.length = another.length + 1 then justOneLoop vs another 0 0
  else if another.length = vs.length + 1 then justOneLoop another vs 0 0
  else .error (.error
    s!"length of new validitors is {another.length} but original one is {vs.length}")

/-- `F`: one third of the validators, rounded up, less one. -/
def faults (vs : QuorumValSet) : ℤ := ((vs.length + 2) / 3 : ℕ) - 1

variable {more less vs another : QuorumValSet} {i : ℕ}

theorem justOneLoop_cons {a j} (h : justOneLoop more (a :: less) i j = .ok ()) :
    ∃ b, more.drop j = b :: more.drop (j + 1) ∧
      ((a = b ∧ justOneLoop more less (i + 1) (j + 1) = .ok ()) ∨
        (a ≠ b ∧ j + 1 - i ≤ 1 ∧ justOneLoop more less (i + 1) (j + 2) = .ok ())) := by
  obtain ⟨b, hb, h⟩ := bind_ok.mp h
  obtain ⟨hlt, rfl⟩ := List.getElem?_eq_some_iff.mp (orFail_ok.mp hb)
  refine ⟨more[j], drop_eq_getElem_cons hlt, ?_⟩
  split at h
  next hne =>
    obtain ⟨_, hle, h⟩ := bind_ok.mp h
    exact .inr ⟨hne, Nat.not_lt.mp (failIf_ok.mp hle), h⟩
  next heq => exact .inl ⟨not_not.mp heq, h⟩

theorem justOneLoop_skipped (hlen : more.length = i + less.length + 1)
    (h : justOneLoop more less i (i + 1) = .ok ()) : more.drop (i + 1) = less := by
  induction less generalizing i with
  | nil =>
    apply drop_eq_nil_of_le
    exact hlen.le
  | cons a less ih =>
    obtain ⟨b, hdrop, hstep⟩ := justOneLoop_cons h
    rcases hstep with ⟨rfl, hrest⟩ | ⟨-, hle, -⟩
    · rw [hdrop, ih (by rw [hlen, length_cons]; omega) hrest]
    · omega

/-- The loop accepts one more element at the end, or two elements in the place of another. -/
theorem justOneLoop_ok (hlen : more.length = i + less.length + 1)
    (h : justOneLoop more less i i = .ok ()) :
    (∃ x, more.drop i = less ++ [x]) ∨ OneForTwo less (more.drop i) := by
  induction less generalizing i with
  | nil =>
    left
    apply length_eq_one_iff.mp
    rw [length_drop, hlen, length_nil]
    omega
  | cons a less ih =>
    rw [length_cons] at hlen
    obtain ⟨b, hdrop, hstep⟩ := justOneLoop_cons h
    rw [hdrop]
    rcases hstep with ⟨rfl, hrest⟩ | ⟨hne, -, hrest⟩
    · rcases ih (by omega) hrest with ⟨x, hx⟩ | ⟨p, a', b', c, q, hl, hm, hne⟩
      · exact .inl ⟨x, by rw [hx, cons_append]⟩
      · exact .inr ⟨a :: p, a', b', c, q, by rw [hl, cons_append], by rw [hm, cons_append],
          hne⟩
    · right
      have hlt : i + 1 < more.length := by omega
      refine ⟨[], a, b, more[i + 1], less, rfl, ?_, hne⟩
      rw [drop_eq_getElem_cons hlt, justOneLoop_skipped (by omega) hrest]
      rfl

theorem justOneLoop_oneInserted (hlen : more.length = less.length + 1)
    (h : justOneLoop more less 0 0 = .ok ()) (hr : ResumesNext less more) :
    OneInserted less more := by
  rcases justOneLoop_ok (by omega) h with ⟨x, hx⟩ | hx
  · exact ⟨less, x, [], (append_nil less).symm, hx⟩
  · exact OneForTwo.oneInserted hx hr

/-- An accepted change is one insertion or deletion exactly if the lists go on alike after their
first difference. -/
theorem justOneChanged_iff (h : justOneChanged vs another = .ok ()) :
    OneInserted vs another ∨ OneInserted another vs ↔
      ResumesNext vs another ∧ ResumesNext another vs := by
  have hvacuous {l l' : QuorumValSet} (hlen : l'.length ≠ l.length + 1) : ResumesNext l l' := by
    rintro p a b c q rfl rfl -
    simp only [length_append, length_cons] at hlen
    omega
  constructor
  · rintro (hin | hin)
    · exact ⟨hin.resumesNext, hvacuous (by rw [hin.length_eq]; omega)⟩
    · exact ⟨hvacuous (by rw [hin.length_eq]; omega), hin.resumesNext⟩
  · rintro ⟨hr, hr'⟩
    unfold justOneChanged at h
    split at h
    next hlen => exact .inr (justOneLoop_oneInserted hlen h hr')
    · split at h
      next hlen => exact .inl (justOneLoop_oneInserted hlen h hr)
      · cases h

theorem serialize_length (vs : QuorumValSet) : vs.serialize.length = 20 * vs.length :=
  length_flatMap_val vs

theorem deserialize_serialize (vs : QuorumValSet) : deserialize vs.serialize = .ok vs := by
  have haddr : Reader.RoundTrip
      (Source.nextAddress (Failure.error "failed to get next 20 bytes for the address"))
      Subtype.val fun _ => True := fun x _ rest => nextFixed_run _ x rest
  have hrun := Reader.roundTrip_replicate haddr vs (fun _ _ => trivial) []
  rw [append_nil] at hrun
  unfold deserialize
  rw [serialize_length, failIf_of_not (by omega), Nat.mul_div_cancel_left _ (by omega), ok_bind]
  exact bind_ok.mpr ⟨_, hrun, rfl⟩

end QuorumValSet

section Tools

variable (L : QuorumLib)

def extractIstanbulExtra (h : L.Header) : Result IstanbulExtra := do
  failIf ((L.extra h).length < IstanbulExtraVanity) (.error "invalid istanbul header extra-data")
  L.decodeExtra ((L.extra h).drop IstanbulExtraVanity)

def istanbulFilteredHeader (h : L.Header) (keepSeal : Bool) : Option L.Header :=
  match extractIstanbulExtra L h with
  | .error _ => none
  | .ok istanbulExtra =>
    let kept := if keepSeal then istanbulExtra.proposerSeal else []
    match L.encodeExtra { istanbulExtra with proposerSeal := kept, committedSeal := [] } with
    | .error _ => none
    | .ok payload => some (L.withExtra h ((L.extra h).take IstanbulExtraVanity ++ payload))

def sigHash (h : L.Header) : Uint256 := L.rlpHash (istanbulFilteredHeader L h false)

def getQuorumHeaderHash (h : L.Header) : Uint256 :=
  if L.mixDigest h = IstanbulDigest then
    match istanbulFilteredHeader L h true with
    | some istanbulHeader => L.hash istanbulHeader
    | none => L.hash h
  else L.hash h

variable (hash : Uint256)

def hashText : String := "0x" ++ toHex hash.val

def prepareCommittedSeal : Bytes := hash.val ++ [2]

def getSigners (sealArr : List Bytes) : Result (List Address) :=
  sealArr.mapM (L.getSignatureAddress (prepareCommittedSeal hash))

def verifySigner (vs : QuorumValSet) (hdr : L.Header) (sig : Bytes) : Result Unit := do
  let addr ← L.getSignatureAddress (sigHash L hdr).val sig
  failIf (vs.getByAddress addr = none)
    (.error ("signer " ++ L.addressHex addr ++ " is not in validators"))

/-- One address in the loop of `verifyCommittedSeals`. An address counts each time it occurs. -/
def countSeal (vs : QuorumValSet) (validSeal : ℕ) (v : Address) : Result ℕ :=
  if vs.exist v then .ok (validSeal + 1)
  else .error (.error ("addess " ++ L.addressHex v ++ " is not in validators"))

def verifyCommittedSeals (vs : QuorumValSet) (extra : IstanbulExtra) (hash : Uint256) :
    Result Unit := do
  let addrs ← wrapError "failed to VerifyCommittedSeals: " (getSigners L hash extra.committedSeal)
  let validSeal ← addrs.foldlM (countSeal L vs) 1
  failIf ((validSeal : ℤ) ≤ vs.faults)
    (.error s!"valid seal not enough: ({validSeal} found, {vs.faults + 1} required)")

def verifyQuorumHeader (vs : QuorumValSet) (hdr : L.Header) (isEpoch : Bool) :
    Result IstanbulExtra := do
  let hash := getQuorumHeaderHash L hdr
  let extra ← wrapError ("extract istanbul extra from header " ++ hashText hash ++ " error: ")
    (extractIstanbulExtra L hdr)
  let checker ← (if isEpoch then do
      failIf (vs.ifChanged extra.validators = false) (.error ("header " ++ hashText hash ++
        " is not epoch header supposed to contains new validators"))
      vs.justOneChanged extra.validators
      pure extra.validators
    else pure vs)
  wrapError "failed to verify signer: " (verifySigner L checker hdr extra.proposerSeal)
  wrapError ("verify committed seals failed for header " ++ hashText hash ++ ": ")
    (verifyCommittedSeals L checker extra hash)
  return extra

variable {L} {vs : QuorumValSet} {hdr : L.Header} {extra : IstanbulExtra}

theorem countSeals_ok {addrs : List Address} {n m : ℕ}
    (h : addrs.foldlM (countSeal L vs) n = .ok m) :
    m = n + addrs.length ∧ ∀ a ∈ addrs, a ∈ vs := by
  induction addrs generalizing n with
  | nil => exact ⟨(Except.ok.inj h).symm, nofun⟩
  | cons b addrs ih =>
    obtain ⟨k, hk, hrest⟩ := bind_ok.mp h
    unfold countSeal at hk
    split at hk
    next hb =>
      cases hk
      obtain ⟨rfl, hmem⟩ := ih hrest
      refine ⟨by rw [length_cons]; omega, forall_mem_cons.mpr ⟨?_, hmem⟩⟩
      simpa [QuorumValSet.exist] using hb
    · cases hk

/-- The seals of an accepted header: each recovers to a member of the checked list, and there are
more of them than a third of that list. -/
structure SealedBy (hdr : L.Header) (extra : IstanbulExtra) (vs : QuorumValSet) (addr : Address)
    (addrs : List Address) : Prop where
  signer_eq : L.getSignatureAddress (sigHash L hdr).val extra.proposerSeal = .ok addr
  signers_eq : getSigners L (getQuorumHeaderHash L hdr) extra.committedSeal = .ok addrs
  mem : ∀ a ∈ addr :: addrs, a ∈ vs
  enough : vs.faults < (addr :: addrs).length

theorem verifySeals_ok (hs : verifySigner L vs hdr extra.proposerSeal = .ok ())
    (hc : verifyCommittedSeals L vs extra (getQuorumHeaderHash L hdr) = .ok ()) :
    ∃ addr addrs, SealedBy hdr extra vs addr addrs := by
  obtain ⟨addr, haddr, hs⟩ := bind_ok.mp hs
  obtain ⟨addrs, haddrs, hc⟩ := bind_ok.mp hc
  obtain ⟨n, hn, hc⟩ := bind_ok.mp hc
  obtain ⟨rfl, hmem⟩ := countSeals_ok hn
  have hsigner : addr ∈ vs := by
    have hne := failIf_ok.mp hs
    simp only [QuorumValSet.getByAddress, findIdx?_eq_none_iff, decide_eq_false_iff_not,
      not_forall, not_not] at hne
    obtain ⟨b, hb, rfl⟩ := hne
    exact hb
  have henough := failIf_ok.mp hc
  refine ⟨addr, addrs, haddr, wrapError_ok.mp haddrs, forall_mem_cons.mpr ⟨hsigner, hmem⟩, ?_⟩
  rw [length_cons]
  omega

theorem verifyQuorumHeader_ok (h : verifyQuorumHeader L vs hdr true = .ok extra) :
    extractIstanbulExtra L hdr = .ok extra ∧ vs.justOneChanged extra.validators = .ok () ∧
      ∃ addr addrs, SealedBy hdr extra extra.validators addr addrs := by
  obtain ⟨extra', hextra, h⟩ := bind_ok.mp h
  obtain ⟨checker, hchecker, h⟩ := bind_ok.mp h
  obtain ⟨_, hsigner, h⟩ := bind_ok.mp h
  obtain ⟨_, hseals, h⟩ := bind_ok.mp h
  cases h
  obtain ⟨_, -, hchecker⟩ := bind_ok.mp hchecker
  obtain ⟨_, hone, hchecker⟩ := bind_ok.mp hchecker
  cases hchecker
  exact ⟨wrapError_ok.mp hextra, hone,
    verifySeals_ok (wrapError_ok.mp hsigner) (wrapError_ok.mp hseals)⟩

end Tools

section Storage

def putValSet (chainID height : UInt64) (vals : QuorumValSet) : NativeM Unit := do
  putItem (syncKey CONSENSUS_PEER chainID) vals.serialize
  putItem (syncKey CONSENSUS_PEER_BLOCK_HEIGHT chainID) (getUint64Bytes height)

def getValSet (chainID : UInt64) : NativeM QuorumValSet := do
  let raw ← getItem (syncKey CONSENSUS_PEER chainID)
    (.error "GetValSet, can not find any records")
    "GetValSet, deserialize from raw storage item err: "
  lift (QuorumValSet.deserialize raw)

def getCurrentValHeight (chainID : UInt64) : NativeM UInt64 := do
  let raw ← getItem (syncKey CONSENSUS_PEER_BLOCK_HEIGHT chainID)
    (.error "getCurrentValHeight, can not find any records")
    "getCurrentValHeight, deserialize from raw storage item err: "
  return getBytesUint64 raw

/-- The records of a chain as `putValSet` leaves them. -/
structure Stored (chainID : UInt64) (db : CacheDB) (height : UInt64) (vals : QuorumValSet) :
    Prop where
  vals_eq : db.get (syncKey CONSENSUS_PEER chainID) = some (genRawStorageItem vals.serialize)
  height_eq : db.get (syncKey CONSENSUS_PEER_BLOCK_HEIGHT chainID) =
    some (genRawStorageItem (getUint64Bytes height))

variable {c : UInt64} {s t : NativeService} {height : UInt64} {vals : QuorumValSet}

theorem Stored.getValSet_run (h : Stored c s.cacheDB height vals)
    (hsize : 20 * vals.length < 2 ^ 63) : (getValSet c).run s = .ok (vals, s) := by
  refine run_bind_ok.mpr ⟨_, s, getItem_run h.vals_eq ?_, ?_⟩
  · rw [vals.serialize_length]
    omega
  · exact run_lift_ok.mpr ⟨vals.deserialize_serialize, rfl⟩

theorem Stored.getCurrentValHeight_run (h : Stored c s.cacheDB height vals) :
    (getCurrentValHeight c).run s = .ok (height, s) := by
  refine run_bind_ok.mpr ⟨_, s, getItem_run h.height_eq ?_, ?_⟩
  · rw [getUint64Bytes, leBytes_length]
    omega
  · rw [getBytesUint64_getUint64Bytes]
    rfl

theorem Stored.of_get {db db'} (hs : Stored c db height vals)
    (hget : ∀ key, db'.get key = db.get key) : Stored c db' height vals :=
  ⟨(hget _).trans hs.vals_eq, (hget _).trans hs.height_eq⟩

theorem putValSet_run (s : NativeService) :
    (putValSet c height vals).run s = .ok ((), { s with
      cacheDB := (s.cacheDB.put (syncKey CONSENSUS_PEER c) (genRawStorageItem vals.serialize)).put
        (syncKey CONSENSUS_PEER_BLOCK_HEIGHT c) (genRawStorageItem (getUint64Bytes height)) }) :=
  rfl

theorem syncKey_vals_ne_height (c d : UInt64) :
    syncKey CONSENSUS_PEER c ≠ syncKey CONSENSUS_PEER_BLOCK_HEIGHT d :=
  syncKey_ne (by decide) c d

theorem putValSet_stored (h : (putValSet c height vals).run s = .ok ((), t)) :
    Stored c t.cacheDB height vals := by
  cases ok_unique (putValSet_run s) h
  constructor
  · simp [CacheDB.get_put, syncKey_vals_ne_height, genRawStorageItem_ne_nil, ne_eq, not_false_eq_true]
  · simp [genRawStorageItem_ne_nil, ne_eq, not_false_eq_true]

theorem putValSet_keeps {d h' vals'} (hcd : c ≠ d)
    (h : (putValSet d height vals).run s = .ok ((), t)) (hs : Stored c s.cacheDB h' vals') :
    Stored c t.cacheDB h' vals' := by
  cases ok_unique (putValSet_run s) h
  have hother (name : Bytes) : syncKey name c ≠ syncKey name d := fun he => hcd (concatKey_number_inj he).1
  constructor
  · simp only [CacheDB.get_put, syncKey_vals_ne_height, hother, if_false]
    exact hs.vals_eq
  · simp only [CacheDB.get_put, (syncKey_vals_ne_height d c).symm, hother, if_false]
    exact hs.height_eq

end Storage

variable (C : Crypto) (L : QuorumLib)

namespace Quorum

def syncGenesisHeader : NativeM Unit := do
  let params ← wrapM "QuorumHandler SyncGenesisHeader, contract params deserialize error: "
    (lift (decode SyncGenesisHeaderParam.deserialization (← getInput)))
  let op ← wrapM
    "QuorumHandler SyncGenesisHeader, get current consensus operator address error: "
    (Governance.getCurConOperator C)
  wrapM "QuorumHandler SyncGenesisHeader, checkWitness error: " (validateOwner op)
  let header ← wrapM "QuorumHandler SyncGenesisHeader, deserialize header err: "
    (lift (L.unmarshal params.genesisHeader L.newHeader))
  let extra ← wrapM "QuorumHandler SyncGenesisHeader, failed to ExtractIstanbulExtra: "
    (lift (extractIstanbulExtra L header))
  putValSet params.chainID (L.number header) extra.validators

/-- The variables of the loop over the headers: one header is filled again and again. -/
structure SyncState where
  header : L.Header
  currh : UInt64
  vs : QuorumValSet

variable {L} in
/-- One header of `syncBlockHeader`, with its number in the input. -/
def syncHeader (st : SyncState L) (x : Bytes × ℕ) : Result (SyncState L) := do
  let header ← wrapError s!"QuorumHandler SyncBlockHeader, deserialize No.{x.2} header err: "
    (L.unmarshal x.1 st.header)
  let h := L.number header
  failIf (st.currh ≥ h) (.error
    (s!"QuorumHandler SyncBlockHeader, wrong height of No.{x.2} header: " ++
      s!"(curr: {st.currh}, commit: {h})"))
  let extra ← wrapError (s!"QuorumHandler SyncBlockHeader, failed to verify No.{x.2} quorum " ++
      "header " ++ hashText (getQuorumHeaderHash L header) ++ ": ")
    (verifyQuorumHeader L st.vs header true)
  return ⟨header, h, extra.validators⟩

def syncBlockHeader : NativeM Unit := do
  let params ← wrapM "QuorumHandler SyncBlockHeader, contract params deserialize error: "
    (lift (decode SyncBlockHeaderParam.deserialization (← getInput)))
  failIf (params.headers.length = 0)
    (.error "QuorumHandler SyncBlockHeader, none headers in input")
  let currh ← wrapM "QuorumHandler SyncBlockHeader, failed to get current validator height: "
    (getCurrentValHeight params.chainID)
  let vs ← wrapM "QuorumHandler SyncBlockHeader, failed to get validators: "
    (getValSet params.chainID)
  let st ← lift (params.headers.zipIdx.foldlM syncHeader ⟨L.newHeader, currh, vs⟩)
  putValSet params.chainID st.currh st.vs

variable {C L} {s t : NativeService}

theorem syncGenesisHeader_ok (h : (syncGenesisHeader C L).run s = .ok ((), t)) :
    ∃ params header extra, decode SyncGenesisHeaderParam.deserialization s.input = .ok params ∧
      extractIstanbulExtra L header = .ok extra ∧
      Stored params.chainID t.cacheDB (L.number header) extra.validators := by
  simp only [Quorum.syncGenesisHeader, run_bind_ok, run_getInput_ok, run_lift_ok, run_wrapM_ok,
    and_assoc, exists_and_left, exists_eq_left'] at h
  obtain ⟨params, hparams, op, s₃, -, _, s₄, -, header, -, extra, hextra, h⟩ := h
  exact ⟨params, header, extra, hparams, hextra, putValSet_stored h⟩

theorem syncHeader_ok {st st' x} (h : syncHeader st x = .ok st') :
    st.currh < st'.currh ∧ st'.currh = L.number st'.header ∧
      ∃ extra, verifyQuorumHeader L st.vs st'.header true = .ok extra ∧
        st'.vs = extra.validators := by
  obtain ⟨header, -, h⟩ := bind_ok.mp h
  obtain ⟨_, hlt, h⟩ := bind_ok.mp h
  obtain ⟨extra, hv, h⟩ := bind_ok.mp h
  cases h
  exact ⟨UInt64.not_le.mp (failIf_ok.mp hlt), rfl, extra, wrapError_ok.mp hv, rfl⟩

/-- A successful call read the records, went through the headers and wrote the last ones. -/
theorem syncBlockHeader_ok (h : (syncBlockHeader L).run s = .ok ((), t)) :
    ∃ params currh vs st, decode SyncBlockHeaderParam.deserialization s.input = .ok params ∧
      (getCurrentValHeight params.chainID).run s = .ok (currh, s) ∧
      (getValSet params.chainID).run s = .ok (vs, s) ∧
      params.headers.zipIdx.foldlM syncHeader ⟨L.newHeader, currh, vs⟩ = .ok st ∧
      (putValSet params.chainID st.currh st.vs).run s = .ok ((), t) := by
  simp only [Quorum.syncBlockHeader, run_bind_ok, run_getInput_ok, run_failIf_ok, run_lift_ok,
    run_wrapM_ok, and_assoc, exists_and_left, exists_eq_left', exists_const] at h
  obtain ⟨params, hparams, -, currh, s₄, hh, vs, s₅, hvs, st, hloop, h⟩ := h
  obtain rfl : _ = _ := (Within.bind (x := getItem _ _ _)).of_run hh
  obtain rfl : _ = _ := (Within.bind (x := getItem _ _ _)).of_run hvs
  exact ⟨params, currh, vs, st, hparams, hh, hvs, hloop, h⟩

end Quorum

end Poly.HeaderSync
