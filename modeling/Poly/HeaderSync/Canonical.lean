import Poly.CrossChain.Entrance
import Poly.HeaderSync.Common

/-! Headers of an Ethereum-like chain in the storage: an index by hash, and the canonical chain by
height, which follows the greatest sum of difficulties. -/
namespace Poly.HeaderSync

open Lib Native Source CrossChain

def AddressLength : ℕ := 20

/-- A header; `rest` are the fields that only the hash reads. -/
structure EthHeader where
  parentHash : Uint256
  uncleHash : Uint256
  coinbase : Address
  difficulty : ℕ
  number : ℕ
  gasLimit : UInt64
  gasUsed : UInt64
  time : UInt64
  extra : Bytes
  mixDigest : Uint256
  nonce : FixedBytes 8
  rest : Bytes
  deriving DecidableEq

/-- `Number.Uint64()`. -/
def EthHeader.number64 (header : EthHeader) : UInt64 := UInt64.ofNat header.number

/-- `BytesToHash`: the last bytes count, and zeros are put before what is too short. -/
def bytesToHash (b : Bytes) : Uint256 :=
  ⟨(leBytes 32 (leNat b.reverse)).reverse, by rw [List.length_reverse, leBytes_length]⟩

/-- `hash.Hex()`. -/
def hashHex (hash : Uint256) : Bytes := ascii "0x" ++ hexEncode hash.val

/-- `NextVarBytes` where the end of the source is not looked at. -/
def nextVarBytesOrRest : Reader Failure Bytes := fun bs =>
  match (nextVarUint (Failure.error "")).run bs with
  | .error _ => .ok ([], bs)
  | .ok (count, rest) => .ok (rest.take count.toNat, rest.drop count.toNat)

/-- The extra info after the other fields of a side chain. -/
def readExtraInfo : Reader Failure Bytes := do
  let _ ← SideChain.deserialization
  nextVarBytesOrRest

/-- `GetSideChain(chainID)` and the extra info of what it returns, which is nil for a chain that is
not registered. -/
def getExtraInfo (chainID : UInt64) : NativeM Bytes := do
  match ← getCache (sideChainKey chainID) with
  | none => throw (.panic "nil pointer dereference")
  | some sideChainStore =>
    let sideChainBytes ← wrapM "getSideChain, deserialize from raw storage item err:"
      (lift (getValueFromRawStorageItem sideChainStore))
    wrapM "getSideChain, deserialize sideChain error: " (lift (decode readExtraInfo sideChainBytes))

/-- The records of a handler that are stored for its headers. -/
structure Records (V : Type) where
  name : String
  hash : EthHeader → Uint256
  header : V → EthHeader
  difficultySum : V → ℕ
  marshal : V → Result Bytes
  unmarshal : Bytes → Result V

def headerKey (chainID : UInt64) (hash : Uint256) : Bytes := syncKeyAt HEADER_INDEX chainID hash.val

theorem headerKey_inj {c d hash hash'} :
    headerKey c hash = headerKey d hash' ↔ c = d ∧ hash = hash' := by
  constructor
  · intro h
    simpa [Subtype.ext_iff] using concatKey_number_inj h
  · rintro ⟨rfl, rfl⟩
    rfl

theorem headerKey_ne_genesis (c d : UInt64) (hash : Uint256) :
    headerKey c hash ≠ syncKey GENESIS_HEADER d :=
  concatKey_ne (by decide) (by decide) _ _

theorem sideChainKey_ne (c : UInt64) (args : List Bytes) :
    sideChainKey c ≠ concatKey HeaderSyncContractAddress args := by
  intro h
  have hne : SideChainManagerContractAddress ≠ HeaderSyncContractAddress := by decide
  exact hne (concatKey_inj.mp h).1

def isHeaderExist (chainID : UInt64) (headerHash : Uint256) : NativeM Bool := do
  return (← getCache (headerKey chainID headerHash)).isSome

/-- More steps than there are pairs of a height and a hash, twice: a walk that is not over by then
is never over. -/
def walkSteps : ℕ := 2 * 2 ^ 64 * 2 ^ 256

namespace Records

variable {V : Type} (R : Records V) (chainID : UInt64)

def getHeader (hash : Uint256) : NativeM V := do
  let storeBytes ← getItem (headerKey chainID hash)
    (.error (R.name ++ " Handler getHeader, can not find any header records"))
    (R.name ++ " Handler getHeader, deserialize headerBytes from raw storage item err:")
  wrapM (R.name ++ " Handler getHeader, deserialize header error: ") (lift (R.unmarshal storeBytes))

def getCanonicalHeight : NativeM UInt64 := do
  let heightStore ← getCache (syncKey CURRENT_HEADER_HEIGHT chainID)
  let storeBytes ← wrapM (R.name ++ " Handler GetCanonicalHeight, GetValueFromRawStorageItem err:")
    (lift (getValueFromRawStorageItem (heightStore.getD [])))
  return getBytesUint64 storeBytes

def getCanonicalHash (height : UInt64) : NativeM Uint256 := do
  match ← getCache (syncKeyAt MAIN_CHAIN chainID (getUint64Bytes height)) with
  | none => return Uint256.empty
  | some hashBytesStore =>
    let hashBytes ← wrapM (R.name ++ " Handler getCanonicalHash, GetValueFromRawStorageItem err:")
      (lift (getValueFromRawStorageItem hashBytesStore))
    return bytesToHash hashBytes

def getCanonicalHeader (height : UInt64) : NativeM (Option V) := do
  let hash ← R.getCanonicalHash chainID height
  if hash = Uint256.empty then
    return none
  else
    return some (← R.getHeader chainID hash)

def putHeaderWithSum (headerWithSum : V) : NativeM Unit := do
  let headerBytes ← lift (R.marshal headerWithSum)
  putItem (headerKey chainID (R.hash (R.header headerWithSum))) headerBytes

/-- Delete the canonical entries from a height on. The heights wrap around, but the entry at the
first of them is gone by then. -/
def deleteAbove : ℕ → UInt64 → NativeM Unit
  | 0, _ => throw (.panic "loop without end")
  | n + 1, i => do
    match ← R.getCanonicalHeader chainID i with
    | none => return ()
    | some _ =>
      deleteCache (syncKeyAt MAIN_CHAIN chainID (getUint64Bytes i))
      deleteAbove n (i + 1)

/-- Overwrite the canonical entries from a height down with the branch of a header, until they
agree. -/
def overwriteBelow : ℕ → UInt64 → Uint256 → NativeM Unit
  | 0, _, _ => throw (.panic "loop without end")
  | n + 1, cheight, headHash => do
    let hash ← R.getCanonicalHash chainID cheight
    if hash = headHash then
      return ()
    else
      putItem (syncKeyAt MAIN_CHAIN chainID (getUint64Bytes cheight)) headHash.val
      let headHeader ← R.getHeader chainID headHash
      overwriteBelow n (cheight - 1) (R.header headHeader).parentHash

/-- Make a header the head of the canonical chain. -/
def extendCanonical (header : EthHeader) : NativeM Unit := do
  R.deleteAbove chainID (2 ^ 64 + 1) (header.number64 + 1)
  R.overwriteBelow chainID walkSteps (header.number64 - 1) header.parentHash
  putItem (syncKeyAt MAIN_CHAIN chainID (getUint64Bytes header.number64)) (R.hash header).val
  putItem (syncKey CURRENT_HEADER_HEIGHT chainID) (getUint64Bytes header.number64)

/-- `addHeader`; the record of the new header is made from that of its parent and the sum of the
difficulties. -/
def addHeader (header : EthHeader) (newRecord : V → ℕ → Result V) : NativeM Unit := do
  let parentHeader ← R.getHeader chainID header.parentHash
  let cheight ← R.getCanonicalHeight chainID
  let cheader ← orFail (← R.getCanonicalHeader chainID cheight)
    (.error "getCanonicalHeader returns nil")
  let externTd := header.difficulty + R.difficultySum parentHeader
  R.putHeaderWithSum chainID (← lift (newRecord parentHeader externTd))
  if externTd > R.difficultySum cheader then
    R.extendCanonical chainID header

/-- The end of `storeGenesis`: the record of the first header, and the canonical chain of it. -/
def putGenesis (enableEventLog : Bool) (headerWithSum : V) : NativeM Unit := do
  let header := R.header headerWithSum
  R.putHeaderWithSum chainID headerWithSum
  putItem (syncKey CURRENT_HEADER_HEIGHT chainID) (getUint64Bytes header.number64)
  putItem (syncKeyAt MAIN_CHAIN chainID (getUint64Bytes header.number64)) (R.hash header).val
  notifyPutHeader enableEventLog chainID header.number64 (hashHex (R.hash header))

section Reads

variable {P : NativeService → NativeService → Prop} [IsPreorder NativeService P]

instance (hash : Uint256) : Within P (R.getHeader chainID hash) := .bind

instance : Within P (R.getCanonicalHeight chainID) := .bind

instance (height : UInt64) : Within P (R.getCanonicalHash chainID height) := .bind_option

instance (height : UInt64) : Within P (R.getCanonicalHeader chainID height) := .bind

end Reads

/-- The keys of the canonical chains. -/
def CanonicalKey (key : Bytes) : Prop :=
  ∃ args, key = concatKey HeaderSyncContractAddress (MAIN_CHAIN :: args) ∨
    key = concatKey HeaderSyncContractAddress (CURRENT_HEADER_HEIGHT :: args)

instance (height : Bytes) : Owned CanonicalKey (syncKeyAt MAIN_CHAIN chainID height) :=
  ⟨_, Or.inl rfl⟩

instance : Owned CanonicalKey (syncKey CURRENT_HEADER_HEIGHT chainID) := ⟨_, Or.inr rfl⟩

theorem not_canonicalKey_headerKey (hash : Uint256) : ¬ CanonicalKey (headerKey chainID hash) := by
  rintro ⟨args, h | h⟩ <;> exact concatKey_ne (by decide) (by decide) _ _ h

theorem not_canonicalKey_genesis : ¬ CanonicalKey (syncKey GENESIS_HEADER chainID) := by
  rintro ⟨args, h | h⟩ <;> exact concatKey_ne (by decide) (by decide) _ _ h

theorem not_canonicalKey_sideChain : ¬ CanonicalKey (sideChainKey chainID) := by
  rintro ⟨args, h | h⟩ <;> exact sideChainKey_ne _ _ h

instance (n : ℕ) (i : UInt64) : Within (OnlyWrites CanonicalKey) (R.deleteAbove chainID n i) := by
  induction n generalizing i with
  | zero => exact inferInstanceAs (Within _ (throw _))
  | succ n ih => exact .bind_option

instance (n : ℕ) (cheight : UInt64) (headHash : Uint256) :
    Within (OnlyWrites CanonicalKey) (R.overwriteBelow chainID n cheight headHash) := by
  induction n generalizing cheight headHash with
  | zero => exact inferInstanceAs (Within _ (throw _))
  | succ n ih => exact .bind

instance within_extendCanonical (header : EthHeader) :
    Within (OnlyWrites CanonicalKey) (R.extendCanonical chainID header) := .bind

/-- The keys that new headers of a chain are written to. -/
def ChainKey (key : Bytes) : Prop := CanonicalKey key ∨ ∃ hash, key = headerKey chainID hash

instance {key : Bytes} [Owned CanonicalKey key] : Owned (ChainKey chainID) key :=
  ⟨Or.inl Owned.owned⟩

instance (hash : Uint256) : Owned (ChainKey chainID) (headerKey chainID hash) := ⟨Or.inr ⟨_, rfl⟩⟩

instance (headerWithSum : V) :
    Within (OnlyWrites (ChainKey chainID)) (R.putHeaderWithSum chainID headerWithSum) := .bind

instance (header : EthHeader) (newRecord : V → ℕ → Result V) :
    Within (OnlyWrites (ChainKey chainID)) (R.addHeader chainID header newRecord) := by
  have hextend : Within (OnlyWrites (ChainKey chainID)) (R.extendCanonical chainID header) :=
    (R.within_extendCanonical chainID header).mono fun _ _ h => h.mono fun _ hkey => Or.inl hkey
  exact .bind

instance (enableEventLog : Bool) (headerWithSum : V) :
    Within (OnlyWrites (ChainKey chainID)) (R.putGenesis chainID enableEventLog headerWithSum) :=
  .bind

/-- The record of a hash, if there is one that can be read. -/
def stored (db : CacheDB) (hash : Uint256) : Option V :=
  (db.get (headerKey chainID hash)).bind fun raw =>
    (getValueFromRawStorageItem raw >>= R.unmarshal).toOption

variable {R chainID} {s t : NativeService} {u : Unit} {header : EthHeader} {record : V}

theorem stored_congr {db db' hash}
    (h : db'.get (headerKey chainID hash) = db.get (headerKey chainID hash)) :
    R.stored chainID db' hash = R.stored chainID db hash := by
  rw [stored, stored, h]

theorem getHeader_ok {hash} :
    (R.getHeader chainID hash).run s = .ok (record, t) ↔
      R.stored chainID s.cacheDB hash = some record ∧ s = t := by
  constructor
  · intro h
    obtain ⟨bytes, s₁, hitem, h⟩ := run_bind_ok.mp h
    obtain ⟨found, s₂, hget, hitem⟩ := run_bind_ok.mp hitem
    cases hget
    obtain ⟨raw, s₂, hraw, hitem⟩ := run_bind_ok.mp hitem
    obtain ⟨hfound, rfl⟩ := run_orFail_ok.mp hraw
    obtain ⟨hbytes, rfl⟩ := run_lift_ok.mp (run_wrapM_ok.mp hitem)
    obtain ⟨hrecord, rfl⟩ := run_lift_ok.mp (run_wrapM_ok.mp h)
    refine ⟨?_, rfl⟩
    rw [stored, hfound, Option.bind_some, hbytes, ok_bind, hrecord]
    rfl
  · rintro ⟨h, rfl⟩
    obtain ⟨raw, hraw, h⟩ := Option.bind_eq_some_iff.mp h
    obtain ⟨bytes, hbytes, hrecord⟩ := bind_ok.mp (toOption_eq_some.mp h)
    refine run_bind_ok.mpr ⟨bytes, s, ?_, ?_⟩
    · exact run_bind_ok.mpr ⟨_, s, rfl, run_bind_ok.mpr ⟨raw, s, run_orFail_ok.mpr ⟨hraw, rfl⟩,
        run_wrapM_ok.mpr (run_lift_ok.mpr ⟨hbytes, rfl⟩)⟩⟩
    · exact run_wrapM_ok.mpr (run_lift_ok.mpr ⟨hrecord, rfl⟩)

/-- One record more under the hash of its header; other keys than those of the canonical chains
stay. -/
def Put (R : Records V) (chainID : UInt64) (record : V) (s t : NativeService) : Prop :=
  ∃ bytes, R.marshal record = .ok bytes ∧ ∀ key, ¬ CanonicalKey key → t.cacheDB.get key =
    if key = headerKey chainID (R.hash (R.header record)) then some (genRawStorageItem bytes)
    else s.cacheDB.get key

theorem Put.then {s₁} (h : Put R chainID record s s₁) (hw : OnlyWrites CanonicalKey s₁ t) :
    Put R chainID record s t := by
  obtain ⟨bytes, hbytes, hget⟩ := h
  exact ⟨bytes, hbytes, fun key hkey => (hw.get_eq key hkey).trans (hget key hkey)⟩

theorem putHeaderWithSum_ok (h : (R.putHeaderWithSum chainID record).run s = .ok (u, t)) :
    Put R chainID record s t := by
  obtain ⟨bytes, s₁, hlift, h⟩ := run_bind_ok.mp h
  obtain ⟨hbytes, rfl⟩ := run_lift_ok.mp hlift
  exact ⟨bytes, hbytes, fun key _ => get_putItem h key⟩

theorem addHeader_ok {newRecord : V → ℕ → Result V}
    (h : (R.addHeader chainID header newRecord).run s = .ok (u, t)) :
    ∃ parent record, R.stored chainID s.cacheDB header.parentHash = some parent ∧
      newRecord parent (header.difficulty + R.difficultySum parent) = .ok record ∧
      Put R chainID record s t := by
  simp only [Records.addHeader, getHeader_ok, run_bind_ok, run_lift_ok, run_orFail_ok, and_assoc,
    exists_and_left, exists_eq_left'] at h
  obtain ⟨parent, hparent, cheight, s₁, hcheight, found, s₂, hfound, cheader, -, record, hrecord, _,
    s₃, hput, h⟩ := h
  obtain rfl : s = s₁ := Within.of_run hcheight
  obtain rfl : s = s₂ := Within.of_run hfound
  have hw : OnlyWrites CanonicalKey s₃ t := Within.of_run h
  exact ⟨parent, record, hparent, hrecord, (putHeaderWithSum_ok hput).then hw⟩

end Records

end Poly.HeaderSync
