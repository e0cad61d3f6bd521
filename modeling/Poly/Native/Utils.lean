import Poly.Native.Service

/-! Helpers shared by the contracts: storage keys, contract addresses and the owner check. -/
namespace Poly.Native

open Lib List

/-- The bytes of a name. -/
def ascii (s : String) : Bytes := s.toList.map fun c => UInt8.ofNat c.toNat

/-- A contract address: nineteen zero bytes and a number. -/
def contractAddress (n : UInt8) : Address := ⟨List.replicate 19 0 ++ [n], rfl⟩

def HeaderSyncContractAddress : Address := contractAddress 0x02

def CrossChainManagerContractAddress : Address := contractAddress 0x03

def SideChainManagerContractAddress : Address := contractAddress 0x04

def NodeManagerContractAddress : Address := contractAddress 0x05

def RelayerManagerContractAddress : Address := contractAddress 0x06

def BYTE_FALSE : Bytes := [0]

def BYTE_TRUE : Bytes := [1]

def concatKey (contract : Address) (args : List Bytes) : Bytes := contract.val ++ args.flatten

/-- Keys of different contracts differ, and keys of one contract differ after its address. -/
theorem concatKey_inj {c d as bs} :
    concatKey c as = concatKey d bs ↔ c = d ∧ as.flatten = bs.flatten := by
  constructor
  · intro h
    obtain ⟨hc, hr⟩ := append_inj h (by rw [c.2, d.2])
    exact ⟨Subtype.ext hc, hr⟩
  · rintro ⟨rfl, h⟩
    rw [concatKey, concatKey, h]

/-- Keys whose names are not a prefix of one another differ, whatever follows the names. -/
theorem concatKey_ne {c d p q} (hpq : ¬ p <+: q) (hqp : ¬ q <+: p) (as bs : List Bytes) :
    concatKey c (p :: as) ≠ concatKey d (q :: bs) := by
  intro h
  have hf : p ++ as.flatten = q ++ bs.flatten := (concatKey_inj.mp h).2
  have hp : p <+: q ++ bs.flatten := ⟨as.flatten, hf⟩
  have hq : q <+: q ++ bs.flatten := prefix_append q _
  rcases prefix_or_prefix_of_prefix hp hq with h | h
  · exact hpq h
  · exact hqp h

def getUint32Bytes (num : UInt32) : Bytes := leBytes 4 num.toNat

def getUint64Bytes (num : UInt64) : Bytes := leBytes 8 num.toNat

def getBytesUint32 (b : Bytes) : UInt32 := if b.length ≠ 4 then 0 else UInt32.ofNat (leNat b)

def getBytesUint64 (b : Bytes) : UInt64 := if b.length ≠ 8 then 0 else UInt64.ofNat (leNat b)

/-- Keys of one name and a number determine the number and what follows it. -/
theorem concatKey_number_inj {c name m n as bs}
    (h : concatKey c (name :: getUint64Bytes m :: as) = concatKey c (name :: getUint64Bytes n :: bs))
    :
    m = n ∧ as.flatten = bs.flatten := by
  have hflat := (concatKey_inj.mp h).2
  simp only [flatten_cons, append_cancel_left_eq] at hflat
  have hlen (x : UInt64) : (getUint64Bytes x).length = 8 := leBytes_length 8 _
  obtain ⟨hm, hrest⟩ := append_inj hflat (by rw [hlen, hlen])
  exact ⟨UInt64.toNat_inj.mp (leBytes_inj m.toNat_lt n.toNat_lt hm), hrest⟩

theorem getBytesUint64_getUint64Bytes (num : UInt64) :
    getBytesUint64 (getUint64Bytes num) = num := by
  rw [getBytesUint64, getUint64Bytes, leNat_leBytes 8 _ num.toNat_lt]
  simp

def validateOwner (address : Address) : NativeM Unit := do
  let s ← get
  failIf (s.checkWitness address = false) (.error "validateOwner, authentication failed!")

/-- The raw item under a key, unpacked; `missing` is the error for an absent key. -/
def getItem (key : Bytes) (missing : Failure) (context : String) : NativeM Bytes := do
  let store ← orFail (← getCache key) missing
  wrapM context (lift (getValueFromRawStorageItem store))

def putItem (key value : Bytes) : NativeM Unit := putCache key (genRawStorageItem value)

theorem getItem_run {key value missing context s}
    (h : s.cacheDB.get key = some (genRawStorageItem value)) (hlen : value.length < 2 ^ 64) :
    (getItem key missing context).run s = .ok (value, s) := by
  refine run_bind_ok.mpr ⟨_, s, rfl, ?_⟩
  refine run_bind_ok.mpr ⟨_, s, run_orFail_ok.mpr ⟨h, rfl⟩, ?_⟩
  exact run_wrapM_ok.mpr (run_lift_ok.mpr ⟨getValueFromRawStorageItem_gen hlen, rfl⟩)

theorem get_putItem {key value s t u} (h : (putItem key value).run s = .ok (u, t)) (k : Bytes) :
    t.cacheDB.get k = if k = key then some (genRawStorageItem value) else s.cacheDB.get k := by
  cases h
  simp only [CacheDB.get_put]
  split
  · exact nonNil_of_ne (by simp [genRawStorageItem])
  · rfl

section Frames

variable {R : NativeService → NativeService → Prop} [IsPreorder NativeService R]

instance (address : Address) : Within R (validateOwner address) := .bind

instance (key : Bytes) (missing : Failure) (context : String) :
    Within R (getItem key missing context) := .bind

instance {P : Bytes → Prop} {key value : Bytes} [Owned P key] :
    Within (OnlyWrites P) (putItem key value) :=
  inferInstanceAs (Within _ (putCache _ _))

end Frames

variable (C : Crypto)

/-- `vconfig.Pubkey`. -/
def pubkey (nodeid : Bytes) : Result C.keys.PublicKey := do
  let raw ← hexDecode nodeid
  wrapError "deserialize failed: " (C.keys.deserializePublicKey raw)

def validatePeerPubKeyFormat (nodeid : Bytes) : Result Unit :=
  match pubkey C nodeid with
  | .error (.panic msg) => .error (.panic msg)
  | .error (.error _) => .error (.error "failed to parse pubkey")
  | .ok pk => failIf (C.vrfValidatePublicKey pk = false) (.error "invalid for VRF")

theorem hexDecode_of_validatePeerPubKeyFormat {nodeid}
    (h : validatePeerPubKeyFormat C nodeid = .ok ()) : ∃ raw, hexDecode nodeid = .ok raw := by
  cases hd : hexDecode nodeid with
  | ok raw => exact ⟨raw, rfl⟩
  | error e =>
    simp only [validatePeerPubKeyFormat, pubkey, hd, error_bind] at h
    cases e <;> cases h

end Poly.Native
