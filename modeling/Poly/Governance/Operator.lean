import Poly.Core.Encoding
import Poly.Governance.Peers
import Poly.TxPool.Validation

/-! The address that the consensus peers act under, and what a witness of it takes. -/
namespace Poly.Governance

open Lib Native Source Sink Reader TxPool List

/-- What the proofs ask of the key library. -/
structure Lawful (K : Keys) : Prop where
  readBack : K.ReadBack
  bounded : ∀ key, (K.serializePublicKey key).length < 2 ^ 64
  sorted : ∀ keys, (K.sortPublicKeys keys).Perm keys
  /-- A single key is told from a multi-signature program by its first byte or its length. -/
  single : ∀ key keys m, encodeMultiPubKeyProgram K keys m ≠ .ok (K.serializePublicKey key)

section Program

variable (K : Keys)

/-- The program of a list of keys, that of the key itself where there is one. -/
def keyProgram (keys : List K.PublicKey) (m : UInt16) : Result Bytes :=
  match keys with
  | [key] => .ok (K.serializePublicKey key)
  | keys => encodeMultiPubKeyProgram K keys m

/-- The signatures that the consensus peers need, all of them but a third. -/
def quorum (n : ℕ) : ℕ := n - (n - 1) / 3

def nextProgram : Reader Failure (List K.PublicKey × UInt16) := do
  let n ← nextUint16 (.error "")
  let keys ← Reader.replicate (nextPublicKey K (.error "")) n.toNat
  let m ← nextUint16 (.error "")
  return (keys, m)

variable {K}

variable {keys : List K.PublicKey}

theorem encodeMultiPubKeyProgram_ok {m program} :
    encodeMultiPubKeyProgram K keys m = .ok program ↔
      (1 ≤ m.toNat ∧ m.toNat ≤ keys.length ∧ keys.length > 1 ∧ keys.length ≤ 16) ∧
        writeUint16 (UInt16.ofNat (K.sortPublicKeys keys).length) ++
          (K.sortPublicKeys keys).flatMap (fun key => writeVarBytes (K.serializePublicKey key)) ++
            writeUint16 m = program := by
  unfold encodeMultiPubKeyProgram
  rw [bind_ok]
  constructor
  · rintro ⟨_, hparam, h⟩
    exact ⟨not_not.mp (failIf_ok.mp hparam), Except.ok.inj h⟩
  · rintro ⟨hparam, rfl⟩
    exact ⟨(), failIf_ok.mpr (not_not.mpr hparam), rfl⟩

theorem nextProgram_run (hK : Lawful K) {m program}
    (h : encodeMultiPubKeyProgram K keys m = .ok program) :
    (nextProgram K).run program = .ok ((K.sortPublicKeys keys, m), []) := by
  obtain ⟨⟨-, -, -, hsize⟩, rfl⟩ := encodeMultiPubKeyProgram_ok.mp h
  have hlength : (UInt16.ofNat (K.sortPublicKeys keys).length).toNat =
      (K.sortPublicKeys keys).length := by
    rw [(hK.sorted keys).length_eq]
    exact UInt16.toNat_ofNat_of_lt' (hsize.trans_lt (by decide))
  refine run_bind_ok.mpr ⟨_, _, nextUint16_run _ _ _, ?_⟩
  rw [hlength]
  refine run_bind_ok.mpr ⟨_, _, roundTrip_replicate (roundTrip_publicKey hK.readBack _) _
    (fun key _ => hK.bounded key) _, ?_⟩
  refine run_bind_ok.mpr ⟨m, [], ?_, rfl⟩
  rw [← append_nil (writeUint16 m), nextUint16_run]

/-- A program names its keys, and the number of signatures where there are several. -/
theorem keyProgram_inj (hK : Lawful K) {keys' m m' program} (h : keyProgram K keys m = .ok program)
    (h' : keyProgram K keys' m' = .ok program) : keys.Perm keys' ∧ (keys.length ≠ 1 → m = m') := by
  unfold keyProgram at h h'
  split at h <;> split at h'
  next key _ key' =>
    have hkey := (hK.readBack key).symm.trans
      ((congrArg _ (Except.ok.inj (h.trans h'.symm))).trans (hK.readBack key'))
    cases hkey
    exact ⟨.refl _, absurd rfl⟩
  · exact absurd (h'.trans h.symm) (hK.single _ _ _)
  · exact absurd (h.trans h'.symm) (hK.single _ _ _)
  · have heq := (nextProgram_run hK h).symm.trans (nextProgram_run hK h')
    obtain ⟨hkeys, rfl⟩ := Prod.mk.inj (ok_mk_inj heq).1
    exact ⟨(hK.sorted keys).symm.trans (hkeys ▸ hK.sorted keys'), fun _ => rfl⟩

theorem quorum_toNat {n : ℕ} (hn : n ≤ 16) :
    (UInt16.ofInt ((n : ℤ) - ((n : ℤ) - 1).tdiv 3)).toNat = quorum n := by
  interval_cases n <;> rfl

/-- The operator program of the keys. -/
def operatorProgram (K : Keys) (keys : List K.PublicKey) : Result Bytes :=
  keyProgram K keys (UInt16.ofInt ((keys.length : ℤ) - ((keys.length : ℤ) - 1).tdiv 3))

theorem operatorProgram_ok_iff (hne : keys ≠ []) :
    (∃ program, operatorProgram K keys = .ok program) ↔ keys.length ≤ 16 := by
  have hpos := length_pos_iff.mpr hne
  unfold operatorProgram keyProgram
  split
  · simp
  next hmany =>
    have hlength : keys.length ≠ 1 := fun hone =>
      (length_eq_one_iff.mp hone).elim hmany
    constructor
    · rintro ⟨program, h⟩
      exact (encodeMultiPubKeyProgram_ok.mp h).1.2.2.2
    · intro hsize
      refine ⟨_, encodeMultiPubKeyProgram_ok.mpr ⟨?_, rfl⟩⟩
      rw [quorum_toNat hsize, quorum]
      omega

end Program

section Operator

variable (C : Crypto)

def programAddress : Bytes → Address := addressFromVmCode C.sha256 C.ripemd160

/-- The keys of the consensus peers of the current view. -/
def curConKeys : NativeM (List C.keys.PublicKey) := do
  let view ← wrapM "GetCurConOperator, GetView error: " getView
  let peerPoolMap ← wrapM "GetCurConOperator, GetPeerPoolMap error: " (getPeerPoolMap view)
  lift (consensusKeys C "GetCurConOperator" peerPoolMap)

theorem getCurConOperator_eq : getCurConOperator C = do
    let publicKeys ← curConKeys C
    return addressFromBookkeepers C.keys C.sha256 C.ripemd160 publicKeys := by
  simp [getCurConOperator, curConKeys]

/-- The address is that of the program of the keys, and a transaction is a witness of it only with a
quorum of their signatures, or two programs have one hash. -/
structure Unforgeable (keys : List C.keys.PublicKey) (a : Address) : Prop where
  program : ∃ program, operatorProgram C.keys keys = .ok program ∧ a = programAddress C program
  owner : ∀ (tx : Transaction C.keys) (addresses : List Address) (s t : NativeService),
    checkTransactionSignatures C.keys C.sha256 C.ripemd160 tx = .ok addresses →
    (tx.signedAddr = [] ∨ tx.signedAddr = addresses) → s.contexts.length < 2 →
    s.tx.signatureAddresses = (tx.getSignatureAddresses C.keys C.sha256 C.ripemd160).toOption →
    (validateOwner a).run s = .ok ((), t) →
    ∃ sig ∈ tx.sigs, Proves C.keys C.sha256 C.ripemd160 tx.hash sig a ∧
      (sig.pubKeys.Perm keys ∧ quorum keys.length ≤ sig.m.toNat ∨
        ∃ p q, operatorProgram C.keys keys = .ok p ∧ keyProgram C.keys sig.pubKeys sig.m = .ok q ∧
          Collision (programAddress C) [p, q])

variable {C} {keys : List C.keys.PublicKey}

theorem addressFromBookkeepers_eq {program} (h : operatorProgram C.keys keys = .ok program) :
    addressFromBookkeepers C.keys C.sha256 C.ripemd160 keys = programAddress C program := by
  match keys, h with
  | [key], h =>
    cases h
    rfl
  | [], h => cases h
  | a :: b :: keys, h =>
    change encodeMultiPubKeyProgram C.keys (a :: b :: keys) _ = .ok program at h
    rw [addressFromBookkeepers, h]
    · rfl
    · simp

theorem sig_address_program {sig : Sig C.keys} {a}
    (h : sig.address C.keys C.sha256 C.ripemd160 = .ok a) :
    ∃ q, keyProgram C.keys sig.pubKeys sig.m = .ok q ∧ a = programAddress C q := by
  obtain ⟨sigData, pubKeys, m⟩ := sig
  match pubKeys with
  | [] => cases h
  | [key] => exact ⟨_, rfl, (Except.ok.inj h).symm⟩
  | a :: b :: keys =>
    obtain ⟨q, hq, h⟩ := bind_ok.mp h
    exact ⟨q, hq, (Except.ok.inj h).symm⟩

theorem unforgeable_of_le (hK : Lawful C.keys) (hne : keys ≠ []) (hsize : keys.length ≤ 16) :
    Unforgeable C keys (addressFromBookkeepers C.keys C.sha256 C.ripemd160 keys) := by
  obtain ⟨p, hp⟩ := (operatorProgram_ok_iff hne).mpr hsize
  have ha := addressFromBookkeepers_eq hp
  refine ⟨⟨p, hp, ha⟩, ?_⟩
  intro tx addresses s t hcheck hsigned hcontexts htx hrun
  simp only [validateOwner, run_bind_ok, run_get_ok, run_failIf_ok] at hrun
  obtain ⟨_, _, ⟨rfl, rfl⟩, hwitness, -⟩ := hrun
  obtain ⟨sig, hsig, hproves⟩ := backed_of_checkWitness hcheck hsigned hcontexts htx
    (Bool.eq_true_of_not_eq_false hwitness)
  refine ⟨sig, hsig, hproves, ?_⟩
  obtain ⟨q, hq, haq⟩ := sig_address_program hproves.address_eq
  by_cases hpq : p = q
  · subst hpq
    obtain ⟨hperm, hm⟩ := keyProgram_inj hK hp hq
    refine .inl ⟨hperm.symm, ?_⟩
    by_cases hone : keys.length = 1
    · rw [hone]
      exact hproves.positive
    · rw [← hm hone, quorum_toNat hsize]
  · exact .inr ⟨p, q, hp, hq, p, by simp, q, by simp, hpq, ha.symm.trans haq⟩

/-- The operator addresses of two pools stand for their keys, and tell them apart, just when neither
has more consensus peers than a multi-signature program takes keys. -/
theorem operator_unforgeable_iff (hK : Lawful C.keys) {s₁ s₂ t₁ t₂ u₁ u₂ : NativeService}
    {keys₁ keys₂ : List C.keys.PublicKey} {a₁ a₂ : Address}
    (hkeys₁ : (curConKeys C).run s₁ = .ok (keys₁, u₁))
    (hkeys₂ : (curConKeys C).run s₂ = .ok (keys₂, u₂)) (hne₁ : keys₁ ≠ []) (hne₂ : keys₂ ≠ [])
    (hrun₁ : (getCurConOperator C).run s₁ = .ok (a₁, t₁))
    (hrun₂ : (getCurConOperator C).run s₂ = .ok (a₂, t₂)) :
    (Unforgeable C keys₁ a₁ ∧ Unforgeable C keys₂ a₂ ∧ (a₁ = a₂ → keys₁.Perm keys₂ ∨
      ∃ p q, operatorProgram C.keys keys₁ = .ok p ∧ operatorProgram C.keys keys₂ = .ok q ∧
        Collision (programAddress C) [p, q])) ↔
      keys₁.length ≤ 16 ∧ keys₂.length ≤ 16 := by
  have haddress {s t u : NativeService} {keys : List C.keys.PublicKey} {a : Address}
      (hk : (curConKeys C).run s = .ok (keys, u))
      (hr : (getCurConOperator C).run s = .ok (a, t)) :
      a = addressFromBookkeepers C.keys C.sha256 C.ripemd160 keys := by
    rw [getCurConOperator_eq] at hr
    obtain ⟨found, v, hfound, hr⟩ := run_bind_ok.mp hr
    cases ok_unique hk hfound
    exact (run_pure_ok.mp hr).1.symm
  cases haddress hkeys₁ hrun₁
  cases haddress hkeys₂ hrun₂
  constructor
  · rintro ⟨h₁, h₂, -⟩
    obtain ⟨p, hp, -⟩ := h₁.program
    obtain ⟨q, hq, -⟩ := h₂.program
    exact ⟨(operatorProgram_ok_iff hne₁).mp ⟨p, hp⟩, (operatorProgram_ok_iff hne₂).mp ⟨q, hq⟩⟩
  · rintro ⟨hsize₁, hsize₂⟩
    refine ⟨unforgeable_of_le hK hne₁ hsize₁, unforgeable_of_le hK hne₂ hsize₂, fun heq => ?_⟩
    obtain ⟨p, hp⟩ := (operatorProgram_ok_iff hne₁).mpr hsize₁
    obtain ⟨q, hq⟩ := (operatorProgram_ok_iff hne₂).mpr hsize₂
    by_cases hpq : p = q
    · subst hpq
      exact .inl (keyProgram_inj hK hp hq).1
    · rw [addressFromBookkeepers_eq hp, addressFromBookkeepers_eq hq] at heq
      exact .inr ⟨p, q, hp, hq, p, by simp, q, by simp, hpq, heq⟩

end Operator

/-- Keys of one byte, which accept every signature. -/
def byteKeys : Keys where
  PublicKey := UInt8
  Signature := Bytes
  serializePublicKey key := [key]
  deserializePublicKey buf := orFail buf.head? (.error "")
  sortPublicKeys := id
  deserializeSignature := .ok
  verify _ _ _ := true

def byteCrypto : Crypto := { openCrypto with keys := byteKeys, vrfValidatePublicKey := fun _ => true }

theorem byteKeys_lawful : Lawful byteKeys where
  readBack _ := rfl
  bounded _ := show 1 < 2 ^ 64 by decide
  sorted keys := .refl keys
  single key keys m h := by
    have hlength : _ = 1 := congrArg List.length (encodeMultiPubKeyProgram_ok.mp h).2
    simp only [length_append, writeUint16, leBytes_length] at hlength
    omega

/-- A pool with the keys as consensus peers. -/
def operatorPool (keys : List UInt8) : Bytes :=
  writeVarUint (UInt64.ofNat keys.length) ++ keys.flatMap fun key =>
    PeerPoolItem.serialization ⟨0, ascii (toHex [key]), Address.empty, ConsensusStatus⟩

/-- A state with that pool. -/
def operatorState (keys : List UInt8) : NativeService :=
  { sampleService [] 1 with
    cacheDB := ((sampleService [] 1).cacheDB.put (nodeKey [GOVERNANCE_VIEW]) (genRawStorageItem
      (GovernanceView.serialization ⟨1, 0, Uint256.empty⟩))).put
        (nodeKey [PEER_POOL, getUint32Bytes 1]) (genRawStorageItem (operatorPool keys)) }

theorem operatorState_get {keys k raw} (h : (operatorState keys).cacheDB.get k = some raw) :
    (∃ args, k = nodeKey args) ∧ (raw = genRawStorageItem (operatorPool keys) ∨
      raw = genRawStorageItem (GovernanceView.serialization ⟨1, 0, Uint256.empty⟩)) := by
  simp only [operatorState, CacheDB.get_put] at h
  split_ifs at h with hpool hview
  · exact ⟨⟨_, hpool⟩, .inl (Option.some.inj h).symm⟩
  · exact ⟨⟨_, hview⟩, .inr (Option.some.inj h).symm⟩
  · cases h

/-- What the two functions return there. -/
def operatorRun (keys : List UInt8) : Result (List UInt8) × Result Address :=
  (((curConKeys byteCrypto).run (operatorState keys)).map Prod.fst,
    ((getCurConOperator byteCrypto).run (operatorState keys)).map Prod.fst)

/-- Two pools of seventeen consensus peers with no key in common have one operator address, the
empty one, and no program. -/
theorem operator_merged :
    operatorRun ((List.range 17).map UInt8.ofNat) =
        (.ok ((List.range 17).map UInt8.ofNat), .ok Address.empty) ∧
      operatorRun ((List.range' 17 17).map UInt8.ofNat) =
        (.ok ((List.range' 17 17).map UInt8.ofNat), .ok Address.empty) ∧
      ∀ keys : List byteKeys.PublicKey, keys.length = 17 →
        ¬ ∃ program, operatorProgram byteKeys keys = .ok program := by
  refine ⟨by decide +kernel, by decide +kernel, fun keys hlength h => ?_⟩
  have hsize := (operatorProgram_ok_iff (ne_nil_of_length_pos (by omega))).mp h
  omega

theorem exists_of_map_fst {α : Type} {r : Result (α × NativeService)} {a : α}
    (h : r.map Prod.fst = .ok a) : ∃ t, r = .ok (a, t) := by
  cases r with
  | error e => cases h
  | ok out => exact ⟨out.2, congrArg _ (Prod.ext (Except.ok.inj h) rfl)⟩

def fourKeys : List UInt8 := [1, 2, 3, 4]

theorem operator_unforgeable_four : ∃ a,
    operatorRun fourKeys = (.ok fourKeys, .ok a) ∧ Unforgeable byteCrypto fourKeys a := by
  have hrun : operatorRun fourKeys =
      (.ok fourKeys, .ok (zeroPad 20 [4, 0, 1, 1, 1, 2, 1, 3, 1, 4, 3])) := by decide +kernel
  obtain ⟨hkeys, haddress⟩ := Prod.mk.inj hrun
  obtain ⟨u, hkeys⟩ := exists_of_map_fst hkeys
  obtain ⟨t, haddress⟩ := exists_of_map_fst haddress
  have hne : fourKeys ≠ [] := by decide
  have h := (operator_unforgeable_iff (C := byteCrypto) byteKeys_lawful hkeys hkeys hne hne haddress
    haddress).mpr ⟨by decide, by decide⟩
  exact ⟨_, hrun, h.1⟩

end Poly.Governance
