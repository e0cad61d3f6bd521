import Poly.Core.Signature
import Poly.Native.Service

/-! The signature check of a transaction and what stands behind an address that it passes. -/
namespace Poly.TxPool

open Lib List

def TX_MAX_SIG_SIZE : ℕ := 16

/-- The codes of the pool and the validators. -/
inductive ErrCode where
  | noError
  | unknown
  | duplicatedTx
  | duplicateInput
  | transactionPayload
  | doubleSpend
  | retryExhausted
  | verifySignature
  deriving DecidableEq, Repr

variable (K : Keys)

/-- `signature.Verify`. -/
def verifySignature (key : K.PublicKey) (data raw : Bytes) : Result Unit :=
  match K.deserializeSignature raw with
  | .error _ => .error (.error "invalid signature data: ")
  | .ok sig => failIf (K.verify key data sig = false) (.error "signature verification failed")

variable (sha256 : Bytes → Uint256) (ripemd160 : Bytes → Address)

/-- One entry of `checkTransactionSignatures`: the address that it proves. -/
def checkSig (hash : Uint256) (sig : Sig K) : Result Address := do
  let m := sig.m.toNat
  let kn := sig.pubKeys.length
  let sn := sig.sigData.length
  failIf (kn > MULTI_SIG_MAX_PUBKEY_SIZE ∨ sn < m ∨ m > kn ∨ m ≤ 0)
    (.error "wrong tx sig param length")
  if kn = 1 then
    let key ← goIndex sig.pubKeys 0
    let raw ← goIndex sig.sigData 0
    match verifySignature K key hash.val raw with
    | .ok _ => return addressFromPubKey K sha256 ripemd160 key
    | .error _ => throw (.error "signature verification failed")
  else
    verifyMultiSignature K hash.val sig.pubKeys m sig.sigData
    let program ← encodeMultiPubKeyProgram K sig.pubKeys sig.m
    return addressFromVmCode sha256 ripemd160 program

/-- The signed addresses, each once. -/
def checkTransactionSignatures (tx : Transaction K) : Result (List Address) := do
  failIf (tx.sigs.length > TX_MAX_SIG_SIZE) (.error
    s!"transaction signature number {tx.sigs.length} execced {TX_MAX_SIG_SIZE}")
  let address ← tx.sigs.mapM (checkSig K sha256 ripemd160 tx.hash)
  return address.dedup

/-- `VerifyTransaction`; every payload is an invocation. -/
def verifyTransaction (tx : Transaction K) : ErrCode :=
  match checkTransactionSignatures K sha256 ripemd160 tx with
  | .error _ => .verifySignature
  | .ok _ => .noError

/-- The entry is for the address, and as many of its keys as it asks for, at different positions,
have signed the hash. -/
structure Proves (hash : Uint256) (sig : Sig K) (address : Address) : Prop where
  address_eq : sig.address K sha256 ripemd160 = .ok address
  positive : 0 < sig.m.toNat
  signed : ∃ js : List ℕ, js.length = sig.m.toNat ∧ js.Nodup ∧
    ∀ j ∈ js, ∃ key, sig.pubKeys[j]? = some key ∧ Signed K hash.val sig.sigData key

/-- Some signature of the transaction proves the address. -/
def Backed (tx : Transaction K) (address : Address) : Prop :=
  ∃ sig ∈ tx.sigs, Proves K sha256 ripemd160 tx.hash sig address

/-- What an entry that is accepted shows: its first `m` signatures verify at different positions. -/
structure Matched (hash : Uint256) (sig : Sig K) (address : Address) (js : List ℕ) : Prop where
  address_eq : sig.address K sha256 ripemd160 = .ok address
  positive : 0 < sig.m.toNat
  length_eq : js.length = sig.m.toNat
  nodup : js.Nodup
  signed : List.Forall₂ (SignedAt K hash.val sig.pubKeys) (sig.sigData.take sig.m.toNat) js

variable {K sha256 ripemd160}

theorem verifySignature_ok {key data raw u} (h : verifySignature K key data raw = .ok u) :
    ∃ sig, K.deserializeSignature raw = .ok sig ∧ K.verify key data sig = true := by
  unfold verifySignature at h
  cases hd : K.deserializeSignature raw with
  | error e =>
    rw [hd] at h
    cases h
  | ok sig =>
    rw [hd] at h
    exact ⟨sig, rfl, Bool.eq_true_of_not_eq_false (failIf_ok.mp h)⟩

variable {address : Address}

theorem checkSig_matched {hash sig} (h : checkSig K sha256 ripemd160 hash sig = .ok address) :
    ∃ js, Matched K sha256 ripemd160 hash sig address js := by
  obtain ⟨_, hparam, h⟩ := bind_ok.mp h
  have hparam := failIf_ok.mp hparam
  split at h
  next hone =>
    obtain ⟨key, hkey, h⟩ := bind_ok.mp h
    obtain ⟨raw, hraw, h⟩ := bind_ok.mp h
    have hm : sig.m.toNat = 1 := by omega
    have hkeys : sig.pubKeys = [key] := by
      obtain ⟨key', hkey'⟩ := length_eq_one_iff.mp hone
      have hfirst := orFail_ok.mp hkey
      rw [hkey'] at hfirst ⊢
      rw [Option.some.inj hfirst]
    have htake : sig.sigData.take sig.m.toNat = [raw] := by
      have hfirst := orFail_ok.mp hraw
      rw [hm, take_one, head?_eq_getElem?, hfirst]
      rfl
    cases hv : verifySignature K key hash.val raw with
    | error e =>
      rw [hv] at h
      cases h
    | ok u =>
      rw [hv] at h
      cases h
      refine ⟨[0], by rw [Sig.address, hkeys], by omega, hm.symm, nodup_singleton 0, ?_⟩
      rw [htake, hkeys]
      exact .cons ⟨key, rfl, verifySignature_ok hv⟩ .nil
  next hmany =>
    obtain ⟨_, hmulti, h⟩ := bind_ok.mp h
    obtain ⟨js, hlen, hnodup, hsigned⟩ := verifyMultiSignature_matched hmulti
    refine ⟨js, ?_, by omega, hlen, hnodup, hsigned⟩
    -- two keys or more, so the address is that of the multi-signature program
    match hkeys : sig.pubKeys with
    | [] =>
      rw [hkeys, length_nil] at hparam
      omega
    | [key] =>
      rw [hkeys] at hmany
      exact absurd rfl hmany
    | a :: b :: keys =>
      rw [hkeys] at h
      rw [Sig.address, hkeys]
      exact h

theorem checkSig_ok {hash sig} (h : checkSig K sha256 ripemd160 hash sig = .ok address) :
    Proves K sha256 ripemd160 hash sig address := by
  obtain ⟨js, hmatched⟩ := checkSig_matched h
  refine ⟨hmatched.address_eq, hmatched.positive, js, hmatched.length_eq, hmatched.nodup, ?_⟩
  intro j hj
  obtain ⟨key, hkey, raw, hraw, hsig⟩ := signed_of_matched hmatched.signed j hj
  exact ⟨key, hkey, raw, mem_of_mem_take hraw, hsig⟩

variable {tx : Transaction K}

theorem checkTransactionSignatures_ok {addresses}
    (h : checkTransactionSignatures K sha256 ripemd160 tx = .ok addresses) :
    address ∈ addresses ↔ ∃ sig ∈ tx.sigs, checkSig K sha256 ripemd160 tx.hash sig = .ok address := by
  obtain ⟨_, -, h⟩ := bind_ok.mp h
  obtain ⟨found, hfound, h⟩ := bind_ok.mp h
  cases h
  rw [mem_dedup]
  exact mem_mapM_ok hfound

theorem checkTransactionSignatures_congr {tx'} (hhash : tx.hash = tx'.hash)
    (hsigs : tx.sigs = tx'.sigs) : checkTransactionSignatures K sha256 ripemd160 tx =
      checkTransactionSignatures K sha256 ripemd160 tx' := by
  unfold checkTransactionSignatures
  rw [hhash, hsigs]

theorem verifyTransaction_noError :
    verifyTransaction K sha256 ripemd160 tx = .noError ↔
      ∃ addresses, checkTransactionSignatures K sha256 ripemd160 tx = .ok addresses := by
  unfold verifyTransaction
  cases checkTransactionSignatures K sha256 ripemd160 tx <;> simp

/-- A call outside other calls: the contract addresses play no part in `CheckWitness`. -/
theorem checkWitness_iff_account {s : Native.NativeService} (h : s.contexts.length < 2)
    (address : Address) : s.checkWitness address = true ↔ s.checkAccountAddress address = true := by
  have hcontract : s.checkContractAddress address = false := by
    unfold Native.NativeService.checkContractAddress Native.NativeService.callingContext
    rw [if_pos h]
    simp
  unfold Native.NativeService.checkWitness
  rw [hcontract, Bool.or_false]

/-- Where the signatures of a transaction check, every address that it is a witness of is backed
by them. -/
theorem backed_of_checkWitness {addresses}
    (hcheck : checkTransactionSignatures K sha256 ripemd160 tx = .ok addresses)
    (hsigned : tx.signedAddr = [] ∨ tx.signedAddr = addresses) {s : Native.NativeService}
    (hcontexts : s.contexts.length < 2)
    (htx : s.tx.signatureAddresses = (tx.getSignatureAddresses K sha256 ripemd160).toOption)
    (h : s.checkWitness address = true) : Backed K sha256 ripemd160 tx address := by
  have haccount := (checkWitness_iff_account hcontexts address).mp h
  unfold Native.NativeService.checkAccountAddress at haccount
  rw [htx] at haccount
  cases hget : tx.getSignatureAddresses K sha256 ripemd160 with
  | error e =>
    rw [hget] at haccount
    cases haccount
  | ok found =>
    have hmem : address ∈ found := by
      rw [hget] at haccount
      exact contains_iff_mem.mp haccount
    unfold Transaction.getSignatureAddresses at hget
    split at hget
    · obtain ⟨sig, hsig, haddr⟩ := (mem_mapM_ok hget).mp hmem
      obtain ⟨_, -, hcheck⟩ := bind_ok.mp hcheck
      obtain ⟨_, hall, -⟩ := bind_ok.mp hcheck
      obtain ⟨address', haddr'⟩ := exists_of_mapM_ok hall sig hsig
      have hproves := checkSig_ok haddr'
      cases ok_unique haddr hproves.address_eq
      exact ⟨sig, hsig, hproves⟩
    next hne =>
      cases hget
      have heq := hsigned.resolve_left hne
      obtain ⟨sig, hsig, haddr⟩ := (checkTransactionSignatures_ok hcheck).mp (heq ▸ hmem)
      exact ⟨sig, hsig, checkSig_ok haddr⟩

/-- The witnesses of a checked transaction are the same on a node that only decoded it, and each of
them is backed by as many signatures as its entry asks for. -/
theorem witnesses_agree {tx : Transaction K} {addresses : List Address}
    (h : checkTransactionSignatures K sha256 ripemd160 tx = .ok addresses) :
    ∃ decoded, { tx with signedAddr := [] }.getSignatureAddresses K sha256 ripemd160 = .ok decoded ∧
      (∀ a, a ∈ addresses ↔ a ∈ decoded) ∧
      (∀ (s : Native.NativeService) (a : Address),
        { s with tx := ⟨tx.hash, ({ tx with signedAddr := addresses }.getSignatureAddresses
            K sha256 ripemd160).toOption⟩ }.checkWitness a =
          { s with tx := ⟨tx.hash, ({ tx with signedAddr := [] }.getSignatureAddresses
            K sha256 ripemd160).toOption⟩ }.checkWitness a) ∧
      ∀ a ∈ addresses, ∃ sig ∈ tx.sigs, ∃ js, Matched K sha256 ripemd160 tx.hash sig a js := by
  have hmatched : ∀ a ∈ addresses, ∃ sig ∈ tx.sigs, ∃ js,
      Matched K sha256 ripemd160 tx.hash sig a js := by
    intro a ha
    obtain ⟨sig, hsig, hcheck⟩ := (checkTransactionSignatures_ok h).mp ha
    exact ⟨sig, hsig, checkSig_matched hcheck⟩
  obtain ⟨_, -, h⟩ := bind_ok.mp h
  obtain ⟨decoded, hmap, h⟩ := bind_ok.mp h
  cases h
  have hdecoded : { tx with signedAddr := [] }.getSignatureAddresses K sha256 ripemd160 =
      .ok decoded := by
    rw [Transaction.getSignatureAddresses]
    exact mapM_ok.mpr ((mapM_ok.mp hmap).imp fun sig a ha => (checkSig_ok ha).address_eq)
  refine ⟨decoded, hdecoded, fun a => mem_dedup, fun s a => ?_, hmatched⟩
  -- a validating node looks the addresses up anew only where there are none
  have hvalidated : ∃ found, { tx with signedAddr := decoded.dedup }.getSignatureAddresses
      K sha256 ripemd160 = .ok found ∧ ∀ a, a ∈ found ↔ a ∈ decoded := by
    by_cases hnil : decoded.dedup = []
    · exact ⟨decoded, by rw [hnil, hdecoded], fun _ => Iff.rfl⟩
    · exact ⟨decoded.dedup, if_neg hnil, fun _ => mem_dedup⟩
  obtain ⟨found, hfound, hmem⟩ := hvalidated
  have hcontains : found.contains a = decoded.contains a := by
    rw [Bool.eq_iff_iff, contains_iff_mem, contains_iff_mem, hmem]
  rw [hfound, hdecoded]
  exact congrArg (· || _) hcontains

def samplePair : Transaction openKeys :=
  ⟨⟨0, 0, 0, 0, 0, [], Address.empty⟩, [⟨[[0], [1]], [[2], [3]], 2⟩], [], Uint256.empty, []⟩

theorem witnesses_agree_pair : ∃ address,
    checkTransactionSignatures openKeys (zeroPad 32) (zeroPad 20) samplePair = .ok [address] ∧
      ∃ decoded, samplePair.getSignatureAddresses openKeys (zeroPad 32) (zeroPad 20) = .ok decoded ∧
        ∀ a, a ∈ [address] ↔ a ∈ decoded := by
  have hcheck : checkTransactionSignatures openKeys (zeroPad 32) (zeroPad 20) samplePair = .ok _ := rfl
  obtain ⟨decoded, hdecoded, hmem, -⟩ := witnesses_agree hcheck
  exact ⟨_, hcheck, decoded, hdecoded, hmem⟩

end Poly.TxPool
