import Poly.Core.Types

/-! Multi-signatures: every accepted signature belongs to a key of its own. -/
namespace Poly

open Lib List

variable (K : Keys)

/-- The inner loop: the first key that no earlier signature took and that verifies this one. -/
def findSigner (data : Bytes) (sig : K.Signature) (keys : List K.PublicKey) (mask : List Bool) :
    Option ℕ :=
  (keys.zip mask).findIdx? fun x => !x.2 && K.verify x.1 data sig

/-- The outer loop over the first `m` signatures. -/
def verifySignatures (data : Bytes) (keys : List K.PublicKey) : List Bytes → List Bool → Result Unit
  | [], _ => .ok ()
  | raw :: sigs, mask =>
    match K.deserializeSignature raw with
    | .error _ => .error (.error "invalid signature data")
    | .ok sig =>
      match findSigner K data sig keys mask with
      | none => .error (.error "multi-signature verification failed")
      | some j => verifySignatures data keys sigs (mask.set j true)

def verifyMultiSignature (data : Bytes) (keys : List K.PublicKey) (m : ℕ) (sigs : List Bytes) :
    Result Unit := do
  failIf (sigs.length < m) (.error "not enough signatures in multi-signature")
  verifySignatures K data keys (sigs.take m) (List.replicate keys.length false)

/-- One of the signatures verifies under the key. -/
def Signed (data : Bytes) (sigs : List Bytes) (key : K.PublicKey) : Prop :=
  ∃ raw ∈ sigs, ∃ sig, K.deserializeSignature raw = .ok sig ∧ K.verify key data sig = true

/-- A signature verifies under the key at a position. -/
def SignedAt (data : Bytes) (keys : List K.PublicKey) (raw : Bytes) (j : ℕ) : Prop :=
  ∃ key, keys[j]? = some key ∧
    ∃ sig, K.deserializeSignature raw = .ok sig ∧ K.verify key data sig = true

variable {K}

variable {data : Bytes} {sig : K.Signature} {keys : List K.PublicKey} {mask : List Bool}

theorem findSigner_eq_some {j : ℕ} (h : findSigner K data sig keys mask = some j) :
    mask[j]? = some false ∧ ∃ key, keys[j]? = some key ∧ K.verify key data sig = true := by
  obtain ⟨hlt, hp, -⟩ := findIdx?_eq_some_iff_getElem.mp h
  rw [length_zip, lt_min_iff] at hlt
  rw [getElem_zip, Bool.and_eq_true, Bool.not_eq_true'] at hp
  exact ⟨List.getElem?_eq_some_iff.mpr ⟨hlt.2, hp.1⟩, keys[j],
    List.getElem?_eq_some_iff.mpr ⟨hlt.1, rfl⟩, hp.2⟩

variable {sigs : List Bytes}

/-- Each signature of the loop takes a new position, free in the mask, whose key verifies it. -/
theorem verifySignatures_ok (h : verifySignatures K data keys sigs mask = .ok ()) :
    ∃ js : List ℕ, List.Forall₂ (SignedAt K data keys) sigs js ∧ js.Nodup ∧
      ∀ j ∈ js, mask[j]? = some false := by
  induction sigs generalizing mask with
  | nil => exact ⟨[], .nil, nodup_nil, by simp⟩
  | cons raw sigs ih =>
    rw [verifySignatures] at h
    cases hd : K.deserializeSignature raw with
    | error e => simp [hd] at h
    | ok sig =>
      cases hf : findSigner K data sig keys mask with
      | none => simp [hd, hf] at h
      | some j =>
        simp only [hd, hf] at h
        obtain ⟨js, hsigned, hnd, hjs⟩ := ih h
        obtain ⟨hfree, key, hkey, hv⟩ := findSigner_eq_some hf
        have hlt : j < mask.length := (List.getElem?_eq_some_iff.mp hfree).1
        -- position `j` is masked in the rest of the loop, so it is not taken again
        have hj : j ∉ js := by
          intro hm
          have := hjs j hm
          rw [getElem?_set_self hlt] at this
          cases this
        refine ⟨j :: js, .cons ⟨key, hkey, sig, hd, hv⟩ hsigned, nodup_cons.mpr ⟨hj, hnd⟩, ?_⟩
        intro i hi
        rcases mem_cons.mp hi with rfl | hi
        · exact hfree
        · have hne : j ≠ i := fun he => hj (he ▸ hi)
          have hmask := hjs i hi
          rwa [getElem?_set_ne hne] at hmask

/-- The first `m` signatures of an accepted multi-signature verify at different positions. -/
theorem verifyMultiSignature_matched {m : ℕ}
    (h : verifyMultiSignature K data keys m sigs = .ok ()) :
    ∃ js : List ℕ, js.length = m ∧ js.Nodup ∧
      List.Forall₂ (SignedAt K data keys) (sigs.take m) js := by
  obtain ⟨_, hm, h⟩ := bind_ok.mp h
  obtain ⟨js, hsigned, hnd, -⟩ := verifySignatures_ok h
  have hle : m ≤ sigs.length := not_lt.mp (failIf_ok.mp hm)
  exact ⟨js, by rw [← hsigned.length_eq, length_take, min_eq_left hle], hnd, hsigned⟩

theorem signed_of_matched {js} (h : List.Forall₂ (SignedAt K data keys) sigs js) :
    ∀ j ∈ js, ∃ key, keys[j]? = some key ∧ Signed K data sigs key := by
  induction h with
  | nil => exact nofun
  | cons hfirst _ ih =>
    obtain ⟨key, hkey, hsig⟩ := hfirst
    refine forall_mem_cons.mpr ⟨⟨key, hkey, _, mem_cons_self, hsig⟩, fun j hj => ?_⟩
    obtain ⟨key', hkey', raw, hraw, hsig'⟩ := ih j hj
    exact ⟨key', hkey', raw, mem_cons_of_mem _ hraw, hsig'⟩

/-- An accepted multi-signature has `m` keys at different positions that each signed. -/
theorem verifyMultiSignature_ok {m : ℕ} (h : verifyMultiSignature K data keys m sigs = .ok ()) :
    ∃ js : List ℕ, js.length = m ∧ js.Nodup ∧
      ∀ j ∈ js, ∃ key, keys[j]? = some key ∧ Signed K data sigs key := by
  obtain ⟨js, hlen, hnd, hsigned⟩ := verifyMultiSignature_matched h
  refine ⟨js, hlen, hnd, fun j hj => ?_⟩
  obtain ⟨key, hkey, raw, hraw, hsig⟩ := signed_of_matched hsigned j hj
  exact ⟨key, hkey, raw, mem_of_mem_take hraw, hsig⟩

theorem signed_of_verifyMultiSignature
    (h : verifyMultiSignature K data keys keys.length sigs = .ok ()) :
    ∀ key ∈ keys, Signed K data sigs key := by
  obtain ⟨js, hlen, hnodup, hjs⟩ := verifyMultiSignature_ok h
  have hsub : js.toFinset ⊆ Finset.range keys.length := by
    intro j hj
    obtain ⟨key, hkey, -⟩ := hjs j (mem_toFinset.mp hj)
    exact Finset.mem_range.mpr (List.getElem?_eq_some_iff.mp hkey).1
  have hall : js.toFinset = Finset.range keys.length := by
    apply Finset.eq_of_subset_of_card_le hsub
    rw [Finset.card_range, toFinset_card_of_nodup hnodup, hlen]
  intro key hkey
  obtain ⟨j, hj⟩ := mem_iff_getElem?.mp hkey
  have hmem : j ∈ js.toFinset := by
    rw [hall]
    exact Finset.mem_range.mpr (List.getElem?_eq_some_iff.mp hj).1
  obtain ⟨key', hkey', hsigned⟩ := hjs j (mem_toFinset.mp hmem)
  rw [hj] at hkey'
  exact Option.some.inj hkey' ▸ hsigned

theorem findSigner_isSome (hkeys : ∀ key ∈ keys, K.verify key data sig = true)
    (hlen : mask.length = keys.length) (hfree : false ∈ mask) :
    ∃ j, findSigner K data sig keys mask = some j := by
  apply Option.isSome_iff_exists.mp
  rw [findSigner, findIdx?_isSome, any_eq_true]
  obtain ⟨j, hj, hmask⟩ := mem_iff_getElem.mp hfree
  have hj' : j < (keys.zip mask).length := by
    rw [length_zip]
    omega
  refine ⟨(keys.zip mask).get ⟨j, hj'⟩, get_mem _ _, ?_⟩
  simp [hmask, hkeys]

variable (hkeys : ∀ key ∈ keys, ∀ sig, K.verify key data sig = true)
include hkeys

/-- Where all keys verify everything, the loop only needs a free position for each signature. -/
theorem verifySignatures_of_all (hsigs : ∀ raw ∈ sigs, ∃ sig, K.deserializeSignature raw = .ok sig)
    (hlen : mask.length = keys.length) (hfree : sigs.length ≤ mask.count false) :
    verifySignatures K data keys sigs mask = .ok () := by
  induction sigs generalizing mask with
  | nil => rfl
  | cons raw sigs ih =>
    obtain ⟨sig, hsig⟩ := hsigs raw mem_cons_self
    rw [length_cons] at hfree
    have hmem : false ∈ mask := count_pos_iff.mp (by omega)
    obtain ⟨j, hj⟩ := findSigner_isSome (fun key hkey => hkeys key hkey sig) hlen hmem
    obtain ⟨hlt, hget⟩ := List.getElem?_eq_some_iff.mp (findSigner_eq_some hj).1
    have hcount : (mask.set j true).count false = mask.count false - 1 := by
      rw [count_set hlt, hget]
      simp
    simp only [verifySignatures, hsig, hj]
    exact ih (fun r hr => hsigs r (mem_cons_of_mem raw hr))
      ((length_set ..).trans hlen) (by omega)

theorem verifyMultiSignature_of_all {raw} (hraw : K.deserializeSignature raw = .ok sig) :
    verifyMultiSignature K data keys keys.length (List.replicate keys.length raw) = .ok () := by
  rw [verifyMultiSignature, length_replicate, failIf_of_not (Nat.lt_irrefl _)]
  apply verifySignatures_of_all hkeys
  · intro r hr
    rw [eq_of_mem_replicate (mem_of_mem_take hr)]
    exact ⟨sig, hraw⟩
  · exact length_replicate
  · simp

end Poly
