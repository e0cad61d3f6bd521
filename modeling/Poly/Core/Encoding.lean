import Poly.Core.Decoding

/-! The encoders of headers, transactions and blocks: what they write is read back, and what becomes of
a received block when it is written again. -/
namespace Poly

open Lib Source Sink Reader List

section Model

/-- All fields of the unsigned part of a transaction. The payload is an `InvokeCode`. -/
structure TxFields extends UnsignedTx where
  txType : UInt8
  attributes : Bytes
  coinType : UInt8
  deriving DecidableEq

namespace TxFields

def bytes (tx : TxFields) : Bytes :=
  tx.version :: tx.txType :: (writeUint32 tx.nonce ++ writeUint64 tx.chainID ++
    writeUint64 tx.gasLimit ++ writeUint64 tx.gasPrice ++ writeVarBytes tx.code ++
    writeVarBytes tx.attributes ++ tx.payer.val ++ [tx.coinType])

def serializeUnsigned (tx : TxFields) : Result Bytes := do
  failIf (tx.version > CURR_TX_VERSION) (.error s!"invalid tx version:{tx.version}")
  failIf (tx.attributes.length > MAX_ATTRIBUTES_LEN) (.error ("attributes length " ++
    printBytes tx.attributes ++ s!" over max length {MAX_ATTRIBUTES_LEN}"))
  return tx.bytes

/-- The limits that the decoder checks. -/
structure Limits (tx : TxFields) : Prop where
  version : ¬ tx.version > CURR_TX_VERSION
  txType : tx.txType = 0xd1
  attributes : tx.attributes.length ≤ MAX_ATTRIBUTES_LEN
  coinType : tx.coinType = 0

end TxFields

/-- The fields of a transaction as the decoder accepts it. -/
def UnsignedTx.fields (tx : UnsignedTx) : TxFields := ⟨tx, 0xd1, [], 0⟩

variable {K : Keys}

def Sig.bytes (sig : Sig K) : Bytes :=
  writeUint16 (UInt16.ofNat sig.sigData.length) ++ sig.sigData.flatMap writeVarBytes ++
    writeUint16 (UInt16.ofNat sig.pubKeys.length) ++
    sig.pubKeys.flatMap (fun key => writeVarBytes (K.serializePublicKey key)) ++ writeUint16 sig.m

def Sig.serialize (sig : Sig K) : Result Bytes := do
  failIf (sig.pubKeys.length = 0) (.error "[Sig Serialize] no pubkeys in sig")
  return sig.bytes

def Transaction.serialization (tx : Transaction K) : Result Bytes := do
  let unsigned ← tx.toUnsignedTx.fields.serializeUnsigned
  let sigs ← tx.sigs.mapM Sig.serialize
  return unsigned ++ writeVarUint (UInt64.ofNat tx.sigs.length) ++ sigs.flatten

def Header.serialization (bd : Header K) : Result Bytes := do
  let unsigned ← bd.serializationUnsigned
  return unsigned ++ writeVarUint (UInt64.ofNat bd.bookkeepers.length) ++
    bd.bookkeepers.flatMap (fun key => writeVarBytes (K.serializePublicKey key)) ++
    writeVarUint (UInt64.ofNat bd.sigData.length) ++ bd.sigData.flatMap writeVarBytes

def Block.serialization (b : Block K) : Result Bytes := do
  let header ← b.header.serialization
  let transactions ← b.transactions.mapM Transaction.serialization
  return header ++ writeUint32 (UInt32.ofNat b.transactions.length) ++ transactions.flatten

end Model

section Written

variable {K : Keys}

/-- What `Transaction.Serialization` writes. -/
def Transaction.bytes (tx : Transaction K) : Bytes :=
  tx.toUnsignedTx.fields.bytes ++ writeVarUint (UInt64.ofNat tx.sigs.length) ++
    tx.sigs.flatMap Sig.bytes

/-- What `Header.Serialization` writes. -/
def Header.encoding (bd : Header K) : Bytes :=
  bd.bytes ++ writeVarUint (UInt64.ofNat bd.bookkeepers.length) ++
    bd.bookkeepers.flatMap (fun key => writeVarBytes (K.serializePublicKey key)) ++
    writeVarUint (UInt64.ofNat bd.sigData.length) ++ bd.sigData.flatMap writeVarBytes

/-- What `Block.Serialization` writes. -/
def Block.bytes (b : Block K) : Bytes :=
  b.header.encoding ++ writeUint32 (UInt32.ofNat b.transactions.length) ++
    b.transactions.flatMap Transaction.bytes

variable {out : Bytes}

theorem Sig.serialize_ok {sig : Sig K} :
    sig.serialize = .ok out ↔ sig.pubKeys ≠ [] ∧ out = sig.bytes := by
  constructor
  · intro h
    obtain ⟨_, hf, h⟩ := bind_ok.mp h
    cases h
    exact ⟨fun he => failIf_ok.mp hf (length_eq_zero_iff.mpr he), rfl⟩
  · rintro ⟨hkeys, rfl⟩
    exact bind_ok.mpr ⟨(), failIf_of_not (fun he => hkeys (length_eq_zero_iff.mp he)), rfl⟩

theorem UnsignedTx.serializeUnsigned_ok {tx : UnsignedTx} :
    tx.fields.serializeUnsigned = .ok out ↔ ¬ tx.version > CURR_TX_VERSION ∧ out = tx.fields.bytes := by
  constructor
  · intro h
    obtain ⟨_, hversion, h⟩ := bind_ok.mp h
    exact ⟨failIf_ok.mp hversion, (Except.ok.inj h).symm⟩
  · rintro ⟨hversion, rfl⟩
    exact bind_ok.mpr ⟨(), failIf_of_not hversion,
      bind_ok.mpr ⟨(), failIf_of_not (Nat.not_lt_zero _), rfl⟩⟩

theorem Transaction.serialization_ok {tx : Transaction K} :
    tx.serialization = .ok out ↔
      (¬ tx.version > CURR_TX_VERSION ∧ ∀ sig ∈ tx.sigs, sig.pubKeys ≠ []) ∧ out = tx.bytes := by
  have hsigs {out : List Bytes} : tx.sigs.mapM Sig.serialize = .ok out ↔
      (∀ sig ∈ tx.sigs, sig.pubKeys ≠ []) ∧ out = tx.sigs.map Sig.bytes :=
    mapM_eq_ok_map fun _ _ => Sig.serialize_ok
  constructor
  · intro h
    obtain ⟨unsigned, hu, h⟩ := bind_ok.mp h
    obtain ⟨sigs, hs, h⟩ := bind_ok.mp h
    cases h
    obtain ⟨hversion, rfl⟩ := UnsignedTx.serializeUnsigned_ok.mp hu
    obtain ⟨hkeys, rfl⟩ := hsigs.mp hs
    exact ⟨⟨hversion, hkeys⟩, by rw [Transaction.bytes, flatMap_def]⟩
  · rintro ⟨⟨hversion, hkeys⟩, rfl⟩
    refine bind_ok.mpr ⟨_, UnsignedTx.serializeUnsigned_ok.mpr ⟨hversion, rfl⟩, ?_⟩
    refine bind_ok.mpr ⟨_, hsigs.mpr ⟨hkeys, rfl⟩, ?_⟩
    rw [Transaction.bytes]
    rfl

theorem Header.serialization_ok {bd : Header K} :
    bd.serialization = .ok out ↔ ¬ bd.version > CURR_HEADER_VERSION ∧ out = bd.encoding := by
  constructor
  · intro h
    obtain ⟨unsigned, hu, h⟩ := bind_ok.mp h
    obtain ⟨_, hversion, hu⟩ := bind_ok.mp hu
    cases hu
    exact ⟨failIf_ok.mp hversion, (Except.ok.inj h).symm⟩
  · rintro ⟨hversion, rfl⟩
    have hunsigned : bd.serializationUnsigned = .ok bd.bytes :=
      bind_ok.mpr ⟨(), failIf_of_not hversion, rfl⟩
    exact bind_ok.mpr ⟨_, hunsigned, rfl⟩

theorem Block.serialization_ok {b : Block K} :
    b.serialization = .ok out ↔ ¬ b.header.version > CURR_HEADER_VERSION ∧
      (∀ tx ∈ b.transactions,
        ¬ tx.version > CURR_TX_VERSION ∧ ∀ sig ∈ tx.sigs, sig.pubKeys ≠ []) ∧ out = b.bytes := by
  have htxs {out : List Bytes} : b.transactions.mapM Transaction.serialization = .ok out ↔
      (∀ tx ∈ b.transactions,
        ¬ tx.version > CURR_TX_VERSION ∧ ∀ sig ∈ tx.sigs, sig.pubKeys ≠ []) ∧
      out = b.transactions.map Transaction.bytes :=
    mapM_eq_ok_map fun _ _ => Transaction.serialization_ok
  constructor
  · intro h
    obtain ⟨header, hh, h⟩ := bind_ok.mp h
    obtain ⟨txs, ht, h⟩ := bind_ok.mp h
    cases h
    obtain ⟨hversion, rfl⟩ := Header.serialization_ok.mp hh
    obtain ⟨hall, rfl⟩ := htxs.mp ht
    exact ⟨hversion, hall, by rw [Block.bytes, flatMap_def]⟩
  · rintro ⟨hversion, hall, rfl⟩
    refine bind_ok.mpr ⟨_, Header.serialization_ok.mpr ⟨hversion, rfl⟩, ?_⟩
    refine bind_ok.mpr ⟨_, htxs.mpr ⟨hall, rfl⟩, ?_⟩
    rw [Block.bytes]
    rfl

end Written

section ReadBack

variable {K : Keys} {sha256 : Bytes → Uint256}

theorem length_le_flatMap {α β : Type} {w : α → List β} {l : List α} {a : α} (h : a ∈ l) :
    (w a).length ≤ (l.flatMap w).length :=
  (sublist_flatten_of_mem (mem_map_of_mem h)).length_le

/-- A list is not longer than what is written for it. -/
theorem length_le_flatMap_of_pos {α β : Type} {w : α → List β} (hw : ∀ a, 1 ≤ (w a).length)
    (l : List α) : l.length ≤ (l.flatMap w).length := by
  induction l with
  | nil => exact le_rfl
  | cons a l ih =>
    have ha := hw a
    rw [flatMap_cons, length_append, length_cons]
    omega

/-- The lengths that a signature entry writes as 16-bit counts. -/
structure Sig.Fits (sig : Sig K) : Prop where
  sigData_lt : sig.sigData.length < 2 ^ 16
  pubKeys_lt : sig.pubKeys.length < 2 ^ 16

/-- The limits that the decoder checks of a transaction, and the 16-bit counts of its signatures. -/
structure Transaction.Fits (tx : Transaction K) : Prop where
  version_le : ¬ tx.version > CURR_TX_VERSION
  size_le : tx.bytes.length ≤ MAX_TX_SIZE
  sigs : ∀ sig ∈ tx.sigs, sig.Fits

/-- The limit that the decoder checks of a header; its slices have lengths that `int` can hold. -/
structure Header.Fits (bd : Header K) : Prop where
  unsigned : bd.toUnsignedHeader.Valid
  bookkeepers_lt : bd.bookkeepers.length < 2 ^ 63
  key_lt : ∀ key ∈ bd.bookkeepers, (K.serializePublicKey key).length < 2 ^ 64
  sigData_lt : bd.sigData.length < 2 ^ 63
  sig_lt : ∀ sig ∈ bd.sigData, sig.length < 2 ^ 64

structure Block.Fits (b : Block K) : Prop where
  header : b.header.Fits
  transactions : ∀ tx ∈ b.transactions, tx.Fits

/-- Every key is read back from its encoding. -/
def Keys.ReadBack (K : Keys) : Prop :=
  ∀ key, K.deserializePublicKey (K.serializePublicKey key) = .ok key

theorem roundTrip_varBytes (eof : Failure) :
    RoundTrip (nextVarBytes eof) writeVarBytes fun data => data.length < 2 ^ 64 :=
  fun data h rest => nextVarBytes_run eof data h rest

theorem roundTrip_publicKey (hK : K.ReadBack) (eof : Failure) :
    RoundTrip (nextPublicKey K eof) (fun key => writeVarBytes (K.serializePublicKey key))
      fun key => (K.serializePublicKey key).length < 2 ^ 64 := by
  intro key h rest
  refine run_bind_ok.mpr ⟨_, _, nextVarBytes_run eof _ h rest, ?_⟩
  rw [hK key]
  rfl

theorem roundTrip_unsignedTx : RoundTrip UnsignedTx.deserializationUnsigned
    (fun tx => tx.fields.bytes)
    fun tx => ¬ tx.version > CURR_TX_VERSION ∧ tx.code.length < 2 ^ 64 := by
  rintro tx ⟨hversion, hcode⟩ rest
  simp (disch := first | assumption | decide) [UnsignedTx.deserializationUnsigned, TxFields.bytes,
    UnsignedTx.fields]

theorem roundTrip_sig (hK : K.ReadBack) : RoundTrip (Sig.deserialize K) Sig.bytes
    fun sig => sig.Fits ∧ sig.bytes.length < 2 ^ 64 := by
  rintro sig ⟨hfits, hsize⟩ rest
  have hparts : (sig.sigData.flatMap writeVarBytes).length ≤ sig.bytes.length ∧
      (sig.pubKeys.flatMap fun key => writeVarBytes (K.serializePublicKey key)).length ≤
        sig.bytes.length := by
    simp only [Sig.bytes, length_append]
    omega
  have hdata : ∀ data ∈ sig.sigData, data.length < 2 ^ 64 := by
    intro data hmem
    have hle := length_le_flatMap (w := writeVarBytes) hmem
    have := length_le_writeVarBytes data
    omega
  have hkeys : ∀ key ∈ sig.pubKeys, (K.serializePublicKey key).length < 2 ^ 64 := by
    intro key hmem
    have hle := length_le_flatMap (w := fun key => writeVarBytes (K.serializePublicKey key)) hmem
    have := length_le_writeVarBytes (K.serializePublicKey key)
    omega
  unfold Sig.bytes
  simp only [append_assoc]
  refine run_bind_ok.mpr ⟨_, _, nextUint16_run _ _ _, ?_⟩
  rw [UInt16.toNat_ofNat_of_lt' hfits.sigData_lt]
  refine run_bind_ok.mpr ⟨_, _, roundTrip_replicate (roundTrip_varBytes _) _ hdata _, ?_⟩
  refine run_bind_ok.mpr ⟨_, _, nextUint16_run _ _ _, ?_⟩
  rw [UInt16.toNat_ofNat_of_lt' hfits.pubKeys_lt]
  refine run_bind_ok.mpr ⟨_, _, roundTrip_replicate (roundTrip_publicKey hK _) _ hkeys _, ?_⟩
  exact run_bind_ok.mpr ⟨_, _, nextUint16_run _ _ _, rfl⟩

theorem roundTrip_header (hK : K.ReadBack) :
    RoundTrip (Header.deserialization K) Header.encoding Header.Fits := by
  intro bd h rest
  have hcount {n : ℕ} (hn : n < 2 ^ 63) : loopCount (UInt64.ofNat n) = n := by
    rw [loopCount, UInt64.toNat_ofNat_of_lt' (show n < 2 ^ 64 by omega), if_pos hn]
  unfold Header.encoding
  simp only [append_assoc]
  refine run_bind_ok.mpr ⟨_, _, roundTrip_unsignedHeader _ h.unsigned _, ?_⟩
  refine run_bind_ok.mpr ⟨_, _, nextVarUint_run _ _ _, ?_⟩
  rw [hcount h.bookkeepers_lt]
  refine run_bind_ok.mpr ⟨_, _, roundTrip_replicate (roundTrip_publicKey hK _) _ h.key_lt _, ?_⟩
  refine run_bind_ok.mpr ⟨_, _, nextVarUint_run _ _ _, ?_⟩
  rw [hcount h.sigData_lt]
  exact run_bind_ok.mpr ⟨_, _, roundTrip_replicate (roundTrip_varBytes _) _ h.sig_lt _, rfl⟩

theorem Sig.length_bytes_pos (sig : Sig K) : 1 ≤ sig.bytes.length := by
  simp only [Sig.bytes, length_append, writeUint16, leBytes_length]
  omega

/-- The transaction that is read back: its hash is taken of what was written. -/
def Transaction.reread (sha256 : Bytes → Uint256) (tx : Transaction K) : Transaction K :=
  { tx with
    raw := tx.bytes
    hash := doubleSha256 sha256 tx.toUnsignedTx.fields.bytes
    signedAddr := [] }

/-- The size limit bounds every length and count in a transaction. -/
theorem Transaction.Fits.parts {tx : Transaction K} (h : tx.Fits) :
    tx.code.length < 2 ^ 64 ∧ tx.sigs.length ≤ MAX_TX_SIZE ∧
      ∀ sig ∈ tx.sigs, sig.Fits ∧ sig.bytes.length < 2 ^ 64 := by
  have hmax : tx.bytes.length ≤ 1024 * 1024 := h.size_le
  have hsize : tx.bytes.length = tx.toUnsignedTx.fields.bytes.length +
      (writeVarUint (UInt64.ofNat tx.sigs.length)).length +
      (tx.sigs.flatMap Sig.bytes).length := by
    simp only [Transaction.bytes, length_append]
  refine ⟨?_, ?_, fun sig hmem => ⟨h.sigs sig hmem, ?_⟩⟩
  · have hcode := length_le_writeVarBytes tx.code
    have hpart : (writeVarBytes tx.code).length ≤ tx.toUnsignedTx.fields.bytes.length := by
      simp only [TxFields.bytes, UnsignedTx.fields, length_append, length_cons]
      omega
    omega
  · have hsigs := length_le_flatMap_of_pos Sig.length_bytes_pos tx.sigs
    rw [MAX_TX_SIZE]
    omega
  · have hsig := length_le_flatMap (w := Sig.bytes) hmem
    omega

variable (sha256) in
theorem Transaction.deserialization_bytes (hK : K.ReadBack) {tx : Transaction K} (h : tx.Fits)
    (rest : Bytes) : (Transaction.deserialization K sha256).run (tx.bytes ++ rest) =
      .ok (tx.reread sha256, rest) := by
  obtain ⟨hcode, hcount, hsigs⟩ := h.parts
  rw [MAX_TX_SIZE] at hcount
  have hinput : tx.bytes ++ rest = tx.toUnsignedTx.fields.bytes ++
      (writeVarUint (UInt64.ofNat tx.sigs.length) ++ (tx.sigs.flatMap Sig.bytes ++ rest)) := by
    simp only [Transaction.bytes, append_assoc]
  have hunsigned := roundTrip_unsignedTx tx.toUnsignedTx ⟨h.version_le, hcode⟩
    (writeVarUint (UInt64.ofNat tx.sigs.length) ++ (tx.sigs.flatMap Sig.bytes ++ rest))
  rw [← hinput] at hunsigned
  refine run_bind_ok.mpr ⟨_, _, rfl, run_bind_ok.mpr ⟨_, _, hunsigned, ?_⟩⟩
  refine run_bind_ok.mpr ⟨_, _, rfl, run_bind_ok.mpr ⟨_, _, nextVarUint_run _ _ _, ?_⟩⟩
  rw [UInt64.toNat_ofNat_of_lt' (show tx.sigs.length < 2 ^ 64 by omega)]
  refine run_bind_ok.mpr ⟨(), _, run_failIf_ok.mpr ⟨?_, rfl⟩, ?_⟩
  · rw [MAX_SIGS]
    omega
  refine run_bind_ok.mpr ⟨_, _, roundTrip_replicate (roundTrip_sig hK) _ hsigs _, ?_⟩
  refine run_bind_ok.mpr ⟨_, _, rfl, ?_⟩
  rw [consumed_append]
  refine run_bind_ok.mpr ⟨(), _, run_failIf_ok.mpr ⟨not_lt.mpr h.size_le, rfl⟩, ?_⟩
  rw [hinput, consumed_append]
  rfl

variable (sha256) in
/-- Of a row of written transactions the decoder reads back all, provided that no hash occurs
twice. -/
theorem nextTransactions_bytes (hK : K.ReadBack) {txs : List (Transaction K)}
    (hfits : ∀ tx ∈ txs, tx.Fits) (mask : List Uint256) (rest : Bytes) {left out} :
    (nextTransactions K sha256 txs.length mask).run (txs.flatMap Transaction.bytes ++ rest) =
        .ok (out, left) ↔
      ((txs.map (Transaction.reread sha256)).map Transaction.hash).Nodup ∧
      (∀ tx ∈ txs, (tx.reread sha256).hash ∉ mask) ∧
      out = txs.map (Transaction.reread sha256) ∧ left = rest := by
  induction txs generalizing mask out with
  | nil =>
    constructor
    · intro h
      cases h
      exact ⟨nodup_nil, nofun, rfl, rfl⟩
    · rintro ⟨-, -, rfl, rfl⟩
      rfl
  | cons tx txs ih =>
    obtain ⟨htx, htxs⟩ := forall_mem_cons.mp hfits
    have hfirst := Transaction.deserialization_bytes sha256 hK htx
      (txs.flatMap Transaction.bytes ++ rest)
    rw [flatMap_cons, append_assoc, length_cons, nextTransactions,
      run_bind_of_ok hfirst]
    constructor
    · intro h
      obtain ⟨_, _, hnew, h⟩ := run_bind_ok.mp h
      obtain ⟨hfresh, rfl⟩ := run_failIf_ok.mp hnew
      obtain ⟨txs', _, hothers, h⟩ := run_bind_ok.mp h
      cases h
      obtain ⟨hnodup, hmask, rfl, rfl⟩ := (ih htxs _).mp hothers
      refine ⟨nodup_cons.mpr ⟨?_, hnodup⟩, forall_mem_cons.mpr ⟨hfresh, ?_⟩, rfl, rfl⟩
      · intro hmem
        obtain ⟨tx', hmem', he⟩ := mem_map.mp hmem
        obtain ⟨tx'', hmem'', rfl⟩ := mem_map.mp hmem'
        exact hmask tx'' hmem'' (he ▸ mem_cons_self)
      · exact fun tx' hmem hin => hmask tx' hmem (mem_cons_of_mem _ hin)
    · rintro ⟨hnodup, hmask, rfl, rfl⟩
      obtain ⟨hnew, hnodup⟩ := nodup_cons.mp hnodup
      obtain ⟨hfresh, hmask⟩ := forall_mem_cons.mp hmask
      refine run_bind_ok.mpr ⟨(), _, run_failIf_ok.mpr ⟨hfresh, rfl⟩, ?_⟩
      refine run_bind_ok.mpr ⟨_, _, (ih htxs _).mpr ⟨hnodup, ?_, rfl, rfl⟩, rfl⟩
      intro tx' hmem hin
      rcases mem_cons.mp hin with he | hin
      · exact hnew (he ▸ mem_map_of_mem (mem_map_of_mem hmem))
      · exact hmask tx' hmem hin

/-- The block that is read back. -/
def Block.reread (sha256 : Bytes → Uint256) (b : Block K) : Block K :=
  ⟨b.header, b.transactions.map (Transaction.reread sha256)⟩

theorem Block.deserialization_bytes (hK : K.ReadBack) {b : Block K} (hfits : b.Fits)
    (hcount : b.transactions.length < 2 ^ 32) {out left} :
    (Block.deserialization K sha256).run b.bytes = .ok (out, left) ↔
      ((b.reread sha256).transactions.map Transaction.hash).Nodup ∧
      b.header.transactionsRoot =
        computeMerkleRoot sha256 ((b.reread sha256).transactions.map Transaction.hash) ∧
      out = b.reread sha256 ∧ left = [] := by
  have hinput : b.bytes = b.header.encoding ++ (writeUint32 (UInt32.ofNat b.transactions.length) ++
      (b.transactions.flatMap Transaction.bytes ++ [])) := by
    simp only [Block.bytes, append_assoc, append_nil]
  have htxs {out : List (Transaction K)} {left : Bytes} :
      (nextTransactions K sha256 b.transactions.length []).run
          (b.transactions.flatMap Transaction.bytes ++ []) = .ok (out, left) ↔ _ :=
    nextTransactions_bytes sha256 hK hfits.transactions [] []
  rw [hinput, Block.deserialization, run_bind_of_ok (roundTrip_header hK _ hfits.header _),
    run_bind_of_ok (nextUint32_run _ _ _), UInt32.toNat_ofNat_of_lt' hcount]
  constructor
  · intro h
    obtain ⟨txs, _, ht, h⟩ := run_bind_ok.mp h
    obtain ⟨hnodup, -, rfl, rfl⟩ := htxs.mp ht
    obtain ⟨_, _, hcheck, h⟩ := run_bind_ok.mp h
    obtain ⟨hroot, rfl⟩ := run_failIf_ok.mp hcheck
    cases h
    exact ⟨hnodup, not_not.mp hroot, rfl, rfl⟩
  · rintro ⟨hnodup, hroot, rfl, rfl⟩
    refine run_bind_ok.mpr ⟨_, _, htxs.mpr ⟨hnodup, fun _ _ => not_mem_nil, rfl, rfl⟩, ?_⟩
    exact run_bind_ok.mpr ⟨(), _, run_failIf_ok.mpr ⟨not_not.mpr hroot, rfl⟩, rfl⟩

theorem nextTransactions_length {n mask bs rest txs}
    (h : (nextTransactions K sha256 n mask).run bs = .ok (txs, rest)) : txs.length = n := by
  induction n generalizing mask bs txs with
  | zero =>
    cases h
    rfl
  | succ n ih =>
    obtain ⟨tx, s₁, -, h⟩ := run_bind_ok.mp h
    obtain ⟨_, s₂, -, h⟩ := run_bind_ok.mp h
    obtain ⟨txs, s₃, hr, h⟩ := run_bind_ok.mp h
    cases h
    rw [length_cons, ih hr]

theorem Block.length_transactions_lt {bs rest b}
    (h : (Block.deserialization K sha256).run bs = .ok (b, rest)) :
    b.transactions.length < 2 ^ 32 := by
  obtain ⟨header, s₁, -, h⟩ := run_bind_ok.mp h
  obtain ⟨length, s₂, -, h⟩ := run_bind_ok.mp h
  obtain ⟨txs, s₃, ht, h⟩ := run_bind_ok.mp h
  obtain ⟨_, s₄, -, h⟩ := run_bind_ok.mp h
  cases h
  rw [nextTransactions_length ht]
  exact length.toNat_lt

end ReadBack

variable {K : Keys} {sha256 : Bytes → Uint256}

/-- A block within the limits, with a key for every signature, whose transactions carry the hashes
of their unsigned encodings, each once, and whose header carries the root of these. -/
structure Block.Consistent (sha256 : Bytes → Uint256) (b : Block K) : Prop where
  fits : b.Fits
  keys : ∀ tx ∈ b.transactions, ∀ sig ∈ tx.sigs, sig.pubKeys ≠ []
  hash_eq : ∀ tx ∈ b.transactions, tx.hash = doubleSha256 sha256 tx.toUnsignedTx.fields.bytes
  nodup : (b.transactions.map Transaction.hash).Nodup
  root_eq : b.header.transactionsRoot =
    computeMerkleRoot sha256 (b.transactions.map Transaction.hash)

theorem Block.Fits.serialization {b : Block K} (h : b.Fits)
    (hkeys : ∀ tx ∈ b.transactions, ∀ sig ∈ tx.sigs, sig.pubKeys ≠ []) :
    b.serialization = .ok b.bytes :=
  Block.serialization_ok.mpr ⟨h.header.unsigned.version_le,
    fun tx hmem => ⟨(h.transactions tx hmem).version_le, hkeys tx hmem⟩, rfl⟩

/-- The block with the same header, transactions, signatures and hashes; each transaction keeps the
bytes that it was read from. -/
def Block.received (b : Block K) : Block K :=
  ⟨b.header, b.transactions.map fun tx => { tx with raw := tx.bytes, signedAddr := [] }⟩

theorem Block.Consistent.reread_eq {b : Block K} (h : b.Consistent sha256) :
    b.reread sha256 = b.received := by
  refine congrArg (Block.mk b.header) (map_congr_left fun tx hmem => ?_)
  rw [Transaction.reread, ← h.hash_eq tx hmem]

theorem Block.Consistent.deserialization_iff (hK : K.ReadBack) {b : Block K}
    (h : b.Consistent sha256) :
    (Block.deserialization K sha256).run b.bytes = .ok (b.received, []) ↔
      b.transactions.length < 2 ^ 32 := by
  constructor
  · intro hrun
    have hlt := Block.length_transactions_lt hrun
    rwa [Block.received, length_map] at hlt
  · intro hcount
    have hhashes : b.received.transactions.map Transaction.hash =
        b.transactions.map Transaction.hash := by
      rw [Block.received, map_map]
      rfl
    refine (Block.deserialization_bytes hK h.fits hcount).mpr ?_
    rw [h.reread_eq, hhashes]
    exact ⟨h.nodup, h.root_eq, rfl, rfl⟩

/-- A consistent block is written, and read back in full with nothing left over, exactly when its
number of transactions fits the 32-bit count. -/
theorem block_roundTrip (hK : K.ReadBack) {b : Block K} (h : b.Consistent sha256) :
    ∃ out, b.serialization = .ok out ∧
      ((Block.deserialization K sha256).run out = .ok (b.received, []) ↔
        b.transactions.length < 2 ^ 32) :=
  ⟨b.bytes, h.fits.serialization h.keys, h.deserialization_iff hK⟩

/-- A hash that keeps digests and maps an unsigned transaction to its nonce. -/
def nonceHash (m : Bytes) : Uint256 :=
  if h : m.length = 32 then ⟨m, h⟩ else zeroPad 32 ((m.drop 2).take 4)

variable (n : ℕ)

def numberedTx : Transaction openKeys where
  version := 0
  nonce := UInt32.ofNat n
  chainID := 0
  gasLimit := 0
  gasPrice := 0
  code := []
  payer := Address.empty
  sigs := [⟨[[7]], [[5]], 1⟩]
  raw := []
  hash := zeroPad 32 (writeUint32 (UInt32.ofNat n))
  signedAddr := []

/-- A block of `n` transactions that differ in their nonces. -/
def numberedBlock : Block openKeys :=
  ⟨⟨⟨0, 0, Uint256.empty, computeMerkleRoot nonceHash
      (((List.range n).map numberedTx).map Transaction.hash), Uint256.empty, Uint256.empty, 0, 0, 0,
    [], Address.empty⟩, [], []⟩, (List.range n).map numberedTx⟩

theorem openKeys_readBack : openKeys.ReadBack := fun _ => rfl

theorem numberedTx_length : (numberedTx n).bytes.length = 64 := by
  rw [Transaction.bytes]
  rfl

theorem numberedTx_hash :
    doubleSha256 nonceHash (numberedTx n).toUnsignedTx.fields.bytes = (numberedTx n).hash := by
  have hinner : nonceHash (numberedTx n).toUnsignedTx.fields.bytes =
      zeroPad 32 (writeUint32 (UInt32.ofNat n)) := by
    rw [nonceHash]
    rfl
  rw [doubleSha256, hinner, nonceHash]
  rfl

theorem numberedTx_hash_inj {m n : ℕ} (hm : m < 2 ^ 32) (hn : n < 2 ^ 32)
    (h : (numberedTx m).hash = (numberedTx n).hash) : m = n := by
  have hval {i : ℕ} (hi : i < 2 ^ 32) : (numberedTx i).hash.val = leBytes 32 i := by
    have hword : leNat (writeUint32 (UInt32.ofNat i)) = i := by
      rw [writeUint32, UInt32.toNat_ofNat_of_lt' hi]
      exact leNat_leBytes 4 i hi
    exact congrArg (leBytes 32) hword
  have hbytes : leBytes 32 m = leBytes 32 n := by
    rw [← hval hm, ← hval hn, h]
  exact leBytes_inj (by omega) (by omega) hbytes

theorem numberedBlock_length : (numberedBlock n).transactions.length = n := by
  rw [numberedBlock, length_map, length_range]

theorem numberedBlock_consistent {n : ℕ} (hn : n ≤ 2 ^ 32) :
    (numberedBlock n).Consistent nonceHash := by
  have hmem {P : Transaction openKeys → Prop} (h : ∀ i, P (numberedTx i)) :
      ∀ tx ∈ (numberedBlock n).transactions, P tx := by
    intro tx htx
    obtain ⟨i, -, rfl⟩ := mem_map.mp htx
    exact h i
  have hheader : (numberedBlock n).header.Fits :=
    ⟨⟨lt_irrefl _, Nat.two_pow_pos 64⟩, Nat.two_pow_pos 63, nofun,
      Nat.two_pow_pos 63, nofun⟩
  have htx (i : ℕ) : (numberedTx i).Fits := by
    refine ⟨lt_irrefl _, ?_, ?_⟩
    · rw [numberedTx_length]
      decide
    · intro sig hsig
      cases mem_singleton.mp hsig
      exact ⟨by decide, by decide⟩
  refine ⟨⟨hheader, hmem htx⟩, hmem fun i sig hsig => ?_,
    hmem fun i => (numberedTx_hash i).symm, ?_, rfl⟩
  · cases mem_singleton.mp hsig
    exact cons_ne_nil _ _
  · rw [numberedBlock, map_map]
    refine List.Nodup.map_on (fun i hi j hj h => ?_) nodup_range
    rw [mem_range] at hi hj
    exact numberedTx_hash_inj (by omega) (by omega) h

theorem block_roundTrip_numbered : (numberedBlock 2).Consistent nonceHash ∧
    ∃ out, (numberedBlock 2).serialization = .ok out ∧
      (Block.deserialization openKeys nonceHash).run out = .ok ((numberedBlock 2).received, []) := by
  have h := numberedBlock_consistent (n := 2) (by decide)
  obtain ⟨out, hout, hrun⟩ := block_roundTrip openKeys_readBack h
  exact ⟨h, out, hout, hrun.mpr (by decide)⟩

/-- With one transaction too many the count is written as 0. -/
theorem block_count_truncated : (numberedBlock (2 ^ 32)).Consistent nonceHash ∧
    ∃ out, (numberedBlock (2 ^ 32)).serialization = .ok out ∧
      (Block.deserialization openKeys nonceHash).run out ≠
        .ok ((numberedBlock (2 ^ 32)).received, []) := by
  have h := numberedBlock_consistent (n := 2 ^ 32) le_rfl
  refine ⟨h, _, h.fits.serialization h.keys, fun hrun => ?_⟩
  have hlt := (h.deserialization_iff openKeys_readBack).mp hrun
  rw [numberedBlock_length] at hlt
  exact absurd hlt (lt_irrefl _)

end Poly
