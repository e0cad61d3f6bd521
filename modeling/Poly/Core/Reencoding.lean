import Poly.Core.Encoding

/-! A block that was decoded and is written again: when the result decodes to the same hashes. -/
namespace Poly

open Lib Source Sink Reader List Block

/-- Public keys have one encoding each, and it is the one they are read from. -/
structure Keys.Inverse (K : Keys) : Prop where
  readBack : K.ReadBack
  written : ∀ buf key, K.deserializePublicKey buf = .ok key → K.serializePublicKey key = buf

section Received

variable {K : Keys} {sha256 : Bytes → Uint256}

variable {bs rest : Bytes}

theorem nextPublicKey_ok (hK : K.Inverse) {eof key}
    (h : (nextPublicKey K eof).run bs = .ok (key, rest)) :
    (nextVarBytes eof).run bs = .ok (K.serializePublicKey key, rest) := by
  obtain ⟨buf, mid, hbuf, h⟩ := run_bind_ok.mp h
  cases hkey : K.deserializePublicKey buf with
  | error e =>
    rw [hkey] at h
    cases h
  | ok key' =>
    rw [hkey] at h
    obtain ⟨rfl, rfl⟩ := ok_mk_inj h
    rw [hK.written buf key' hkey]
    exact hbuf

theorem notLonger_publicKey (hK : K.Inverse) (eof : Failure) :
    NotLonger (nextPublicKey K eof) fun key => writeVarBytes (K.serializePublicKey key) :=
  fun bs _ rest h => notLonger_nextVarBytes eof bs _ rest (nextPublicKey_ok hK h)

theorem notLonger_sig (hK : K.Inverse) : NotLonger (Sig.deserialize K) Sig.bytes := by
  intro bs sig rest h
  simp only [Sig.deserialize, run_bind_ok, run_pure_ok] at h
  obtain ⟨l, s₁, hl, sigData, s₂, hdata, n, s₃, hn, pubKeys, s₄, hkeys, m, s₅, hm, rfl, rfl⟩ := h
  have h₁ := nextWord_consumes _ hl
  have h₂ := notLonger_replicate (notLonger_nextVarBytes _) _ _ _ _ hdata
  have h₃ := nextWord_consumes _ hn
  have h₄ := notLonger_replicate (notLonger_publicKey hK _) _ _ _ _ hkeys
  have h₅ := nextWord_consumes _ hm
  simp only [Sig.bytes, length_append, writeUint16, leBytes_length]
  omega

theorem Sig.fits_of_deserialize {sig} (h : (Sig.deserialize K).run bs = .ok (sig, rest)) :
    sig.Fits := by
  simp only [Sig.deserialize, run_bind_ok, run_pure_ok] at h
  obtain ⟨l, s₁, -, sigData, s₂, hdata, n, s₃, -, pubKeys, s₄, hkeys, m, s₅, -, rfl, -⟩ := h
  constructor
  · rw [replicate_length hdata]
    exact l.toNat_lt
  · rw [replicate_length hkeys]
    exact n.toNat_lt

theorem UnsignedTx.fits_of_deserialization {tx}
    (h : UnsignedTx.deserializationUnsigned.run bs = .ok (tx, rest)) :
    ¬ tx.version > CURR_TX_VERSION ∧ tx.fields.bytes.length + rest.length ≤ bs.length := by
  simp only [UnsignedTx.deserializationUnsigned, run_bind_ok, run_failIf_ok, run_pure_ok, and_assoc,
    exists_and_left, exists_eq_left', exists_const] at h
  obtain ⟨version, s₁, hversion, hcurrent, txType, s₂, htype, nonce, s₃, hnonce, chainID, s₄,
    hchain, gasLimit, s₅, hlimit, gasPrice, s₆, hprice, -, code, s₇, hcode, attributes, s₈,
    hattributes, hnone, payer, s₉, hpayer, coinType, s₁₀, hcoin, -, rfl, rfl⟩ := h
  obtain rfl : attributes = [] :=
    length_eq_zero_iff.mp (Nat.le_zero.mp (not_lt.mp hnone))
  have h₁ := nextWord_consumes _ hversion
  have h₂ := nextWord_consumes _ htype
  have h₃ := nextWord_consumes _ hnonce
  have h₄ := nextWord_consumes _ hchain
  have h₅ := nextWord_consumes _ hlimit
  have h₆ := nextWord_consumes _ hprice
  have h₇ := notLonger_nextVarBytes _ _ _ _ hcode
  have h₈ := notLonger_nextVarBytes _ _ _ _ hattributes
  have h₉ := congrArg List.length (nextFixed_run_ok _ hpayer)
  have h₁₀ := nextWord_consumes _ hcoin
  rw [length_append] at h₉
  refine ⟨hcurrent, ?_⟩
  simp only [TxFields.bytes, UnsignedTx.fields, length_append, length_cons,
    length_nil, writeUint32, writeUint64, leBytes_length, payer.2]
  omega

variable (hK : K.Inverse)
include hK

/-- A decoded transaction is within the limits when it is written again: what is written is never
longer than what was received. -/
theorem Transaction.fits_of_deserialization {tx}
    (h : (Transaction.deserialization K sha256).run bs = .ok (tx, rest)) : tx.Fits := by
  simp only [Transaction.deserialization, run_bind_ok, run_get_ok, run_failIf_ok, run_pure_ok,
    and_assoc, exists_and_left, exists_eq_left', exists_const] at h
  obtain ⟨unsigned, s₁, hu, l, s₃, hl, -, sigs, s₅, hsigs, hsize, rfl, rfl⟩ := h
  obtain ⟨hversion, h₁⟩ := UnsignedTx.fits_of_deserialization hu
  refine ⟨hversion, ?_,
    forall_of_replicate (fun _ _ _ => Sig.fits_of_deserialize) hsigs⟩
  have h₂ := notLonger_nextVarUint _ _ _ _ hl
  have h₃ := notLonger_replicate (notLonger_sig hK) _ _ _ _ hsigs
  rw [consumed, length_take] at hsize
  simp only [Transaction.bytes, length_append, replicate_length hsigs, UInt64.ofNat_toNat]
  omega

theorem Header.fits_of_deserialization {bd}
    (h : (Header.deserialization K).run bs = .ok (bd, rest)) : bd.Fits := by
  have hcount (n : UInt64) : loopCount n < 2 ^ 63 := by
    rw [loopCount]
    split_ifs <;> omega
  simp only [Header.deserialization, run_bind_ok, run_pure_ok] at h
  obtain ⟨unsigned, t₁, hu, n, t₂, -, bookkeepers, t₃, hkeys, m, t₄, -, sigData, t₅, hsigs,
    rfl, -⟩ := h
  refine ⟨UnsignedHeader.valid_of_deserialization hu, ?_, ?_, ?_, ?_⟩
  · rw [replicate_length hkeys]
    exact hcount n
  · exact forall_of_replicate (fun _ _ _ h => nextVarBytes_length _ (nextPublicKey_ok hK h)) hkeys
  · rw [replicate_length hsigs]
    exact hcount m
  · exact forall_of_replicate (fun _ _ _ h => nextVarBytes_length _ h) hsigs

theorem nextTransactions_fits {n mask txs}
    (h : (nextTransactions K sha256 n mask).run bs = .ok (txs, rest)) : ∀ tx ∈ txs, tx.Fits := by
  induction n generalizing mask bs txs with
  | zero =>
    cases h
    exact nofun
  | succ n ih =>
    obtain ⟨tx, s₁, ht, h⟩ := run_bind_ok.mp h
    obtain ⟨_, s₂, -, h⟩ := run_bind_ok.mp h
    obtain ⟨txs, s₃, hr, h⟩ := run_bind_ok.mp h
    cases h
    exact forall_mem_cons.mpr ⟨Transaction.fits_of_deserialization hK ht, ih hr⟩

theorem Block.fits_of_raw {raw b} (h : blockFromRawBytes K sha256 raw = .ok b) :
    b.Fits ∧ b.transactions.length < 2 ^ 32 := by
  obtain ⟨⟨b', rest⟩, hb, h⟩ := bind_ok.mp h
  cases h
  refine ⟨?_, length_transactions_lt hb⟩
  simp only [Block.deserialization, run_bind_ok, run_pure_ok] at hb
  obtain ⟨header, s₁, hh, length, s₂, -, txs, s₃, ht, _, s₄, -, rfl, -⟩ := hb
  exact ⟨Header.fits_of_deserialization hK hh, nextTransactions_fits hK ht⟩

end Received

variable {K : Keys} {sha256 : Bytes → Uint256}

/-- A block can be written, and what is written decodes to a block with the same header hash and the
same transaction hashes. -/
def Block.Reencodes (sha256 : Bytes → Uint256) (b : Block K) : Prop :=
  ∃ out b', b.serialization = .ok out ∧ blockFromRawBytes K sha256 out = .ok b' ∧
    b'.header.hash sha256 = b.header.hash sha256 ∧
    b'.transactions.map Transaction.hash = b.transactions.map Transaction.hash

/-- The unsigned part was received as it is written, or it and the written form have one hash. -/
def Transaction.HashKept (sha256 : Bytes → Uint256) (tx : Transaction K) : Prop :=
  tx.rawUnsigned = tx.toUnsignedTx.fields.bytes ∨
    Collision (doubleSha256 sha256) [tx.rawUnsigned, tx.toUnsignedTx.fields.bytes]

theorem Transaction.Decoded.hashKept_iff {tx : Transaction K} (h : tx.Decoded sha256) :
    tx.HashKept sha256 ↔ (tx.reread sha256).hash = tx.hash := by
  have hhash : tx.hash = doubleSha256 sha256 tx.rawUnsigned := h.hash_eq
  rw [hhash]
  constructor
  · rintro (he | ⟨x, hx, y, hy, hne, hxy⟩)
    · rw [he]
      rfl
    · simp only [mem_cons, not_mem_nil, or_false] at hx hy
      rcases hx with rfl | rfl <;> rcases hy with rfl | rfl
      · exact absurd rfl hne
      · exact hxy.symm
      · exact hxy
      · exact absurd rfl hne
  · intro he
    exact eq_or_collision he.symm

theorem Block.reencodes_iff (hK : K.Inverse) {raw b} (h : blockFromRawBytes K sha256 raw = .ok b) :
    b.Reencodes sha256 ↔ (∀ tx ∈ b.transactions, ∀ sig ∈ tx.sigs, sig.pubKeys ≠ []) ∧
      b.transactions.map (fun tx => (tx.reread sha256).hash) =
        b.transactions.map Transaction.hash := by
  obtain ⟨hfits, hcount⟩ := fits_of_raw hK h
  have hdecoded := decoded_of_raw h
  have hreread : (b.reread sha256).transactions.map Transaction.hash =
      b.transactions.map fun tx => (tx.reread sha256).hash := by
    rw [Block.reread, map_map]
    rfl
  constructor
  · rintro ⟨out, b', hout, hb', -, hhashes⟩
    obtain ⟨-, hkeys, rfl⟩ := serialization_ok.mp hout
    obtain ⟨⟨b', rest⟩, hrun, hb'⟩ := bind_ok.mp hb'
    cases hb'
    obtain ⟨-, -, rfl, -⟩ := (deserialization_bytes hK.readBack hfits hcount).mp hrun
    exact ⟨fun tx hmem => (hkeys tx hmem).2, hreread.symm.trans hhashes⟩
  · rintro ⟨hkeys, hhashes⟩
    have hsame := hreread.trans hhashes
    have hrun : (Block.deserialization K sha256).run b.bytes = .ok (b.reread sha256, []) := by
      refine (deserialization_bytes hK.readBack hfits hcount).mpr ?_
      rw [hsame]
      exact ⟨hdecoded.nodup, hdecoded.root_eq, rfl, rfl⟩
    exact ⟨b.bytes, b.reread sha256, hfits.serialization hkeys,
      bind_ok.mpr ⟨_, hrun, rfl⟩, rfl, hsame⟩

/-- A received block survives being written again exactly when every signature entry of it has a key
and the unsigned part of every transaction was received in the form that is written, up to a
collision of the hash. -/
theorem block_reencodes_iff (hK : K.Inverse) {raw : Bytes} {b : Block K}
    (h : blockFromRawBytes K sha256 raw = .ok b) :
    b.Reencodes sha256 ↔ ∀ tx ∈ b.transactions,
      (∀ sig ∈ tx.sigs, sig.pubKeys ≠ []) ∧ tx.HashKept sha256 := by
  have hdecoded := (decoded_of_raw h).transactions
  rw [reencodes_iff hK h, map_inj_left, ← forall₂_and]
  refine forall₂_congr fun tx hmem => and_congr_right fun _ => ?_
  exact ((hdecoded tx hmem).hashKept_iff).symm

theorem Block.Consistent.received_ok {b : Block K} (h : b.Consistent sha256) :
    ∀ tx ∈ b.received.transactions,
      (∀ sig ∈ tx.sigs, sig.pubKeys ≠ []) ∧ (tx.reread sha256).hash = tx.hash := by
  intro tx hmem
  obtain ⟨tx', hmem', rfl⟩ := mem_map.mp hmem
  exact ⟨h.keys tx' hmem', (h.hash_eq tx' hmem').symm⟩

theorem block_reencodes_numbered :
    ∃ b, blockFromRawBytes openKeys nonceHash (numberedBlock 2).bytes = .ok b ∧
      b.Reencodes nonceHash := by
  have hconsistent := numberedBlock_consistent (n := 2) (by decide)
  have hrun := (hconsistent.deserialization_iff openKeys_readBack).mpr (by decide)
  have hraw : blockFromRawBytes openKeys nonceHash (numberedBlock 2).bytes =
      .ok (numberedBlock 2).received := bind_ok.mpr ⟨_, hrun, rfl⟩
  have hdecoded := (decoded_of_raw hraw).transactions
  refine ⟨_, hraw, (block_reencodes_iff
    ⟨openKeys_readBack, fun _ _ h => (Except.ok.inj h).symm⟩ hraw).mpr fun tx hmem => ?_⟩
  obtain ⟨hkeys, hhash⟩ := hconsistent.received_ok tx hmem
  exact ⟨hkeys, (hdecoded tx hmem).hashKept_iff.mpr hhash⟩

/-- A block with one transaction, given by the bytes of its unsigned part and of its signatures. -/
def relayedRaw (unsigned sigs : Bytes) : Bytes :=
  { (numberedBlock 0).header with
    transactionsRoot := doubleSha256 (zeroPad 32) unsigned }.encoding ++
  writeUint32 1 ++ unsigned ++ sigs

/-- One signature entry with no data and no key. -/
def keylessRaw : Bytes :=
  relayedRaw (numberedTx 1).toUnsignedTx.fields.bytes [1, 0, 0, 0, 0, 1, 0]

/-- The empty code with its length in three bytes, and no signatures. -/
def longFormRaw : Bytes :=
  relayedRaw (0 :: 0xd1 :: (writeUint32 1 ++ List.replicate 24 0 ++ [0xFD, 0, 0] ++ [0] ++
    List.replicate 20 0 ++ [0])) [0]

/-- A signature entry without a key is accepted but not written, and a longer form of a length is
accepted but written in its short form, under another hash. -/
theorem block_reencoding_lost :
    (∃ b, blockFromRawBytes openKeys (zeroPad 32) keylessRaw = .ok b ∧
      b.serialization = .error (.error "[Sig Serialize] no pubkeys in sig") ∧
      ¬ b.Reencodes (zeroPad 32)) ∧
    ∃ b out, blockFromRawBytes openKeys (zeroPad 32) longFormRaw = .ok b ∧
      b.serialization = .ok out ∧ (∀ b', blockFromRawBytes openKeys (zeroPad 32) out ≠ .ok b') ∧
      ¬ b.Reencodes (zeroPad 32) := by
  have hkeyless : (blockFromRawBytes openKeys (zeroPad 32) keylessRaw >>= Block.serialization) =
      .error (.error "[Sig Serialize] no pubkeys in sig") := by decide +kernel
  have hlong : ((blockFromRawBytes openKeys (zeroPad 32) longFormRaw >>=
      Block.serialization).toOption.map fun out =>
        (blockFromRawBytes openKeys (zeroPad 32) out).toOption.isSome) = some false := by
    decide +kernel
  constructor
  · have hok : (blockFromRawBytes openKeys (zeroPad 32) keylessRaw).toOption.isSome := by
      decide +kernel
    obtain ⟨b, hb⟩ := Option.isSome_iff_exists.mp hok
    have hb := toOption_eq_some.mp hb
    rw [hb] at hkeyless
    refine ⟨b, hb, hkeyless, ?_⟩
    rintro ⟨out, b', hout, -⟩
    rw [show b.serialization = _ from hkeyless] at hout
    cases hout
  · obtain ⟨out, hout, hnone⟩ := Option.map_eq_some_iff.mp hlong
    obtain ⟨b, hb, hwritten⟩ := bind_ok.mp (toOption_eq_some.mp hout)
    have hreject : ∀ b', blockFromRawBytes openKeys (zeroPad 32) out ≠ .ok b' := by
      intro b' hb'
      rw [hb'] at hnone
      cases hnone
    refine ⟨b, out, hb, hwritten, hreject, ?_⟩
    rintro ⟨out', b', hout', hb', -⟩
    cases ok_unique hwritten hout'
    exact hreject b' hb'

end Poly
