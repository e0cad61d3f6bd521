import Poly.Core.Types
import Poly.Lib.PairRounds

/-! What a decoded block commits to: its header hash binds the unsigned parts of its transactions, up
to a break of the hash function. -/
namespace Poly

open Lib Source Sink Reader List

variable {K : Keys} {sha256 : Bytes → Uint256}

set_option synthInstance.maxSize 100000 in
instance : Local UnsignedTx.deserializationUnsigned := .bind

instance (eof : Failure) : Local (nextPublicKey K eof) := .bind

instance : Local (Sig.deserialize K) := .bind

theorem consumed_append (used rest : Bytes) : consumed (used ++ rest) rest = used := by
  simp [consumed]

/-- The bytes that the hash of a transaction is taken of. -/
def Transaction.rawUnsigned (tx : Transaction K) : Bytes :=
  match UnsignedTx.deserializationUnsigned.run tx.raw with
  | .ok (_, rest) => consumed tx.raw rest
  | .error _ => []

/-- What the decoder establishes of a transaction. -/
structure Transaction.Decoded (sha256 : Bytes → Uint256) (tx : Transaction K) : Prop where
  hash_eq : tx.hash = sha256 (sha256 tx.rawUnsigned).val
  unsigned_eq : UnsignedTx.deserializationUnsigned.run tx.rawUnsigned = .ok (tx.toUnsignedTx, [])
  signedAddr_eq : tx.signedAddr = []

theorem Transaction.decoded_of_deserialization {bs rest tx}
    (h : (Transaction.deserialization K sha256).run bs = .ok (tx, rest)) : tx.Decoded sha256 := by
  simp only [Transaction.deserialization, run_bind_ok, run_get_ok, run_failIf_ok, run_pure_ok,
    and_assoc, exists_and_left, exists_eq_left', exists_const] at h
  obtain ⟨unsigned, s₁, hu, l, s₃, hl, -, sigs, s₅, hsigs, -, rfl, -⟩ := h
  -- the input is the unsigned part, the signatures and what follows
  obtain ⟨u, rfl, hu'⟩ := Local.of_run hu
  obtain ⟨v, rfl, -⟩ := Local.of_run hl
  obtain ⟨w, rfl, -⟩ := Local.of_run hsigs
  have hraw : consumed (u ++ (v ++ (w ++ s₅))) s₅ = u ++ (v ++ w) := by
    rw [← consumed_append (u ++ (v ++ w)) s₅]
    simp only [append_assoc]
  have hunsigned : consumed (u ++ (v ++ (w ++ s₅))) (v ++ (w ++ s₅)) = u := consumed_append _ _
  have hrun : UnsignedTx.deserializationUnsigned.run (u ++ (v ++ w)) = .ok (unsigned, v ++ w) :=
    hu' (v ++ w)
  have hself : UnsignedTx.deserializationUnsigned.run u = .ok (unsigned, []) := by
    simpa using hu' []
  have hrawUnsigned (hash : Uint256) (addr : List Address) : Transaction.rawUnsigned (K := K)
      ⟨unsigned, sigs, u ++ (v ++ w), hash, addr⟩ = u := by
    unfold Transaction.rawUnsigned
    simp only [hrun, consumed_append]
  rw [hraw, hunsigned]
  exact ⟨by rw [hrawUnsigned], by rw [hrawUnsigned]; exact hself, rfl⟩

theorem Transaction.Decoded.unsigned_inj {tx₁ tx₂ : Transaction K} (h₁ : tx₁.Decoded sha256)
    (h₂ : tx₂.Decoded sha256) (h : tx₁.rawUnsigned = tx₂.rawUnsigned) :
    tx₁.toUnsignedTx = tx₂.toUnsignedTx := by
  have he := h₁.unsigned_eq
  rw [h, h₂.unsigned_eq] at he
  exact (ok_mk_inj he).1.symm

/-- The headers that the decoder produces. -/
structure UnsignedHeader.Valid (bd : UnsignedHeader) : Prop where
  version_le : ¬ bd.version > CURR_HEADER_VERSION
  payload_lt : bd.consensusPayload.length < 2 ^ 64

theorem roundTrip_unsignedHeader :
    RoundTrip UnsignedHeader.deserializationUnsigned UnsignedHeader.bytes UnsignedHeader.Valid := by
  rintro bd ⟨hversion, hpayload⟩ rest
  simp (disch := assumption) [UnsignedHeader.deserializationUnsigned, UnsignedHeader.bytes]

theorem UnsignedHeader.valid_of_deserialization {bs rest bd}
    (h : UnsignedHeader.deserializationUnsigned.run bs = .ok (bd, rest)) : bd.Valid := by
  simp only [UnsignedHeader.deserializationUnsigned, run_bind_ok, run_pure_ok] at h
  obtain ⟨version, s₁, -, _, s₂, hv, chainID, s₃, -, prevBlockHash, s₄, -, transactionsRoot, s₅, -,
    crossStateRoot, s₆, -, blockRoot, s₇, -, timestamp, s₈, -, height, s₉, -, consensusData, s₁₀, -,
    consensusPayload, s₁₁, hp, nextBookkeeper, s₁₂, -, rfl, -⟩ := h
  exact ⟨(run_failIf_ok.mp hv).1, nextVarBytes_length _ hp⟩

theorem UnsignedHeader.Valid.hash_eq {bd : UnsignedHeader} (h : bd.Valid) :
    bd.hash sha256 = .ok (sha256 (sha256 bd.bytes).val) := by
  unfold UnsignedHeader.hash UnsignedHeader.serializationUnsigned
  rw [failIf_of_not h.version_le]
  rfl

/-- What the decoder establishes of a block. -/
structure Block.Decoded (sha256 : Bytes → Uint256) (b : Block K) : Prop where
  header : b.header.toUnsignedHeader.Valid
  transactions : ∀ tx ∈ b.transactions, tx.Decoded sha256
  nodup : (b.transactions.map Transaction.hash).Nodup
  root_eq : b.header.transactionsRoot =
    computeMerkleRoot sha256 (b.transactions.map Transaction.hash)

theorem nextTransactions_ok {n mask bs rest txs}
    (h : (nextTransactions K sha256 n mask).run bs = .ok (txs, rest)) :
    (∀ tx ∈ txs, tx.Decoded sha256) ∧ (txs.map Transaction.hash).Nodup ∧
      ∀ tx ∈ txs, tx.hash ∉ mask := by
  induction n generalizing mask bs txs rest with
  | zero =>
    cases h
    exact ⟨by simp, by simp, by simp⟩
  | succ n ih =>
    obtain ⟨tx, s₁, ht, h⟩ := run_bind_ok.mp h
    obtain ⟨_, s₂, hf, h⟩ := run_bind_ok.mp h
    obtain ⟨txs, s₃, hr, h⟩ := run_bind_ok.mp h
    cases h
    obtain ⟨hdec, hnodup, hmask⟩ := ih hr
    have hfresh := (run_failIf_ok.mp hf).1
    refine ⟨?_, ?_, ?_⟩
    · rintro tx' (_ | ⟨_, htx'⟩)
      · exact Transaction.decoded_of_deserialization ht
      · exact hdec tx' htx'
    · refine nodup_cons.mpr ⟨fun hmem => ?_, hnodup⟩
      obtain ⟨tx', htx', he⟩ := mem_map.mp hmem
      exact hmask tx' htx' (he ▸ mem_cons_self)
    · rintro tx' (_ | ⟨_, htx'⟩)
      · exact hfresh
      · exact fun hm => hmask tx' htx' (mem_cons_of_mem _ hm)

theorem Block.decoded_of_raw {raw b} (h : blockFromRawBytes K sha256 raw = .ok b) :
    b.Decoded sha256 := by
  obtain ⟨⟨b', rest⟩, hb, h⟩ := bind_ok.mp h
  cases h
  obtain ⟨header, s₁, hh, hb⟩ := run_bind_ok.mp hb
  obtain ⟨length, s₂, -, hb⟩ := run_bind_ok.mp hb
  obtain ⟨txs, s₃, ht, hb⟩ := run_bind_ok.mp hb
  obtain ⟨_, s₄, hf, hb⟩ := run_bind_ok.mp hb
  cases hb
  obtain ⟨hdec, hnodup, -⟩ := nextTransactions_ok ht
  obtain ⟨unsigned, t₁, hu, hh⟩ := run_bind_ok.mp hh
  obtain ⟨n, t₂, -, hh⟩ := run_bind_ok.mp hh
  obtain ⟨bookkeepers, t₃, -, hh⟩ := run_bind_ok.mp hh
  obtain ⟨m, t₄, -, hh⟩ := run_bind_ok.mp hh
  obtain ⟨sigData, t₅, -, hh⟩ := run_bind_ok.mp hh
  cases hh
  exact ⟨UnsignedHeader.valid_of_deserialization hu, hdec, hnodup,
    not_not.mp (run_failIf_ok.mp hf).1⟩

variable (sha256)

/-- `sha256` applied twice, as for transactions, headers and inner digests. -/
def doubleSha256 (m : Bytes) : Uint256 := sha256 (sha256 m).val

/-- The two inputs that are hashed for one message. -/
def doubleMessages (m : Bytes) : List Bytes := [m, (sha256 m).val]

def pairMessage (a b : Uint256) : Bytes := a.val ++ b.val

/-- What the double hash is applied to for a block: its header, its transactions and the tree over
them. -/
def Block.inputs (b : Block K) : List Bytes :=
  b.header.bytes :: (b.transactions.map Transaction.rawUnsigned ++
    PairRounds.rootMessages (doubleSha256 sha256) pairMessage (b.transactions.map Transaction.hash))

/-- Everything that is hashed for a block. -/
def Block.messages (b : Block K) : List Bytes := (b.inputs sha256).flatMap (doubleMessages sha256)

/-- Everything that is hashed for the block in a byte string. -/
def blockMessages (K : Keys) (raw : Bytes) : List Bytes :=
  match blockFromRawBytes K sha256 raw with
  | .ok b => b.messages sha256
  | .error _ => []

/-- A break of the hash function among these inputs: a collision, or a preimage of the empty hash. -/
def HashBreak (ms : List Bytes) : Prop :=
  Collision sha256 ms ∨ ∃ m ∈ ms, sha256 m = Uint256.empty

instance (ms : List Bytes) : Decidable (HashBreak sha256 ms) :=
  inferInstanceAs (Decidable (Collision sha256 ms ∨ ∃ m ∈ ms, sha256 m = Uint256.empty))

variable {sha256}

theorem hashBreak_of_collision {ms} (h : Collision (doubleSha256 sha256) ms) :
    HashBreak sha256 (ms.flatMap (doubleMessages sha256)) := by
  obtain ⟨x, hx, y, hy, hne, hxy⟩ := h
  have hmem {z : Bytes} (hz : z ∈ ms) :
      z ∈ ms.flatMap (doubleMessages sha256) ∧
        (sha256 z).val ∈ ms.flatMap (doubleMessages sha256) :=
    ⟨mem_flatMap.mpr ⟨z, hz, by simp [doubleMessages]⟩,
      mem_flatMap.mpr ⟨z, hz, by simp [doubleMessages]⟩⟩
  by_cases hinner : sha256 x = sha256 y
  · exact .inl ⟨x, (hmem hx).1, y, (hmem hy).1, hne, hinner⟩
  · exact .inl ⟨_, (hmem hx).2, _, (hmem hy).2, fun he => hinner (Subtype.ext he), hxy⟩

theorem pairMessage_inj (a b c d : Uint256) (h : pairMessage a b = pairMessage c d) :
    a = c ∧ b = d := by
  obtain ⟨h₁, h₂⟩ := append_inj h (by rw [a.2, c.2])
  exact ⟨Subtype.ext h₁, Subtype.ext h₂⟩

theorem merkleRound_eq (l : List Uint256) :
    merkleRound sha256 l = PairRounds.round (doubleSha256 sha256) pairMessage l := by
  fun_induction merkleRound sha256 l with
  | case1 => rfl
  | case2 a => rfl
  | case3 a b l ih =>
    rw [ih]
    rfl

/-- `ComputeMerkleRoot` is the root by rounds, with the empty hash for an empty list. -/
theorem computeMerkleRoot_eq (l : List Uint256) :
    computeMerkleRoot sha256 l =
      (PairRounds.root (doubleSha256 sha256) pairMessage l).getD Uint256.empty := by
  fun_induction computeMerkleRoot sha256 l with
  | case1 => rw [PairRounds.root, Option.getD_none]
  | case2 a => rw [PairRounds.root, Option.getD_some]
  | case3 a b l ih => rw [ih, merkleRound_eq, PairRounds.root.eq_def _ _ (a :: b :: l)]

variable {b b₁ b₂ : Block K}

theorem Block.rawUnsigned_mem {tx} (h : tx ∈ b.transactions) :
    tx.rawUnsigned ∈ b.inputs sha256 :=
  mem_cons_of_mem _ (mem_append_left _ (mem_map_of_mem h))

theorem Block.rootMessages_subset : PairRounds.rootMessages (doubleSha256 sha256) pairMessage
    (b.transactions.map Transaction.hash) ⊆ b.inputs sha256 :=
  fun _ h => mem_cons_of_mem _ (mem_append_right _ h)

/-- The hashes of decoded transactions, as digests of their unsigned parts. -/
theorem Block.Decoded.map_hash (h : b.Decoded sha256) :
    b.transactions.map Transaction.hash =
      (b.transactions.map Transaction.rawUnsigned).map (doubleSha256 sha256) := by
  rw [map_map]
  exact map_congr_left fun tx htx => (h.transactions tx htx).hash_eq

/-- The root of a block with transactions is the digest of one of its inputs. -/
theorem Block.Decoded.root_mem (h : b.Decoded sha256) {d}
    (hd : PairRounds.root (doubleSha256 sha256) pairMessage (b.transactions.map Transaction.hash) =
      some d) : ∃ m ∈ b.inputs sha256, d = doubleSha256 sha256 m := by
  cases hl : b.transactions with
  | nil =>
    rw [hl, map_nil, PairRounds.root] at hd
    cases hd
  | cons tx l =>
    cases l with
    | nil =>
      rw [hl, map_cons, map_nil, PairRounds.root] at hd
      have hmem : tx ∈ b.transactions := hl ▸ mem_cons_self
      exact ⟨_, rawUnsigned_mem hmem, (Option.some.inj hd).symm.trans (h.transactions tx hmem).hash_eq⟩
    | cons tx' l =>
      have hlen : 2 ≤ (b.transactions.map Transaction.hash).length := by simp [hl]
      obtain ⟨m, hm, he⟩ := PairRounds.exists_root_eq (doubleSha256 sha256) pairMessage hlen
      exact ⟨m, rootMessages_subset hm, Option.some.inj (hd.symm.trans he)⟩

/-- An inner digest over two others is not the hash of a transaction of another length. -/
theorem Block.Decoded.not_confused (h : b₁.Decoded sha256)
    (h64 : ∀ tx ∈ b₁.transactions, tx.rawUnsigned.length ≠ 64)
    (hno : ∀ x ∈ b₁.inputs sha256, ∀ y ∈ b₂.inputs sha256,
      doubleSha256 sha256 x = doubleSha256 sha256 y → x = y) :
    ¬ PairRounds.Confused (doubleSha256 sha256) pairMessage (b₁.transactions.map Transaction.hash)
      (b₂.transactions.map Transaction.hash) := by
  rintro ⟨a, ha, m, hm, he⟩
  obtain ⟨tx, htx, rfl⟩ := mem_map.mp ha
  have hraw : tx.rawUnsigned = m := hno _ (rawUnsigned_mem htx) _ (rootMessages_subset hm)
    ((h.transactions tx htx).hash_eq.symm.trans he)
  obtain ⟨c, d, rfl, -⟩ := PairRounds.mem_rootMessages hm
  refine h64 tx htx ?_
  rw [hraw, pairMessage, length_append, c.2, d.2]

/-- Blocks with one transactions root have one tree root: a root that is the empty hash would have
been hashed from an input. -/
theorem Block.Decoded.root_eq_root (h₁ : b₁.Decoded sha256) (h₂ : b₂.Decoded sha256)
    (h : b₁.header.transactionsRoot = b₂.header.transactionsRoot)
    (hnz : ∀ m ∈ b₁.inputs sha256 ++ b₂.inputs sha256, doubleSha256 sha256 m ≠ Uint256.empty) :
    PairRounds.root (doubleSha256 sha256) pairMessage (b₁.transactions.map Transaction.hash) =
      PairRounds.root (doubleSha256 sha256) pairMessage (b₂.transactions.map Transaction.hash) := by
  rw [h₁.root_eq, h₂.root_eq, computeMerkleRoot_eq, computeMerkleRoot_eq] at h
  cases hr₁ : PairRounds.root (doubleSha256 sha256) pairMessage
      (b₁.transactions.map Transaction.hash) with
  | none =>
    cases hr₂ : PairRounds.root (doubleSha256 sha256) pairMessage
        (b₂.transactions.map Transaction.hash) with
    | none => rfl
    | some d =>
      obtain ⟨m, hm, hd⟩ := h₂.root_mem hr₂
      rw [hr₁, hr₂] at h
      exact absurd (hd.symm.trans h.symm) (hnz m (mem_append_right _ hm))
  | some c =>
    obtain ⟨m, hm, hc⟩ := h₁.root_mem hr₁
    cases hr₂ : PairRounds.root (doubleSha256 sha256) pairMessage
        (b₂.transactions.map Transaction.hash) with
    | none =>
      rw [hr₁, hr₂] at h
      exact absurd (hc.symm.trans h) (hnz m (mem_append_left _ hm))
    | some d =>
      rw [hr₁, hr₂] at h
      exact congrArg some h

/-- The header hash of a decoded block binds its header and the unsigned parts of its transactions,
unless one of these has the length of two digests. -/
theorem Block.Decoded.bound (h₁ : b₁.Decoded sha256) (h₂ : b₂.Decoded sha256)
    (hhash : b₁.header.hash sha256 = b₂.header.hash sha256)
    (h64₁ : ∀ tx ∈ b₁.transactions, tx.rawUnsigned.length ≠ 64)
    (h64₂ : ∀ tx ∈ b₂.transactions, tx.rawUnsigned.length ≠ 64) :
    (b₁.header.toUnsignedHeader = b₂.header.toUnsignedHeader ∧
      b₁.transactions.map Transaction.rawUnsigned = b₂.transactions.map Transaction.rawUnsigned) ∨
    HashBreak sha256 (b₁.messages sha256 ++ b₂.messages sha256) := by
  by_cases hbreak : HashBreak sha256 (b₁.messages sha256 ++ b₂.messages sha256)
  · exact .inr hbreak
  have hmessages : b₁.messages sha256 ++ b₂.messages sha256 =
      (b₁.inputs sha256 ++ b₂.inputs sha256).flatMap (doubleMessages sha256) :=
    flatMap_append.symm
  rw [hmessages] at hbreak
  have hno {ms : List Bytes} (hs : ms ⊆ b₁.inputs sha256 ++ b₂.inputs sha256) :
      ¬ Collision (doubleSha256 sha256) ms :=
    fun hc => hbreak (hashBreak_of_collision (hc.mono hs))
  have hinj : ∀ x ∈ b₁.inputs sha256, ∀ y ∈ b₂.inputs sha256,
      doubleSha256 sha256 x = doubleSha256 sha256 y → x = y := by
    intro x hx y hy hxy
    by_contra hne
    exact hno (List.Subset.refl _) ⟨x, mem_append_left _ hx, y, mem_append_right _ hy,
      hne, hxy⟩
  have hnz : ∀ m ∈ b₁.inputs sha256 ++ b₂.inputs sha256,
      doubleSha256 sha256 m ≠ Uint256.empty :=
    fun m hm he => hbreak (.inr ⟨_, mem_flatMap.mpr ⟨m, hm, by simp [doubleMessages]⟩, he⟩)
  have hheader : b₁.header.toUnsignedHeader = b₂.header.toUnsignedHeader := by
    rw [h₁.header.hash_eq, h₂.header.hash_eq] at hhash
    exact roundTrip_unsignedHeader.injective h₁.header h₂.header
      (hinj _ mem_cons_self _ mem_cons_self (Except.ok.inj hhash))
  have hroot := h₁.root_eq_root h₂ (congrArg UnsignedHeader.transactionsRoot hheader) hnz
  have hhashes : b₁.transactions.map Transaction.hash = b₂.transactions.map Transaction.hash := by
    rcases PairRounds.eq_of_root_eq pairMessage_inj h₁.nodup h₂.nodup hroot with he | hc | hc | hc
    · exact he
    · refine absurd hc (hno (append_subset.mpr ⟨?_, ?_⟩))
      · exact List.Subset.trans rootMessages_subset (subset_append_left _ _)
      · exact List.Subset.trans rootMessages_subset (subset_append_right _ _)
    · exact absurd hc (h₁.not_confused h64₁ hinj)
    · exact absurd hc (h₂.not_confused h64₂ fun x hx y hy hxy => (hinj y hy x hx hxy.symm).symm)
  rw [h₁.map_hash, h₂.map_hash] at hhashes
  refine .inl ⟨hheader, ?_⟩
  rcases PairRounds.eq_or_collision_of_map hhashes with he | hc
  · exact he
  · refine absurd hc (hno (append_subset.mpr ⟨fun x hx => ?_, fun x hx => ?_⟩))
    · exact mem_append_left _ (mem_cons_of_mem _ (mem_append_left _ hx))
    · exact mem_append_right _ (mem_cons_of_mem _ (mem_append_left _ hx))

end Poly
