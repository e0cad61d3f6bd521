import Poly.Core.Types
import Poly.Lib.Metered

/-! Which inputs the decoders of headers, transactions and blocks survive, and how many signature
slots they ask for on the way. -/
namespace Poly

open Lib Source Reader Transaction

/-- A panic, as against an error that is returned. -/
def Failure.IsPanic (f : Failure) : Prop := ∃ msg, f = .panic msg

theorem not_isPanic_error (msg : String) : ¬ (Failure.error msg).IsPanic := by
  rintro ⟨msg', h⟩
  cases h

theorem isPanic_panic (msg : String) : (Failure.panic msg).IsPanic := ⟨msg, rfl⟩

instance (msg : String) : Fact (¬ (Failure.error msg).IsPanic) := ⟨not_isPanic_error msg⟩

instance (msg : String) : Fact (Failure.panic msg).IsPanic := ⟨isPanic_panic msg⟩

/-- The reader panics on no input. -/
abbrev PanicFree {α : Type} (r : Reader Failure α) : Prop := r.CrashFree Failure.IsPanic

section Source

variable (msg : String)

instance {α : Type} (f : ℕ → α) (n : ℕ) : PanicFree (nextWord f n (Failure.error msg)) := .bind

instance (n : ℕ) : PanicFree (nextFixed n (Failure.error msg)) := by
  constructor
  intro bs e h
  simp only [nextFixed, StateT.run] at h
  split at h
  · cases h
  · cases h
    exact not_isPanic_error msg

instance : PanicFree (nextByte (.error msg)) := inferInstanceAs (PanicFree (nextWord _ _ _))

instance : PanicFree (nextUint16 (.error msg)) := inferInstanceAs (PanicFree (nextWord _ _ _))

instance : PanicFree (nextUint32 (.error msg)) := inferInstanceAs (PanicFree (nextWord _ _ _))

instance : PanicFree (nextUint64 (.error msg)) := inferInstanceAs (PanicFree (nextWord _ _ _))

instance : PanicFree (nextAddress (.error msg)) := inferInstanceAs (PanicFree (nextFixed _ _))

instance : PanicFree (nextHash (.error msg)) := inferInstanceAs (PanicFree (nextFixed _ _))

instance : PanicFree (nextVarUint (.error msg)) := .bind

instance (n : ℕ) : PanicFree (nextBytes n (.error msg)) := inferInstanceAs (PanicFree (take _ _))

instance : PanicFree (nextVarBytes (.error msg)) := .bind

end Source

instance : PanicFree UnsignedHeader.deserializationUnsigned := .bind

set_option synthInstance.maxSize 1000 in
instance : PanicFree UnsignedTx.deserializationUnsigned := .bind

variable (K : Keys) (sha256 : Bytes → Uint256)

def headerFromRawBytes (raw : Bytes) : Result (Header K) := do
  let (header, _) ← (Header.deserialization K).run raw
  return header

section Metered

open Metered

/-- `Transaction.Deserialization` with the slice that it makes for the signatures. -/
def Transaction.metered : Metered Failure (Transaction K) := do
  let start ← lift get
  let unsigned ← lift UnsignedTx.deserializationUnsigned
  let rawUnsigned ← lift get
  let l ← lift (nextVarUint (.error "[Deserialization] read sigs length error"))
  request l.toNat (some MAX_SIGS) (.panic "makeslice: len out of range")
  let sigs ← lift (Reader.replicate (Sig.deserialize K) l.toNat)
  let rest ← lift get
  let raw := consumed start rest
  lift (failIf (raw.length > MAX_TX_SIZE) (.error s!"execced max transaction size:{raw.length}"))
  return ⟨unsigned, sigs, raw, sha256 (sha256 (consumed start rawUnsigned)).val, []⟩

def nextTransactionsMetered : ℕ → List Uint256 → Metered Failure (List (Transaction K))
  | 0, _ => pure []
  | n + 1, mask => do
    let transaction ← Transaction.metered K sha256
    lift (failIf (transaction.hash ∈ mask) (.error "duplicated transaction in block"))
    let txs ← nextTransactionsMetered n (transaction.hash :: mask)
    return transaction :: txs

def Block.metered : Metered Failure (Block K) := do
  let header ← lift (Header.deserialization K)
  let length ← lift (nextUint32 (.error "unexpected EOF"))
  let transactions ← nextTransactionsMetered K sha256 length.toNat []
  let root := computeMerkleRoot sha256 (transactions.map Transaction.hash)
  lift (failIf (header.transactionsRoot ≠ root) (.error
    s!"mismatched transaction root {toHex header.transactionsRoot.val} and {toHex root.val}"))
  return ⟨header, transactions⟩

theorem Transaction.reader_metered :
    (Transaction.metered K sha256).reader = Transaction.deserialization K sha256 := by
  simp only [Transaction.metered, reader_bind, reader_lift, reader_request_some, reader_pure]
  rfl

theorem reader_nextTransactionsMetered (n : ℕ) (mask : List Uint256) :
    (nextTransactionsMetered K sha256 n mask).reader = nextTransactions K sha256 n mask := by
  induction n generalizing mask with
  | zero => rfl
  | succ n ih =>
    simp only [nextTransactionsMetered, nextTransactions, reader_bind, reader_lift, reader_pure,
      reader_metered, ih]

theorem Block.reader_metered :
    (Block.metered K sha256).reader = Block.deserialization K sha256 := by
  simp only [Block.metered, reader_bind, reader_lift, reader_pure, reader_nextTransactionsMetered]
  rfl

/-- The slots that `TransactionFromRawBytes` asks for. -/
def transactionRequests (raw : Bytes) : List Request :=
  if raw.length > MAX_TX_SIZE then [] else (Transaction.metered K sha256).requests raw

/-- The slots that `BlockFromRawBytes` asks for. -/
def blockRequests (raw : Bytes) : List Request := (Block.metered K sha256).requests raw

variable {K}

variable [∀ msg, PanicFree (nextPublicKey K (.error msg))]

instance : PanicFree (Header.deserialization K) := .bind

instance : PanicFree (Sig.deserialize K) := .bind

/-- The slice for the signatures is the only thing that can make the decoder panic. -/
instance Transaction.accounted_metered : Accounted Failure.IsPanic (Transaction.metered K sha256) :=
  .bind

instance (n : ℕ) (mask : List Uint256) :
    Accounted Failure.IsPanic (nextTransactionsMetered K sha256 n mask) := by
  induction n generalizing mask with
  | zero => exact .pure []
  | succ n ih => exact .bind

instance Block.accounted_metered : Accounted Failure.IsPanic (Block.metered K sha256) := .bind

end Metered

section Counts

open Metered

/-- The number of signatures that the input announces. -/
def sigCount : Reader Failure UInt64 := do
  let _ ← UnsignedTx.deserializationUnsigned
  nextVarUint (.error "[Deserialization] read sigs length error")

/-- The bytes after the announced number of signatures are at least as many. -/
def SigCountFits (bs : Bytes) : Prop :=
  ∀ l rest, sigCount.run bs = .ok (l, rest) → l.toNat ≤ rest.length ∧ l.toNat ≤ MAX_SIGS

/-- So they are at each transaction that the loop over a block comes to. -/
def SigCountsFit : ℕ → List Uint256 → Bytes → Prop
  | 0, _, _ => True
  | n + 1, mask, bs => SigCountFits bs ∧
      ∀ tx rest, (Transaction.deserialization K sha256).run bs = .ok (tx, rest) →
        tx.hash ∉ mask → SigCountsFit n (tx.hash :: mask) rest

def BlockCountsFit (raw : Bytes) : Prop :=
  ∀ header mid length rest, (Header.deserialization K).run raw = .ok (header, mid) →
    (nextUint32 (Failure.error "unexpected EOF")).run mid = .ok (length, rest) →
      SigCountsFit K sha256 length.toNat [] rest

/-- A request that the input can pay for and that the runtime does not refuse. -/
def Covered (q : Request) : Prop := q.slots ≤ q.left ∧ ¬ q.Refused

variable {K sha256}

theorem Transaction.mem_requests_metered {bs q} :
    q ∈ (Transaction.metered K sha256).requests bs ↔
      ∃ l rest, sigCount.run bs = .ok (l, rest) ∧ q = ⟨l.toNat, some MAX_SIGS, rest.length⟩ := by
  simp only [Transaction.metered, mem_requests_bind, requests_lift, requests_request, requests_pure,
    reader_lift, List.not_mem_nil, List.mem_singleton, and_false, exists_false, false_or, or_false]
  constructor
  · rintro ⟨start, bs', hget, unsigned, mid, hunsigned, here, mid', hget', l, rest, hl, rfl⟩
    cases hget
    cases hget'
    exact ⟨l, rest, run_bind_ok.mpr ⟨unsigned, mid, hunsigned, hl⟩, rfl⟩
  · rintro ⟨l, rest, hcount, rfl⟩
    obtain ⟨unsigned, mid, hunsigned, hl⟩ := run_bind_ok.mp hcount
    exact ⟨bs, bs, rfl, unsigned, mid, hunsigned, mid, mid, rfl, l, rest, hl, rfl⟩

theorem covered_sigs_iff {l left : ℕ} :
    Covered ⟨l, some MAX_SIGS, left⟩ ↔ l ≤ left ∧ l ≤ MAX_SIGS := by
  simp [Covered, Request.Refused]

variable (K sha256) in
theorem Transaction.covered_iff {bs} :
    (∀ q ∈ (Transaction.metered K sha256).requests bs, Covered q) ↔ SigCountFits bs := by
  simp only [mem_requests_metered]
  constructor
  · intro h l rest hcount
    exact covered_sigs_iff.mp (h _ ⟨l, rest, hcount, rfl⟩)
  · rintro h q ⟨l, rest, hcount, rfl⟩
    exact covered_sigs_iff.mpr (h l rest hcount)

theorem covered_nextTransactions_iff {n mask bs} :
    (∀ q ∈ (nextTransactionsMetered K sha256 n mask).requests bs, Covered q) ↔
      SigCountsFit K sha256 n mask bs := by
  induction n generalizing mask bs with
  | zero =>
    refine ⟨fun _ => trivial, fun _ q hq => ?_⟩
    cases hq
  | succ n ih =>
    simp only [nextTransactionsMetered, SigCountsFit, mem_requests_bind, requests_lift,
      requests_pure, reader_lift, reader_metered, List.not_mem_nil, and_false,
      exists_false, false_or, or_false, run_failIf_ok, ← covered_iff K sha256, ← ih]
    constructor
    · intro h
      refine ⟨fun q hq => h q (Or.inl hq), fun tx rest htx hmask q hq => h q (Or.inr ?_)⟩
      exact ⟨tx, rest, htx, (), rest, ⟨hmask, rfl⟩, hq⟩
    · rintro ⟨hfirst, hothers⟩ q (hq | ⟨tx, rest, htx, u, after, ⟨hmask, rfl⟩, hq⟩)
      · exact hfirst q hq
      · exact hothers tx rest htx hmask q hq

theorem Block.covered_iff {raw} :
    (∀ q ∈ blockRequests K sha256 raw, Covered q) ↔ BlockCountsFit K sha256 raw := by
  simp only [blockRequests, Block.metered, mem_requests_bind, requests_lift, requests_pure,
    reader_lift, List.not_mem_nil, and_false, exists_false, false_or, or_false, BlockCountsFit,
    ← covered_nextTransactions_iff]
  constructor
  · intro h header mid length rest hheader hlength q hq
    exact h q ⟨header, mid, hheader, length, rest, hlength, hq⟩
  · rintro h q ⟨header, mid, hheader, length, rest, hlength, hq⟩
    exact h header mid length rest hheader hlength q hq

end Counts

/-- What is done with a result does not hide a panic, and adds none. -/
theorem ne_panic_map_iff {α β : Type} {x : Result α} {f : α → β} :
    (∀ msg, (x >>= fun a => pure (f a)) ≠ .error (.panic msg)) ↔
      ∀ e, x = .error e → ¬ e.IsPanic := by
  cases x with
  | ok a =>
    refine ⟨fun _ e he => ?_, fun _ msg h => ?_⟩
    · cases he
    · cases h
  | error e =>
    constructor
    · rintro h e' he ⟨msg, rfl⟩
      cases he
      exact h msg rfl
    · intro h msg hmsg
      cases hmsg
      exact h _ rfl (isPanic_panic msg)

section Panics

open Metered

variable {K} {sha256}

section

variable [∀ msg, PanicFree (nextPublicKey K (.error msg))]

theorem transactionFromRawBytes_ne_panic_iff {raw : Bytes} :
    (∀ msg, transactionFromRawBytes K sha256 raw ≠ .error (.panic msg)) ↔
      ∀ q ∈ transactionRequests K sha256 raw, ¬ q.Refused := by
  unfold transactionFromRawBytes transactionRequests
  by_cases hlong : raw.length > MAX_TX_SIZE
  · rw [if_pos hlong, failIf, if_pos hlong]
    refine ⟨fun _ q hq => ?_, fun _ msg h => ?_⟩
    · cases hq
    · cases h
  · rw [if_neg hlong, failIf_of_not hlong, ← reader_metered,
      ← (accounted_metered sha256).not_crash_iff raw]
    exact ne_panic_map_iff

theorem blockFromRawBytes_ne_panic_iff {raw : Bytes} :
    (∀ msg, blockFromRawBytes K sha256 raw ≠ .error (.panic msg)) ↔
      ∀ q ∈ blockRequests K sha256 raw, ¬ q.Refused := by
  unfold blockFromRawBytes blockRequests
  rw [← Block.reader_metered, ← (Block.accounted_metered sha256).not_crash_iff raw]
  exact ne_panic_map_iff

end

theorem covered_transactionRequests_iff {raw} :
    (∀ q ∈ transactionRequests K sha256 raw, Covered q) ↔
      (raw.length ≤ MAX_TX_SIZE → SigCountFits raw) := by
  unfold transactionRequests
  split_ifs with hlong
  · refine ⟨fun _ hle => absurd hle (Nat.not_le.mpr hlong), fun _ q hq => ?_⟩
    cases hq
  · rw [covered_iff]
    exact ⟨fun h _ => h, fun h => h (Nat.not_lt.mp hlong)⟩

variable (hkeys : ∀ buf msg, K.deserializePublicKey buf ≠ .error (.panic msg))
include hkeys

variable (sha256) in
/-- With a key parser that does not panic, the three decoders return a value or an error and ask for
no more signature slots than there are bytes left, exactly when each number of signatures that they
come to is followed by at least as many bytes. -/
theorem decoding_survives_iff (raw : Bytes) :
    ((∀ msg, transactionFromRawBytes K sha256 raw ≠ .error (.panic msg)) ∧
      (∀ msg, headerFromRawBytes K raw ≠ .error (.panic msg)) ∧
      (∀ msg, blockFromRawBytes K sha256 raw ≠ .error (.panic msg)) ∧
      (∀ q ∈ transactionRequests K sha256 raw, q.slots ≤ q.left) ∧
      (∀ q ∈ blockRequests K sha256 raw, q.slots ≤ q.left)) ↔
    (raw.length ≤ MAX_TX_SIZE → SigCountFits raw) ∧ BlockCountsFit K sha256 raw := by
  have (msg : String) : PanicFree (nextPublicKey K (.error msg)) := by
    refine @CrashFree.bind _ _ _ _ _ _ _ fun buf => .lift ?_
    rintro e he ⟨msg', rfl⟩
    exact hkeys buf msg' he
  rw [transactionFromRawBytes_ne_panic_iff, blockFromRawBytes_ne_panic_iff,
    ← covered_transactionRequests_iff (K := K), ← Block.covered_iff]
  constructor
  · rintro ⟨htx, -, hblock, htxslots, hblockslots⟩
    exact ⟨fun q hq => ⟨htxslots q hq, htx q hq⟩, fun q hq => ⟨hblockslots q hq, hblock q hq⟩⟩
  · rintro ⟨htx, hblock⟩
    exact ⟨fun q hq => (htx q hq).2, ne_panic_map_iff.mpr (CrashFree.not_crash raw),
      fun q hq => (hblock q hq).2, fun q hq => (htx q hq).1, fun q hq => (hblock q hq).1⟩

end Panics

/-- A transaction without code, followed by what is announced of its signatures. -/
def emptyTx (sigs : Bytes) : Bytes :=
  [0, 0xd1] ++ List.replicate 28 0 ++ [0, 0] ++ List.replicate 20 0 ++ [0] ++ sigs

theorem decoding_survives_unsigned :
    (∀ buf msg, openKeys.deserializePublicKey buf ≠ .error (.panic msg)) ∧
    ∀ msg, transactionFromRawBytes openKeys (fun _ => Uint256.empty) (emptyTx [0]) ≠
      .error (.panic msg) := by
  have hkeys buf msg : openKeys.deserializePublicKey buf ≠ .error (.panic msg) := nofun
  have hheader : ∀ header mid,
      (Header.deserialization openKeys).run (emptyTx [0]) ≠ .ok (header, mid) := by
    have hrun : ((Header.deserialization openKeys).run (emptyTx [0])).toOption.isNone = true := by
      decide +kernel
    intro header mid h
    rw [h] at hrun
    cases hrun
  refine ⟨hkeys, ((decoding_survives_iff (fun _ => Uint256.empty) hkeys (emptyTx [0])).mpr
    ⟨fun _ l rest h => ?_, fun header mid length rest h => absurd h (hheader header mid)⟩).1⟩
  cases h
  decide

/-- Nine bytes announce more signatures than the runtime can allocate, or, taken a little smaller,
gigabytes of slots with nothing behind them. -/
theorem decoding_crashes :
    transactionFromRawBytes openKeys (fun _ => Uint256.empty)
        (emptyTx (List.replicate 9 0xFF)) = .error (.panic "makeslice: len out of range") ∧
      ⟨2 ^ 32 - 1, some MAX_SIGS, 0⟩ ∈ transactionRequests openKeys (fun _ => Uint256.empty)
        (emptyTx (0xFE :: List.replicate 4 0xFF)) := by
  constructor
  · rfl
  · have hcount : sigCount.run (emptyTx (0xFE :: List.replicate 4 0xFF)) =
        .ok (0xFFFFFFFF, []) := by
      decide +kernel
    rw [transactionRequests]
    exact mem_requests_metered.mpr ⟨_, _, hcount, rfl⟩

end Poly
