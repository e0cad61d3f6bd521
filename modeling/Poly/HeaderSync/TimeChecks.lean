import Poly.HeaderSync.Bsc
import Poly.HeaderSync.Msc
import Poly.HeaderSync.Starcoin
import Poly.Lib.Checked

/-! What the header sync handlers ask the clock of a node: whether the time of a new header is not
too far ahead, and nothing else. -/
namespace Poly.HeaderSync

open Lib Native

/-- The times that a call reads, in Unix seconds: `clock i` when its `i`-th header is looked at. -/
abbrev Clock := ℕ → ℤ

/-- The time of a header, to be compared with the latest time allowed at a reading of the clock. -/
structure TimeCheck where
  reading : ℕ
  time : UInt64
  latest : ℤ → UInt64

def TimeCheck.Holds (c : TimeCheck) (clock : Clock) : Prop := c.time ≤ c.latest (clock c.reading)

instance (c : TimeCheck) (clock : Clock) : Decidable (c.Holds clock) :=
  inferInstanceAs (Decidable (c.time ≤ c.latest (clock c.reading)))

theorem ofInt_toNat (x : UInt64) : UInt64.ofInt x.toNat = x := by
  have hx : (x.toNat : ℤ) < 2 ^ 64 := by exact_mod_cast x.toNat_lt
  rw [UInt64.ofInt, Int.emod_eq_of_lt (Int.natCast_nonneg _) hx, Int.toNat_natCast,
    UInt64.ofNat_toNat]

/-- An error that a transaction can end with, other than a crash of the node. -/
def Refused (e : Failure) : Prop := ∃ msg, e = .error msg

/-- A method that reads the clock for time checks only. -/
abbrev Timed {α : Type} (x : Clock → NativeM α) := Checked TimeCheck.Holds Refused x

namespace Timed

variable {α : Type}

def check (c : TimeCheck) {msg : Clock → String} :
    Timed fun clock => failIf (c.time > c.latest (clock c.reading)) (Failure.error (msg clock)) :=
  Checked.check c (fun _ => UInt64.not_le.symm) fun clock => ⟨msg clock, rfl⟩

def wrapM {context : String} {x : Clock → NativeM α} (h : Timed x) :
    Timed fun clock => Native.wrapM context (x clock) := by
  refine Checked.wrap (fun e he => ?_) h
  obtain ⟨msg, rfl⟩ := he
  exact ⟨_, ⟨_, rfl⟩, rfl⟩

end Timed

namespace Eth

variable (L : EthLib) (networkId : UInt32) (enableEventLog : Bool) (chainID : UInt64)

def checkParent_timed (i : ℕ) (header : Header) (raw : Bytes) :
    Timed fun clock => checkParent L networkId (clock i) chainID header raw :=
  .bind (.const _) fun _ => .bind (.const _) fun _ => .bind (.const _) fun _ =>
    .bind (.const _) fun _ => .bind (Timed.check ⟨i, header.time, latestTime⟩) fun _ => .const _

def syncHeader_timed (i : ℕ) (raw : Bytes) (caches : Caches) :
    Timed fun clock => syncHeader L networkId enableEventLog (clock i) chainID raw caches :=
  .bind (.const _) fun header => .bind (.const _) fun _ => .ite (.const _)
    (.bind (checkParent_timed L networkId chainID i header raw) fun _ => .const _)

def syncHeaders_timed : (headers : List Bytes) → (i : ℕ) → (caches : Caches) →
    Timed fun clock => syncHeaders L networkId enableEventLog clock chainID headers i caches
  | [], _, _ => .const _
  | raw :: rest, i, caches =>
    .bind (syncHeader_timed L networkId enableEventLog chainID i raw caches) fun caches =>
      syncHeaders_timed rest (i + 1) caches

def syncBlockHeader_timed : Timed (syncBlockHeader L networkId enableEventLog) :=
  .bind (.const _) fun _ => .bind (.const _) fun _ => syncHeaders_timed _ _ _ _ _ _ _

end Eth

namespace Bsc

variable (L : BscLib) (enableEventLog : Bool) (ctx : Context)

def verifyHeader_timed (i : ℕ) (header : EthHeader) :
    Timed fun clock => verifyHeader L (clock i) header ctx :=
  .bind (Timed.check ⟨i, header.time, UInt64.ofInt⟩) fun _ => .const _

def acceptHeader_timed (i : ℕ) (header : EthHeader) :
    Timed fun clock => acceptHeader L enableEventLog (clock i) ctx header :=
  .bind (verifyHeader_timed L ctx i header).wrapM fun _ => .const _

def syncHeader_timed (i : ℕ) (raw : Bytes) :
    Timed fun clock => syncHeader L enableEventLog (clock i) ctx raw :=
  .bind (.const _) fun header => .bind (.const _) fun _ => .ite (.const _)
    (.bind (.const _) fun _ => .ite (acceptHeader_timed L enableEventLog ctx i header) (.const _))

def syncHeaders_timed : (headers : List Bytes) → (i : ℕ) →
    Timed fun clock => syncHeaders L enableEventLog clock ctx headers i
  | [], _ => .const _
  | raw :: rest, i =>
    .bind (syncHeader_timed L enableEventLog ctx i raw) fun _ => syncHeaders_timed rest (i + 1)

def syncBlockHeader_timed : Timed (syncBlockHeader L enableEventLog) :=
  .bind (.const _) fun _ => .bind (.const _) fun _ => .bind (.const _) fun _ =>
    .bind (.const _) fun _ => syncHeaders_timed _ _ _ _ _

end Bsc

namespace Msc

variable (L : MscLib) (enableEventLog : Bool) (ctx : Context)

/-- The first check is that of the time; the others are as they are at the time of the header. -/
theorem lift_checkFields (now : ℤ) (header : EthHeader) :
    lift (checkFields L now ctx header) =
      failIf (header.time > UInt64.ofInt now) (.error "block in the future") >>= fun _ =>
        lift (checkFields L header.time.toNat ctx header) := by
  by_cases h : header.time > UInt64.ofInt now
  · have hfail : (failIf (header.time > UInt64.ofInt now) (.error "block in the future") :
        Result Unit) = .error (.error "block in the future") := if_pos h
    have hfailM : (failIf (header.time > UInt64.ofInt now) (.error "block in the future") :
        NativeM Unit) = throw (.error "block in the future") := if_pos h
    rw [checkFields, hfail, hfailM]
    rfl
  · have hself : ¬ header.time > UInt64.ofInt header.time.toNat := by
      rw [ofInt_toNat]
      exact UInt64.lt_irrefl _
    have hpass : (failIf (header.time > UInt64.ofInt now) (.error "block in the future") :
        Result Unit) = .ok () := if_neg h
    have hpassM : (failIf (header.time > UInt64.ofInt now) (.error "block in the future") :
        NativeM Unit) = pure () := if_neg h
    have hpassSelf : (failIf (header.time > UInt64.ofInt header.time.toNat)
        (.error "block in the future") : Result Unit) = .ok () := if_neg hself
    rw [checkFields, hpass, hpassM, checkFields, hpassSelf]
    rfl

variable (i : ℕ)

variable (header : EthHeader)

def checkFields_timed :
    Timed fun clock => lift (checkFields L (clock i) ctx header) :=
  .congr (.bind (Timed.check ⟨i, header.time, UInt64.ofInt⟩) fun _ => .const _) fun clock =>
    lift_checkFields L ctx (clock i) header

def verifyHeader_timed :
    Timed fun clock => verifyHeader L (clock i) ctx header :=
  .bind (checkFields_timed L ctx i header) fun _ => .const _

def acceptHeader_timed :
    Timed fun clock => acceptHeader L enableEventLog (clock i) ctx header :=
  .bind (verifyHeader_timed L ctx i header).wrapM fun _ => .const _

def syncHeader_timed (raw : Bytes) :
    Timed fun clock => syncHeader L enableEventLog (clock i) ctx raw :=
  .bind (.const _) fun header => .bind (.const _) fun _ => .ite (.const _)
    (.bind (.const _) fun _ => .ite (acceptHeader_timed L enableEventLog ctx i header) (.const _))

def syncHeaders_timed : (headers : List Bytes) → (i : ℕ) →
    Timed fun clock => syncHeaders L enableEventLog clock ctx headers i
  | [], _ => .const _
  | raw :: rest, i =>
    .bind (syncHeader_timed L enableEventLog ctx i raw) fun _ => syncHeaders_timed rest (i + 1)

def syncBlockHeader_timed : Timed (syncBlockHeader L enableEventLog) :=
  .bind (.const _) fun _ => .bind (.const _) fun _ => .bind (.const _) fun _ =>
    .bind (.const _) fun _ => syncHeaders_timed _ _ _ _ _

end Msc

namespace Starcoin

variable (L : StcLib) (networkId : UInt32) (enableEventLog : Bool) (chainID : UInt64)

def checkParent_timed (i : ℕ) (header : L.Block) (raw : Bytes) :
    Timed fun clock => checkParent L (clock i) chainID header raw :=
  .bind (.const _) fun _ => .bind (.const _) fun _ => .bind (.const _) fun _ =>
    .bind (.const _) fun _ => .bind (.const _) fun _ => .bind (.const _) fun _ =>
    .bind (Timed.check ⟨i, header.blockHeader.timestamp, latestTimestamp⟩) fun _ => .const _

def syncHeader_timed (genesisHeader : L.Block) (i : ℕ) (raw : Bytes) :
    Timed fun clock =>
      syncHeader L networkId enableEventLog (clock i) chainID genesisHeader raw :=
  .bind (.const _) fun sub => .bind (.const _) fun _ => .bind (.const _) fun _ => .ite (.const _)
    (.bind (checkParent_timed L chainID i sub.header raw) fun _ => .const _)

def syncHeaders_timed (genesisHeader : L.Block) : (headers : List Bytes) → (i : ℕ) →
    Timed fun clock =>
      syncHeaders L networkId enableEventLog clock chainID genesisHeader headers i
  | [], _ => .const _
  | raw :: rest, i =>
    .bind (syncHeader_timed L networkId enableEventLog chainID genesisHeader i raw) fun _ =>
      syncHeaders_timed genesisHeader rest (i + 1)

def syncBlockHeader_timed : Timed (syncBlockHeader L networkId enableEventLog) :=
  .bind (.const _) fun _ => .bind (.const _) fun _ => .bind (.const _) fun _ =>
    syncHeaders_timed _ _ _ _ _ _ _

end Starcoin

end Poly.HeaderSync
