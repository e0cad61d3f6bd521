import Poly.Lib.Reader

/-! Hashes, addresses and the zero-copy codec that every stored or transmitted value goes through. -/
namespace Poly

open Lib List UInt64

/-- How a Go function ends when it does not return a value: an error, or a panic. -/
inductive Failure where
  | error (msg : String)
  | panic (msg : String)
  deriving DecidableEq, Repr

abbrev Result := Except Failure

/-- Reading a slice; out of its bounds Go panics. -/
def goIndex {α : Type} (l : List α) (i : ℕ) : Result α := orFail l[i]? (.panic "index out of range")

@[simp] theorem goIndex_ok {α : Type} {l i} {a : α} : goIndex l i = .ok a ↔ l[i]? = some a := orFail_ok

/-- Put a text before the message of an error, as the callers do; a panic passes through. -/
def wrapError {α : Type} (context : String) : Result α → Result α
  | .error (.error msg) => .error (.error (context ++ msg))
  | r => r

@[simp] theorem wrapError_ok {α : Type} {context r} {a : α} :
    wrapError context r = .ok a ↔ r = .ok a := by
  unfold wrapError
  split <;> simp

/-- Put a text before the message of an error and one after it. -/
def wrapErrorBetween {α : Type} (before after : String) : Result α → Result α
  | .error (.error msg) => .error (.error (before ++ msg ++ after))
  | r => r

@[simp] theorem wrapErrorBetween_ok {α : Type} {before after r} {a : α} :
    wrapErrorBetween before after r = .ok a ↔ r = .ok a := by
  unfold wrapErrorBetween
  split <;> simp

abbrev Uint256 := FixedBytes 32

instance lawfulBEqUint256 : LawfulBEq Uint256 := inferInstance

abbrev Address := FixedBytes 20

instance lawfulBEqAddress : LawfulBEq Address := inferInstance

def Uint256.empty : Uint256 := ⟨List.replicate 32 0, rfl⟩

def Address.empty : Address := ⟨List.replicate 20 0, rfl⟩

variable (bs : Bytes)

/-- A Go string as text; the strings themselves are byte strings. -/
def text : String := String.ofList (bs.map fun b => Char.ofNat b.toNat)

def hexDigit (n : ℕ) : UInt8 := if n < 10 then UInt8.ofNat (48 + n) else UInt8.ofNat (87 + n)

/-- `hex.EncodeToString`. -/
def hexEncode : Bytes :=
  bs.flatMap fun b => [hexDigit (b.toNat / 16), hexDigit (b.toNat % 16)]

/-- The value of a hex digit of either case. -/
def hexValue (b : UInt8) : Option ℕ :=
  if 48 ≤ b ∧ b ≤ 57 then some (b.toNat - 48)
  else if 97 ≤ b ∧ b ≤ 102 then some (b.toNat - 87)
  else if 65 ≤ b ∧ b ≤ 70 then some (b.toNat - 55)
  else none

/-- `hex.DecodeString`. -/
def hexDecode : Bytes → Result Bytes
  | [] => .ok []
  | [a] => do
    let _ ← orFail (hexValue a) (.error ("encoding/hex: invalid byte: " ++ text [a]))
    throw (.error "encoding/hex: odd length hex string")
  | a :: b :: l => do
    let hi ← orFail (hexValue a) (.error ("encoding/hex: invalid byte: " ++ text [a]))
    let lo ← orFail (hexValue b) (.error ("encoding/hex: invalid byte: " ++ text [b]))
    let rest ← hexDecode l
    return UInt8.ofNat (16 * hi + lo) :: rest

/-- The text that `%x` prints. -/
def toHex : String := text (hexEncode bs)

/-- The text that `%d` prints for a byte slice. -/
def printBytes : String := "[" ++ String.intercalate " " (bs.map toString) ++ "]"

namespace Source

variable {ε : Type}

/-- A fixed-width little-endian word, as `binary.LittleEndian` reads it. -/
def nextWord {α : Type} (ofNat : ℕ → α) (n : ℕ) (eof : ε) : Reader ε α := do
  let buf ← Reader.take eof n
  return ofNat (leNat buf)

def nextBytes (n : ℕ) (eof : ε) : Reader ε Bytes := Reader.take eof n

def nextByte (eof : ε) : Reader ε UInt8 := nextWord UInt8.ofNat 1 eof

def nextUint16 (eof : ε) : Reader ε UInt16 := nextWord UInt16.ofNat 2 eof

def nextUint32 (eof : ε) : Reader ε UInt32 := nextWord UInt32.ofNat 4 eof

def nextUint64 (eof : ε) : Reader ε UInt64 := nextWord UInt64.ofNat 8 eof

/-- A byte string of fixed length, copied into an array. -/
def nextFixed (n : ℕ) (eof : ε) : Reader ε (FixedBytes n) := fun bs =>
  if h : n ≤ bs.length then .ok (⟨bs.take n, by simpa using h⟩, bs.drop n) else .error eof

def nextAddress (eof : ε) : Reader ε Address := nextFixed 20 eof

def nextHash (eof : ε) : Reader ε Uint256 := nextFixed 32 eof

/-- A length prefix. Longer forms of small numbers are accepted as well. -/
def nextVarUint (eof : ε) : Reader ε UInt64 := do
  let fb ← nextByte eof
  if fb = 0xFD then
    return (← nextUint16 eof).toUInt64
  else if fb = 0xFE then
    return (← nextUint32 eof).toUInt64
  else if fb = 0xFF then
    nextUint64 eof
  else
    return fb.toUInt64

def nextVarBytes (eof : ε) : Reader ε Bytes := do
  let count ← nextVarUint eof
  nextBytes count.toNat eof

/-- A boolean; any other byte than 0 and 1 counts as the end of the data. -/
def nextBool (eof : ε) : Reader ε Bool := do
  let val ← nextByte eof
  if val = 0 then return false
  else if val = 1 then return true
  else throw eof

/-- An address written as a byte string with its length. -/
def addressParseFromBytes (f : Bytes) : Result Address :=
  if h : f.length = 20 then .ok ⟨f, h⟩
  else .error (.error "[Common]: AddressParseFromBytes err, len != 20")

end Source

namespace Sink

def writeBool (b : Bool) : Bytes := if b then [1] else [0]

def writeUint16 (x : UInt16) : Bytes := leBytes 2 x.toNat

def writeUint32 (x : UInt32) : Bytes := leBytes 4 x.toNat

def writeUint64 (x : UInt64) : Bytes := leBytes 8 x.toNat

def writeVarUint (x : UInt64) : Bytes :=
  if x < 0xFD then [x.toUInt8]
  else if x ≤ 0xFFFF then 0xFD :: leBytes 2 x.toNat
  else if x ≤ 0xFFFFFFFF then 0xFE :: leBytes 4 x.toNat
  else 0xFF :: leBytes 8 x.toNat

def writeVarBytes (data : Bytes) : Bytes :=
  writeVarUint (UInt64.ofNat data.length) ++ data

end Sink

section RoundTrip

open Source Sink

variable {ε α : Type} (eof : ε)

theorem nextWord_run {f : ℕ → α} {n x : ℕ} (hx : x < 256 ^ n) (rest : Bytes) :
    (nextWord f n eof).run (leBytes n x ++ rest) = .ok (f x, rest) := by
  have h := Reader.take_run_append eof (leBytes n x) rest
  rw [leBytes_length] at h
  refine run_bind_ok.mpr ⟨_, _, h, ?_⟩
  rw [leNat_leBytes n x hx]
  rfl

@[simp] theorem nextByte_run (b : UInt8) (rest : Bytes) :
    (nextByte eof).run (b :: rest) = .ok (b, rest) := by
  simpa [nextByte, leBytes] using nextWord_run eof (f := UInt8.ofNat) (n := 1) b.toNat_lt rest

@[simp] theorem nextUint16_run (x : UInt16) (rest : Bytes) :
    (nextUint16 eof).run (writeUint16 x ++ rest) = .ok (x, rest) := by
  simpa [nextUint16, writeUint16] using
    nextWord_run eof (f := UInt16.ofNat) (n := 2) x.toNat_lt rest

@[simp] theorem nextUint32_run (x : UInt32) (rest : Bytes) :
    (nextUint32 eof).run (writeUint32 x ++ rest) = .ok (x, rest) := by
  simpa [nextUint32, writeUint32] using
    nextWord_run eof (f := UInt32.ofNat) (n := 4) x.toNat_lt rest

@[simp] theorem nextUint64_run (x : UInt64) (rest : Bytes) :
    (nextUint64 eof).run (writeUint64 x ++ rest) = .ok (x, rest) := by
  simpa [nextUint64, writeUint64] using
    nextWord_run eof (f := UInt64.ofNat) (n := 8) x.toNat_lt rest

@[simp] theorem nextFixed_run {n : ℕ} (x : FixedBytes n) (rest : Bytes) :
    (nextFixed n eof).run (x.val ++ rest) = .ok (x, rest) := by
  obtain ⟨l, rfl⟩ := x
  simp [nextFixed, StateT.run]

@[simp] theorem nextHash_run (x : Uint256) (rest : Bytes) :
    (nextHash eof).run (x.val ++ rest) = .ok (x, rest) := nextFixed_run eof x rest

@[simp] theorem nextAddress_run (x : Address) (rest : Bytes) :
    (nextAddress eof).run (x.val ++ rest) = .ok (x, rest) := nextFixed_run eof x rest

@[simp] theorem nextBool_run (b : Bool) (rest : Bytes) :
    (nextBool eof).run (writeBool b ++ rest) = .ok (b, rest) := by
  cases b
  · exact run_bind_ok.mpr ⟨0, rest, nextByte_run eof 0 rest, rfl⟩
  · exact run_bind_ok.mpr ⟨1, rest, nextByte_run eof 1 rest, rfl⟩

theorem length_flatMap_val {n : ℕ} (l : List (FixedBytes n)) :
    (l.flatMap Subtype.val).length = n * l.length := by
  induction l with
  | nil => rfl
  | cons x l ih =>
    rw [flatMap_cons, length_append, ih, x.2, length_cons]
    ring

theorem nextHashes_run (l : List Uint256) (rest : Bytes) :
    (Reader.replicate (nextHash eof) l.length).run (l.flatMap Subtype.val ++ rest) =
      .ok (l, rest) := by
  exact Reader.roundTrip_replicate (P := fun _ => True) (fun x _ => nextHash_run eof x) l
    (fun _ _ => trivial) rest

@[simp] theorem nextVarUint_run (x : UInt64) (rest : Bytes) :
    (nextVarUint eof).run (writeVarUint x ++ rest) = .ok (x, rest) := by
  have word {n : ℕ} {β : Type} {f : ℕ → β} (hx : x.toNat < 256 ^ n) :=
    nextWord_run (α := β) eof (f := f) hx rest
  unfold writeVarUint
  split_ifs with h₁ h₂ h₃
  · have h : x.toNat < 253 := by simpa using UInt64.lt_iff_toNat_lt.mp h₁
    have hb : x.toUInt8.toNat = x.toNat := by
      rw [UInt64.toNat_toUInt8]
      omega
    refine run_bind_ok.mpr ⟨_, _, nextByte_run eof _ _, ?_⟩
    have hne : ∀ c : UInt8, 253 ≤ c.toNat → x.toUInt8 ≠ c := by
      rintro c hc rfl
      omega
    rw [if_neg (hne _ (by decide)), if_neg (hne _ (by decide)), if_neg (hne _ (by decide))]
    refine run_pure_ok.mpr ⟨UInt64.toNat_inj.mp ?_, rfl⟩
    rw [UInt8.toNat_toUInt64, hb]
  · have h : x.toNat < 256 ^ 2 := (UInt64.le_iff_toNat_le.mp h₂).trans_lt (by decide)
    refine run_bind_ok.mpr ⟨_, _, nextByte_run eof _ _, ?_⟩
    refine run_bind_ok.mpr ⟨_, _, word h, run_pure_ok.mpr ⟨UInt64.toNat_inj.mp ?_, rfl⟩⟩
    rw [UInt16.toNat_toUInt64, UInt16.toNat_ofNat_of_lt' h]
  · have h : x.toNat < 256 ^ 4 := (UInt64.le_iff_toNat_le.mp h₃).trans_lt (by decide)
    refine run_bind_ok.mpr ⟨_, _, nextByte_run eof _ _, ?_⟩
    refine run_bind_ok.mpr ⟨_, _, word h, run_pure_ok.mpr ⟨UInt64.toNat_inj.mp ?_, rfl⟩⟩
    rw [UInt32.toNat_toUInt64, UInt32.toNat_ofNat_of_lt' h]
  · refine run_bind_ok.mpr ⟨_, _, nextByte_run eof _ _, ?_⟩
    exact nextUint64_run eof x rest

@[simp] theorem nextVarBytes_run (data : Bytes) (h : data.length < 2 ^ 64) (rest : Bytes) :
    (nextVarBytes eof).run (writeVarBytes data ++ rest) = .ok (data, rest) := by
  unfold writeVarBytes
  rw [append_assoc]
  refine run_bind_ok.mpr ⟨_, _, nextVarUint_run eof _ _, ?_⟩
  rw [toNat_ofNat_of_lt' h]
  exact Reader.take_run_append eof data rest

end RoundTrip

section Local

open Source Reader

variable {ε α : Type} (eof : ε)

instance (f : ℕ → α) (n : ℕ) : Local (nextWord f n eof) := .bind

instance : Local (nextByte eof) := inferInstanceAs (Local (nextWord _ _ _))

instance : Local (nextUint16 eof) := inferInstanceAs (Local (nextWord _ _ _))

instance : Local (nextUint32 eof) := inferInstanceAs (Local (nextWord _ _ _))

instance : Local (nextUint64 eof) := inferInstanceAs (Local (nextWord _ _ _))

theorem nextFixed_run_ok {n bs rest x} (h : (nextFixed n eof).run bs = .ok (x, rest)) :
    bs = x.val ++ rest := by
  simp only [nextFixed, StateT.run] at h
  split at h
  · cases h
    exact (take_append_drop n bs).symm
  · cases h

instance (n : ℕ) : Local (nextFixed n eof) := by
  constructor
  intro bs x rest h
  exact ⟨x.val, nextFixed_run_ok eof h, fun rest' => nextFixed_run eof x rest'⟩

instance : Local (nextAddress eof) := inferInstanceAs (Local (nextFixed _ _))

instance : Local (nextHash eof) := inferInstanceAs (Local (nextFixed _ _))

instance : Local (nextVarUint eof) := .bind

instance (n : ℕ) : Local (nextBytes n eof) := inferInstanceAs (Local (take _ _))

instance : Local (nextVarBytes eof) := .bind

theorem nextVarBytes_length {bs data rest} (h : (nextVarBytes eof).run bs = .ok (data, rest)) :
    data.length < 2 ^ 64 := by
  obtain ⟨count, mid, -, ht⟩ := run_bind_ok.mp h
  rw [(take_run_ok.mp ht).1]
  exact count.toNat_lt

end Local

open Source Sink Reader

variable {ε α : Type} (eof : ε)

theorem nextWord_consumes {f : ℕ → α} {n bs rest} {a : α}
    (h : (nextWord f n eof).run bs = .ok (a, rest)) : bs.length = n + rest.length := by
  obtain ⟨buf, mid, ht, h⟩ := run_bind_ok.mp h
  cases h
  obtain ⟨rfl, rfl⟩ := take_run_ok.mp ht
  exact length_append

theorem writeVarUint_length (x : UInt64) : (writeVarUint x).length =
    if x.toNat < 0xFD then 1 else if x.toNat ≤ 0xFFFF then 3
    else if x.toNat ≤ 0xFFFFFFFF then 5 else 9 := by
  have h₁ : x < 0xFD ↔ x.toNat < 0xFD := lt_iff_toNat_lt
  have h₂ : x ≤ 0xFFFF ↔ x.toNat ≤ 0xFFFF := le_iff_toNat_le
  have h₃ : x ≤ 0xFFFFFFFF ↔ x.toNat ≤ 0xFFFFFFFF := le_iff_toNat_le
  unfold writeVarUint
  simp only [h₁, h₂, h₃]
  split_ifs <;> simp

theorem notLonger_nextVarUint : NotLonger (nextVarUint eof) writeVarUint := by
  intro bs x rest h
  obtain ⟨fb, mid, hfb, h⟩ := run_bind_ok.mp h
  have hfirst := nextWord_consumes eof hfb
  rw [writeVarUint_length]
  split_ifs at h with h₁ h₂ h₃
  · obtain ⟨y, _, hy, h⟩ := run_bind_ok.mp h
    cases h
    have hword := nextWord_consumes eof hy
    have hlt := y.toNat_lt
    rw [UInt16.toNat_toUInt64]
    split_ifs <;> omega
  · obtain ⟨y, _, hy, h⟩ := run_bind_ok.mp h
    cases h
    have hword := nextWord_consumes eof hy
    have hlt := y.toNat_lt
    rw [UInt32.toNat_toUInt64]
    split_ifs <;> omega
  · have hword := nextWord_consumes eof h
    split_ifs <;> omega
  · cases h
    -- the three marks of a longer form are excluded, and only they are at least 0xFD
    have hmark (c : UInt8) (hc : fb ≠ c) : fb.toNat ≠ c.toNat :=
      fun he => hc (UInt8.toNat_inj.mp he)
    have hfd : fb.toNat ≠ 253 := hmark _ h₁
    have hfe : fb.toNat ≠ 254 := hmark _ h₂
    have hff : fb.toNat ≠ 255 := hmark _ h₃
    have hlt := fb.toNat_lt
    rw [UInt8.toNat_toUInt64, if_pos (by omega)]
    omega

theorem notLonger_nextVarBytes : NotLonger (nextVarBytes eof) writeVarBytes := by
  intro bs data rest h
  obtain ⟨count, mid, hcount, ht⟩ := run_bind_ok.mp h
  obtain ⟨hlength, rfl⟩ := take_run_ok.mp ht
  have hsize := notLonger_nextVarUint eof _ _ _ hcount
  rw [writeVarBytes, hlength, UInt64.ofNat_toNat, length_append]
  rw [length_append] at hsize
  omega

theorem length_le_writeVarBytes (data : Bytes) : data.length ≤ (writeVarBytes data).length := by
  rw [writeVarBytes, length_append]
  omega

end Poly
