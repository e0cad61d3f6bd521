import Mathlib

/-! Byte strings, little-endian words and byte strings of a fixed length. -/
namespace Poly.Lib

instance linearOrderUInt8 : LinearOrder UInt8 where
  le_refl := UInt8.le_refl
  le_trans _ _ _ := UInt8.le_trans
  lt_iff_le_not_ge a b := by
    simp only [UInt8.lt_iff_toNat_lt, UInt8.le_iff_toNat_le]
    omega
  le_antisymm _ _ := UInt8.le_antisymm
  le_total := UInt8.le_total
  toDecidableLE := inferInstance

instance linearOrderUInt32 : LinearOrder UInt32 where
  le_refl := UInt32.le_refl
  le_trans _ _ _ := UInt32.le_trans
  lt_iff_le_not_ge a b := by
    simp only [UInt32.lt_iff_toNat_lt, UInt32.le_iff_toNat_le]
    omega
  le_antisymm _ _ := UInt32.le_antisymm
  le_total := UInt32.le_total
  toDecidableLE := inferInstance

abbrev Bytes := List UInt8

instance lawfulBEqBytes : LawfulBEq Bytes := inferInstance

/-- Byte strings of exactly `n` bytes; a value of another length cannot be built. -/
abbrev FixedBytes (n : ℕ) := { l : Bytes // l.length = n }

/-- The `n` low bytes of a number, least significant first. -/
def leBytes : ℕ → ℕ → Bytes
  | 0, _ => []
  | n + 1, x => UInt8.ofNat x :: leBytes n (x / 256)

/-- The number that a little-endian byte string denotes. -/
def leNat : Bytes → ℕ
  | [] => 0
  | b :: bs => b.toNat + 256 * leNat bs

@[simp] theorem leBytes_length (n x : ℕ) : (leBytes n x).length = n := by
  induction n generalizing x with
  | zero => rfl
  | succ n ih => simp [leBytes, ih]

/-- A byte string cut, or padded with zeros, to `n` bytes. -/
def zeroPad (n : ℕ) (bs : Bytes) : FixedBytes n := ⟨leBytes n (leNat bs), leBytes_length n _⟩

theorem leNat_leBytes (n x : ℕ) (hx : x < 256 ^ n) : leNat (leBytes n x) = x := by
  induction n generalizing x with
  | zero => simp at hx; simp [leBytes, leNat, hx]
  | succ n ih =>
    have hq : x / 256 < 256 ^ n := by
      omega
    simp only [leBytes, leNat, ih _ hq, UInt8.toNat_ofNat']
    omega

theorem leBytes_leNat_cons (n : ℕ) (b : UInt8) (bs : Bytes) :
    leBytes (n + 1) (leNat (b :: bs)) = b :: leBytes n (leNat bs) := by
  have hb : b.toNat < 256 := b.toNat_lt
  have hq : (b.toNat + 256 * leNat bs) / 256 = leNat bs := by omega
  have hr : UInt8.ofNat (b.toNat + 256 * leNat bs) = b := by
    apply UInt8.toNat_inj.mp
    rw [UInt8.toNat_ofNat']
    omega
  rw [leBytes, leNat, hq, hr]

theorem leBytes_leNat (bs : Bytes) : leBytes bs.length (leNat bs) = bs := by
  induction bs with
  | nil => rfl
  | cons b bs ih => rw [List.length_cons, leBytes_leNat_cons, ih]

theorem take_leBytes_leNat {n m : ℕ} {bs : Bytes} (hm : n ≤ m) (hbs : n ≤ bs.length) :
    (leBytes m (leNat bs)).take n = bs.take n := by
  induction n generalizing m bs with
  | zero => rfl
  | succ n ih =>
    cases bs with
    | nil => cases hbs
    | cons b bs =>
      obtain ⟨m, rfl⟩ : ∃ k, m = k + 1 := ⟨m - 1, by omega⟩
      rw [leBytes_leNat_cons, List.take_succ_cons, List.take_succ_cons,
        ih (Nat.le_of_succ_le_succ hm) (Nat.le_of_succ_le_succ hbs)]

theorem leBytes_inj {n x y : ℕ} (hx : x < 256 ^ n) (hy : y < 256 ^ n)
    (h : leBytes n x = leBytes n y) : x = y := by
  rw [← leNat_leBytes n x hx, h, leNat_leBytes n y hy]

end Poly.Lib
