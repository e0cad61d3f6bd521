import Poly.Core.Totality
import Poly.Native.Utils

/-! Which steps of a native contract can panic: nothing recovers from a panic, so it stops every node
that executes the block. -/
namespace Poly.Native

open Lib

variable {α β : Type} {s : NativeService}

def Crashed (r : Result α) : Prop := ∃ msg, r = .error (.panic msg)

@[simp] theorem not_crashed_ok (a : α) : ¬ Crashed (.ok a) := nofun

@[simp] theorem not_crashed_error (msg : String) : ¬ Crashed (.error (.error msg) : Result α) := nofun

@[simp] theorem crashed_panic (msg : String) : Crashed (.error (.panic msg) : Result α) := ⟨msg, rfl⟩

@[simp] theorem crashed_bind {r : Result α} {f : α → Result β} :
    Crashed (r >>= f) ↔ Crashed r ∨ ∃ a, r = .ok a ∧ Crashed (f a) := by
  rcases r with (msg | msg) | a <;> simp

@[simp] theorem crashed_map {r : Result α} {f : α → β} : Crashed (f <$> r) ↔ Crashed r := by
  rcases r with (msg | msg) | a <;> simp

@[simp] theorem crashed_wrapError {r : Result α} {context} :
    Crashed (wrapError context r) ↔ Crashed r := by
  rcases r with (msg | msg) | a <;> simp [wrapError]

@[simp] theorem not_crashed_pure (a : α) : ¬ Crashed (pure a : Result α) := nofun

@[simp] theorem not_crashed_failIf {c : Prop} [Decidable c] {msg} :
    ¬ Crashed (failIf c (.error msg) : Result Unit) := by
  unfold failIf
  split
  · exact not_crashed_error _
  · exact not_crashed_ok _

@[simp] theorem not_crashed_orFail {o : Option α} {msg} :
    ¬ Crashed (orFail o (.error msg) : Result α) := by
  cases o
  · exact not_crashed_error _
  · exact not_crashed_ok _

@[simp] theorem crashed_lift {r : Result α} : Crashed ((lift r).run s) ↔ Crashed r := by
  rcases r with (msg | msg) | a <;> simp [lift, StateT.lift, StateT.run]

@[simp] theorem crashed_wrapM {x : NativeM α} {context} :
    Crashed ((wrapM context x).run s) ↔ Crashed (x.run s) := crashed_wrapError

@[simp] theorem not_crashed_run_failIf {c : Prop} [Decidable c] {msg} :
    ¬ Crashed ((failIf c (.error msg) : NativeM Unit).run s) := by
  unfold failIf
  split
  · exact not_crashed_error _
  · exact not_crashed_ok _

@[simp] theorem not_crashed_run_orFail {o : Option α} {msg} :
    ¬ Crashed ((orFail o (.error msg) : NativeM α).run s) := by
  cases o
  · exact not_crashed_error _
  · exact not_crashed_ok _

/-- A step that only reads, and returns, can be left out. -/
theorem crashed_read_bind {x : NativeM α} {f : α → NativeM β} [Within Eq x]
    (hx : ¬ Crashed (x.run s)) :
    Crashed ((x >>= f).run s) ↔ ∃ a, x.run s = .ok (a, s) ∧ Crashed ((f a).run s) := by
  rw [StateT.run_bind, crashed_bind, or_iff_right hx]
  constructor
  · rintro ⟨⟨a, t⟩, ha, h⟩
    obtain rfl : s = t := Within.of_run ha
    exact ⟨a, ha, h⟩
  · rintro ⟨a, ha, h⟩
    exact ⟨(a, s), ha, h⟩

theorem crashed_failIf_bind {c : Prop} [Decidable c] {msg} {f : Unit → NativeM β} :
    Crashed ((failIf c (.error msg) >>= f).run s) ↔ ¬ c ∧ Crashed ((f ()).run s) := by
  rw [crashed_read_bind not_crashed_run_failIf]
  simp only [run_failIf_ok, and_true]
  constructor
  · rintro ⟨_, h⟩
    exact h
  · exact fun h => ⟨(), h⟩

/-- The read of a pointer that may be nil. -/
theorem crashed_deref_bind {o : Option α} {f : α → NativeM β} {msg} :
    Crashed ((orFail o (.panic msg) >>= f).run s) ↔ ∀ a, o = some a → Crashed ((f a).run s) := by
  cases o with
  | none => exact iff_of_true (crashed_panic msg) nofun
  | some a => simp [orFail]

@[simp] theorem not_crashed_decode {r : Reader Failure α} [h : PanicFree r] (bs : Bytes) :
    ¬ Crashed (decode r bs) := by
  rintro ⟨msg, he⟩
  cases hr : r.run bs with
  | ok p =>
    rw [decode, hr] at he
    cases he
  | error e =>
    rw [decode, hr] at he
    cases he
    exact h.not_crash bs _ hr (isPanic_panic msg)

instance : PanicFree storageItem := .bind

@[simp] theorem not_crashed_getValueFromRawStorageItem (raw : Bytes) :
    ¬ Crashed (getValueFromRawStorageItem raw) := not_crashed_decode raw

@[simp] theorem not_crashed_getCache {key} : ¬ Crashed ((getCache key).run s) := not_crashed_ok _

@[simp] theorem not_crashed_getItem {key missing context} :
    ¬ Crashed ((getItem key (.error missing) context).run s) := by
  simp [getItem]

@[simp] theorem not_crashed_putItem {key value} : ¬ Crashed ((putItem key value).run s) :=
  not_crashed_ok _

end Poly.Native
