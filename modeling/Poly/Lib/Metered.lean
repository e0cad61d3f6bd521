import Poly.Lib.Reader

/-! Readers with a record of the slots that they ask the allocator for. -/
namespace Poly.Lib

namespace Reader

variable {ε α β : Type} (crash : ε → Prop)

/-- No input makes the reader fail with a crash. Instances follow the program text. -/
class CrashFree (r : Reader ε α) : Prop where
  not_crash : ∀ bs e, r.run bs = .error e → ¬ crash e

namespace CrashFree

variable {crash} {e : ε}

instance pure (a : α) : CrashFree crash (pure a : Reader ε α) := ⟨nofun⟩

instance : CrashFree crash (get : Reader ε Bytes) := ⟨nofun⟩

section

variable [he : Fact (¬ crash e)]

instance : CrashFree crash (throw e : Reader ε α) := by
  constructor
  intro bs e' h
  cases h
  exact he.out

instance (n : ℕ) : CrashFree crash (take e n) := by
  constructor
  intro bs e' h
  simp only [take, StateT.run] at h
  split at h
  · cases h
  · cases h
    exact he.out

instance {c : Prop} [Decidable c] {r r' : Reader ε α} [h : CrashFree crash r]
    [h' : CrashFree crash r'] : CrashFree crash (if c then r else r') := by
  split
  · exact h
  · exact h'

instance {c : Prop} [Decidable c] : CrashFree crash (failIf c e : Reader ε Unit) := by
  unfold failIf
  infer_instance

end

theorem lift {x : Except ε α} (hx : ∀ e, x = .error e → ¬ crash e) :
    CrashFree crash (StateT.lift x : Reader ε α) := by
  constructor
  intro bs e h
  cases x with
  | ok a => cases h
  | error e' =>
    cases h
    exact hx e rfl

instance bind {r : Reader ε α} {f : α → Reader ε β} [h : CrashFree crash r]
    [hf : ∀ a, CrashFree crash (f a)] : CrashFree crash (r >>= f) := by
  constructor
  intro bs e hrun
  rw [StateT.run_bind] at hrun
  cases hr : r.run bs with
  | error e' =>
    rw [hr] at hrun
    cases hrun
    exact h.not_crash bs e hr
  | ok p =>
    rw [hr] at hrun
    exact (hf p.1).not_crash p.2 e hrun

end CrashFree

/-- `n` values in a row, each read with its number. -/
def numbered (r : ℕ → Reader ε α) : ℕ → ℕ → Reader ε (List α)
  | _, 0 => pure []
  | i, n + 1 => do
    let a ← r i
    let as ← numbered r (i + 1) n
    return a :: as

variable {crash}

instance (r : ℕ → Reader ε α) [∀ i, CrashFree crash (r i)] (i n : ℕ) :
    CrashFree crash (numbered r i n) := by
  induction n generalizing i with
  | zero => exact .pure []
  | succ n ih => exact .bind

instance (r : Reader ε α) [CrashFree crash r] (n : ℕ) : CrashFree crash (replicate r n) := by
  induction n with
  | zero => exact .pure []
  | succ n ih => exact .bind

end Reader

/-- Slots asked for at once, the most that can be had (if there is such a bound), and the bytes of
the input that are not yet read. -/
structure Request where
  slots : ℕ
  limit : Option ℕ
  left : ℕ
  deriving DecidableEq

/-- The allocator does not give that many slots. -/
def Request.Refused (q : Request) : Prop := ∃ n ∈ q.limit, n < q.slots

/-- A reader that also says what it asked for, whether it ends well or not. -/
def Metered (ε α : Type) := Bytes → Except ε (α × Bytes) × List Request

namespace Metered

variable {ε α β : Type}

/-- The reader alone. -/
def reader (m : Metered ε α) : Reader ε α := fun bs => (m bs).1

/-- The slots asked for on an input. -/
def requests (m : Metered ε α) (bs : Bytes) : List Request := (m bs).2

variable (r : Reader ε α)

/-- A reader that asks for nothing. -/
def lift : Metered ε α := fun bs => (r.run bs, [])

/-- Ask for slots; a request beyond the limit ends the run with `e`. -/
def request (slots : ℕ) (limit : Option ℕ) (e : ε) : Metered ε Unit := fun bs =>
  ((match limit with
    | none => (pure () : Reader ε Unit)
    | some n => failIf (slots > n) e).run bs, [⟨slots, limit, bs.length⟩])

def andThen (m : Metered ε α) (f : α → Metered ε β) : Metered ε β := fun bs =>
  match (m bs).1 with
  | .error e => (.error e, (m bs).2)
  | .ok (a, rest) => ((f a rest).1, (m bs).2 ++ (f a rest).2)

instance : Monad (Metered ε) where
  pure a := lift (pure a)
  bind := andThen

@[simp] theorem reader_lift : (lift r).reader = r := rfl

@[simp] theorem reader_pure (a : α) : (pure a : Metered ε α).reader = pure a := rfl

@[simp] theorem reader_request_some (slots n : ℕ) (e : ε) :
    (request slots (some n) e).reader = failIf (slots > n) e := rfl

@[simp] theorem reader_request_none (slots : ℕ) (e : ε) :
    (request slots none e).reader = pure () := rfl

@[simp] theorem reader_bind (m : Metered ε α) (f : α → Metered ε β) :
    (m >>= f).reader = m.reader >>= fun a => (f a).reader := by
  funext bs
  change (andThen m f bs).1 = (m bs).1 >>= fun p => (f p.1 p.2).1
  unfold andThen
  cases (m bs).1 with
  | error e => rfl
  | ok p => rfl

@[simp] theorem requests_lift (bs : Bytes) : (lift r).requests bs = [] := rfl

@[simp] theorem requests_pure (a : α) (bs : Bytes) : (pure a : Metered ε α).requests bs = [] := rfl

@[simp] theorem requests_request (slots : ℕ) (limit : Option ℕ) (e : ε) (bs : Bytes) :
    (request slots limit e).requests bs = [⟨slots, limit, bs.length⟩] := rfl

variable {m : Metered ε α}

/-- What is asked for in two parts: the second part counts once the first has ended well. -/
theorem mem_requests_bind {f : α → Metered ε β} {bs : Bytes} {q : Request} :
    q ∈ (m >>= f).requests bs ↔ q ∈ m.requests bs ∨
      ∃ a rest, m.reader.run bs = .ok (a, rest) ∧ q ∈ (f a).requests rest := by
  change q ∈ (andThen m f bs).2 ↔ q ∈ (m bs).2 ∨
    ∃ a rest, (m bs).1 = .ok (a, rest) ∧ q ∈ (f a rest).2
  unfold andThen
  cases (m bs).1 with
  | error e => simp
  | ok p =>
    obtain ⟨a, rest⟩ := p
    simp

/-- The run ends with a crash exactly when a request was refused. -/
class Accounted (crash : ε → Prop) (m : Metered ε α) : Prop where
  crash_iff : ∀ bs,
    (∃ e, m.reader.run bs = .error e ∧ crash e) ↔ ∃ q ∈ m.requests bs, q.Refused

namespace Accounted

variable {crash : ε → Prop}

instance {r : Reader ε α} [h : r.CrashFree crash] : Accounted crash (lift r) := by
  constructor
  intro bs
  simp only [reader_lift, requests_lift, List.not_mem_nil, false_and, exists_false, iff_false]
  rintro ⟨e, hrun, he⟩
  exact h.not_crash bs e hrun he

instance pure (a : α) : Accounted crash (pure a : Metered ε α) :=
  inferInstanceAs (Accounted crash (lift _))

instance {e : ε} [he : Fact (crash e)] (slots : ℕ) (limit : Option ℕ) :
    Accounted crash (request slots limit e) := by
  constructor
  intro bs
  rw [requests_request]
  cases limit with
  | none =>
    constructor
    · rintro ⟨e', hrun, -⟩
      cases hrun
    · rintro ⟨q, hq, n, hn, -⟩
      cases List.mem_singleton.mp hq
      cases hn
  | some n =>
    rw [reader_request_some]
    by_cases hle : slots > n
    · refine ⟨fun _ => ⟨_, List.mem_singleton_self _, n, rfl, hle⟩, fun _ => ⟨e, ?_, he.out⟩⟩
      rw [failIf, if_pos hle]
      rfl
    · constructor
      · rintro ⟨e', hrun, -⟩
        rw [failIf, if_neg hle] at hrun
        cases hrun
      · rintro ⟨q, hq, k, hk, hlt⟩
        cases List.mem_singleton.mp hq
        cases hk
        exact absurd hlt hle

instance bind {f : α → Metered ε β} [h : Accounted crash m] [hf : ∀ a, Accounted crash (f a)] :
    Accounted crash (m >>= f) := by
  constructor
  intro bs
  rw [reader_bind, StateT.run_bind]
  simp only [mem_requests_bind]
  cases hm : m.reader.run bs with
  | error e =>
    have hiff := h.crash_iff bs
    rw [hm] at hiff
    simpa using hiff
  | ok p =>
    -- the first part did not crash, so none of its requests was refused
    have hfirst : ¬ ∃ q ∈ m.requests bs, q.Refused := by
      rw [← h.crash_iff bs, hm]
      rintro ⟨e, he, -⟩
      cases he
    have hiff := (hf p.1).crash_iff p.2
    constructor
    · intro hcrash
      obtain ⟨q, hq, hr⟩ := hiff.mp hcrash
      exact ⟨q, Or.inr ⟨p.1, p.2, rfl, hq⟩, hr⟩
    · rintro ⟨q, hq | ⟨a, rest, hp, hq⟩, hr⟩
      · exact absurd ⟨q, hq, hr⟩ hfirst
      · cases hp
        exact hiff.mpr ⟨q, hq, hr⟩

/-- No crash, said without naming the failure. -/
theorem not_crash_iff (h : Accounted crash m) (bs : Bytes) :
    (∀ e, m.reader.run bs = .error e → ¬ crash e) ↔ ∀ q ∈ m.requests bs, ¬ q.Refused := by
  constructor
  · intro hrun q hq hr
    obtain ⟨e, he, hc⟩ := (h.crash_iff bs).mpr ⟨q, hq, hr⟩
    exact hrun e he hc
  · intro hall e he hc
    obtain ⟨q, hq, hr⟩ := (h.crash_iff bs).mp ⟨e, he, hc⟩
    exact hall q hq hr

end Accounted

/-- Every request is for the number that `count` reads off the input, and that number is asked for
as soon as it is read. -/
structure SizedBy (m : Metered ε α) (count : Reader ε UInt64) (limit : Option ℕ) : Prop where
  asked : ∀ bs l rest, count.run bs = .ok (l, rest) →
    ∃ q ∈ m.requests bs, q.slots = l.toNat ∧ q.limit = limit
  announced : ∀ bs, ∀ q ∈ m.requests bs,
    ∃ l rest, count.run bs = .ok (l, rest) ∧ q.slots = l.toNat ∧ q.limit = limit

variable {limit : Option ℕ} {crash : ε → Prop}

theorem sizedBy_bind {r : Reader ε β} {f : β → Metered ε α} {g : β → Reader ε UInt64}
    (h : ∀ b, SizedBy (f b) (g b) limit) : SizedBy (lift r >>= f) (r >>= g) limit := by
  constructor
  · intro bs l rest hcount
    obtain ⟨b, mid, hb, hcount⟩ := run_bind_ok.mp hcount
    obtain ⟨q, hq, hsize⟩ := (h b).asked mid l rest hcount
    exact ⟨q, mem_requests_bind.mpr (Or.inr ⟨b, mid, hb, hq⟩), hsize⟩
  · intro bs q hq
    rcases mem_requests_bind.mp hq with hq | ⟨b, mid, hb, hq⟩
    · cases hq
    · obtain ⟨l, rest, hcount, hsize⟩ := (h b).announced mid q hq
      exact ⟨l, rest, run_bind_ok.mpr ⟨b, mid, hb, hcount⟩, hsize⟩

/-- A number is read and asked for; whatever follows asks for the same number again, if at all. -/
theorem sizedBy_request {count : Reader ε UInt64} {f : UInt64 → Metered ε α} {e : ε}
    (h : ∀ l bs, ∀ q ∈ (f l).requests bs, q.slots = l.toNat ∧ q.limit = limit) :
    SizedBy (lift count >>= fun l => request l.toNat limit e >>= fun _ => f l) count limit := by
  constructor
  · intro bs l rest hcount
    refine ⟨⟨l.toNat, limit, rest.length⟩, mem_requests_bind.mpr (Or.inr ⟨l, rest, hcount, ?_⟩),
      rfl, rfl⟩
    exact mem_requests_bind.mpr (Or.inl (List.mem_singleton_self _))
  · intro bs q hq
    rcases mem_requests_bind.mp hq with hq | ⟨l, rest, hcount, hq⟩
    · cases hq
    · refine ⟨l, rest, hcount, ?_⟩
      rcases mem_requests_bind.mp hq with hq | ⟨_, after, -, hq⟩
      · cases List.mem_singleton.mp hq
        exact ⟨rfl, rfl⟩
      · exact h l after q hq

/-- The number read is at most `bound`, and no more than the allocator gives. -/
def CountFits (count : Reader ε UInt64) (limit : Option ℕ) (bound : ℕ) (bs : Bytes) : Prop :=
  ∀ l rest, count.run bs = .ok (l, rest) → l.toNat ≤ bound ∧ ∀ n ∈ limit, l.toNat ≤ n

theorem SizedBy.survives_iff {count : Reader ε UInt64} (hs : SizedBy m count limit)
    (h : Accounted crash m) (bound : ℕ) (bs : Bytes) :
    (∀ e, m.reader.run bs = .error e → ¬ crash e) ∧ (∀ q ∈ m.requests bs, q.slots ≤ bound) ↔
      CountFits count limit bound bs := by
  rw [h.not_crash_iff]
  constructor
  · rintro ⟨hrefused, hbound⟩ l rest hcount
    obtain ⟨q, hq, hslots, hlimit⟩ := hs.asked bs l rest hcount
    refine ⟨hslots ▸ hbound q hq, fun n hn => ?_⟩
    by_contra hlt
    exact hrefused q hq ⟨n, hlimit ▸ hn, by omega⟩
  · intro hfits
    constructor
    · rintro q hq ⟨n, hn, hlt⟩
      obtain ⟨l, rest, hcount, hslots, hlimit⟩ := hs.announced bs q hq
      have hle := (hfits l rest hcount).2 n (hlimit ▸ hn)
      omega
    · intro q hq
      obtain ⟨l, rest, hcount, hslots, -⟩ := hs.announced bs q hq
      exact hslots ▸ (hfits l rest hcount).1

end Metered

end Poly.Lib
