import Poly.Lib.Bytes

/-! Readers of byte strings: inversion, round trips and dependence on the bytes consumed only. -/
namespace Poly.Lib

open List

variable {ε α β : Type}

@[simp] theorem ok_bind (a : α) (f : α → Except ε β) : (Except.ok a >>= f) = f a := rfl

@[simp] theorem error_bind (e : ε) (f : α → Except ε β) :
    (Except.error e >>= f) = Except.error e := rfl

theorem bind_ok {x : Except ε α} {f : α → Except ε β} {b : β} :
    x >>= f = .ok b ↔ ∃ a, x = .ok a ∧ f a = .ok b := by
  cases x <;> simp

/-- A computation has one result. -/
theorem ok_unique {x : Except ε α} {a b : α} (h : x = .ok a) (h' : x = .ok b) : a = b :=
  Except.ok.inj (h.symm.trans h')

theorem ok_mk_inj {a a' : α} {b b' : β} (h : (.ok (a, b) : Except ε (α × β)) = .ok (a', b')) :
    a = a' ∧ b = b' := Prod.mk.inj (Except.ok.inj h)

theorem toOption_eq_some {x : Except ε α} {a : α} : x.toOption = some a ↔ x = .ok a := by
  cases x <;> simp [Except.toOption]

/-- What every successful step of a loop keeps holds after the loop. -/
theorem foldlM_invariant {f : β → α → Except ε β} {P : β → Prop} {l : List α}
    (hstep : ∀ b, ∀ a ∈ l, ∀ b', P b → f b a = .ok b' → P b') {b b' : β} (hb : P b)
    (h : l.foldlM f b = .ok b') : P b' := by
  induction l generalizing b with
  | nil => exact Except.ok.inj h ▸ hb
  | cons a l ih =>
    obtain ⟨c, hc, hl⟩ := bind_ok.mp h
    exact ih (fun b x hx => hstep b x (mem_cons_of_mem a hx))
      (hstep b a mem_cons_self c hb hc) hl

section MapM

variable {f g : α → Except ε β} {l : List α} {bs : List β}

theorem mapM_ok : l.mapM f = .ok bs ↔ List.Forall₂ (fun a b => f a = .ok b) l bs := by
  induction l generalizing bs with
  | nil => simp [pure, Except.pure, eq_comm]
  | cons a l ih =>
    simp only [mapM_cons, bind_ok, forall₂_cons_left_iff, ih]
    simp [pure, Except.pure, eq_comm]

theorem mapM_eq_ok_map {g : α → β} {P : α → Prop} (h : ∀ a b, f a = .ok b ↔ P a ∧ b = g a) :
    l.mapM f = .ok bs ↔ (∀ a ∈ l, P a) ∧ bs = l.map g := by
  have hmap : List.Forall₂ (fun a b => b = g a) l bs ↔ bs = l.map g := by
    rw [← forall₂_eq_eq_eq, forall₂_map_right_iff]
    exact ⟨.flip, .flip⟩
  simp only [mapM_ok, h, forall₂_and_left, hmap]

theorem mapM_congr_of_mem (h : ∀ a ∈ l, f a = g a) : l.mapM f = l.mapM g := by
  induction l with
  | nil => rfl
  | cons a l ih =>
    obtain ⟨ha, hl⟩ := forall_mem_cons.mp h
    rw [mapM_cons, mapM_cons, ha, ih hl]

variable (h : l.mapM f = .ok bs)
include h

theorem mem_mapM_ok {b : β} : b ∈ bs ↔ ∃ a ∈ l, f a = .ok b := by
  rw [mapM_ok] at h
  induction h with
  | nil => simp
  | cons hab _ ih => simp [ih, hab, eq_comm]

theorem exists_of_mapM_ok : ∀ a ∈ l, ∃ b, f a = .ok b := by
  rw [mapM_ok] at h
  induction h with
  | nil => simp
  | cons hab _ ih => exact forall_mem_cons.mpr ⟨⟨_, hab⟩, ih⟩

end MapM

/-- Stop with `e` when the condition holds. -/
def failIf {ε : Type} {m : Type → Type} [Monad m] [MonadExcept ε m] (c : Prop) [Decidable c]
    (e : ε) : m Unit :=
  if c then throw e else pure ()

theorem failIf_of_not {c : Prop} [Decidable c] {e : ε} (h : ¬ c) :
    (failIf c e : Except ε Unit) = .ok () := by
  rw [failIf, if_neg h]
  rfl

@[simp] theorem failIf_ok {c : Prop} [Decidable c] {e : ε} {u : Unit} :
    (failIf c e : Except ε Unit) = .ok u ↔ ¬ c := by
  unfold failIf
  split <;> simp_all [throw, throwThe, MonadExceptOf.throw, pure, Except.pure]

/-- The value of an option, or stop with `e`. -/
def orFail {ε α : Type} {m : Type → Type} [Monad m] [MonadExcept ε m] (o : Option α) (e : ε) :
    m α :=
  match o with
  | some a => pure a
  | none => throw e

@[simp] theorem orFail_ok {o : Option α} {e : ε} {a : α} :
    (orFail o e : Except ε α) = .ok a ↔ o = some a := by
  cases o <;> simp [orFail, throw, throwThe, MonadExceptOf.throw, pure, Except.pure]

variable {σ : Type} {s t : σ} {x : StateT σ (Except ε) α} {f : α → StateT σ (Except ε) β}

@[simp] theorem run_failIf_ok {c : Prop} [Decidable c] {e : ε} {u : Unit} :
    (failIf c e : StateT σ (Except ε) Unit).run s = .ok (u, t) ↔ ¬ c ∧ s = t := by
  unfold failIf
  split
  next hc =>
    simp only [hc, not_true, false_and, iff_false]
    intro h
    cases h
  next hc => simp [hc, pure, StateT.pure, StateT.run, Except.pure]

theorem run_bind_ok {r : β × σ} :
    (x >>= f).run s = .ok r ↔ ∃ a t, x.run s = .ok (a, t) ∧ (f a).run t = .ok r := by
  rw [StateT.run_bind]
  cases h : x.run s with
  | error e => simp [bind, Except.bind]
  | ok p =>
    obtain ⟨a, t⟩ := p
    simp [bind, Except.bind]

theorem exists_ok_of_map_fst {x : Except ε (α × σ)} {a : α} (h : x.map Prod.fst = .ok a) :
    ∃ t, x = .ok (a, t) := by
  cases x with
  | error e => cases h
  | ok y =>
    cases h
    exact ⟨y.2, rfl⟩

theorem run_bind_of_ok {a : α} (h : x.run s = .ok (a, t)) : (x >>= f).run s = (f a).run t := by
  rw [StateT.run_bind, h]
  rfl

theorem run_get_ok {a : σ} :
    (get : StateT σ (Except ε) σ).run s = .ok (a, t) ↔ s = a ∧ s = t := by
  change Except.ok (s, s) = _ ↔ _
  rw [Except.ok.injEq, Prod.mk.injEq]

@[simp] theorem run_failIf_of_not {c : Prop} [Decidable c] {e : ε} (h : ¬ c) :
    (failIf c e : StateT σ (Except ε) Unit).run s = .ok ((), s) :=
  run_failIf_ok.mpr ⟨h, rfl⟩

@[simp] theorem run_pure_ok {a b : α} :
    (pure a : StateT σ (Except ε) α).run s = .ok (b, t) ↔ a = b ∧ s = t := by
  rw [StateT.run_pure]
  simp [pure, Except.pure]

@[simp] theorem run_orFail_ok {o : Option α} {e : ε} {a : α} :
    (orFail o e : StateT σ (Except ε) α).run s = .ok (a, t) ↔ o = some a ∧ s = t := by
  cases o with
  | none =>
    simp only [reduceCtorEq, false_and, iff_false]
    intro h
    cases h
  | some b =>
    simp only [Option.some.injEq]
    exact run_pure_ok

@[simp] theorem run_map_ok {f : α → β} {b : β} :
    (f <$> x).run s = .ok (b, t) ↔ ∃ a, x.run s = .ok (a, t) ∧ f a = b := by
  rw [map_eq_pure_bind, run_bind_ok]
  constructor
  · rintro ⟨a, u, ha, hb⟩
    cases hb
    exact ⟨a, ha, rfl⟩
  · rintro ⟨a, ha, rfl⟩
    exact ⟨a, t, ha, run_pure_ok.mpr ⟨rfl, rfl⟩⟩

/-- A reader takes a value off the front of a byte string and leaves the rest. -/
abbrev Reader (ε : Type) := StateT Bytes (Except ε)

namespace Reader

variable {ε α β : Type}

variable (e : ε)

/-- The next `n` bytes, failing with `e` when fewer are left. -/
def take (n : ℕ) : Reader ε Bytes := fun bs =>
  if n ≤ bs.length then .ok (bs.take n, bs.drop n) else .error e

/-- `n` values in a row. -/
def replicate (r : Reader ε α) : ℕ → Reader ε (List α)
  | 0 => pure []
  | n + 1 => do
    let a ← r
    let as ← replicate r n
    return a :: as

/-- Reading back what `w` writes for the values of `P`, whatever follows. -/
def RoundTrip (r : Reader ε α) (w : α → Bytes) (P : α → Prop) : Prop :=
  ∀ a, P a → ∀ rest, r.run (w a ++ rest) = .ok (a, rest)

/-- A successful read consumes a prefix of its input and looks at nothing else. Instances follow the
program text. -/
class Local (r : Reader ε α) : Prop where
  of_run : ∀ ⦃bs a rest⦄, r.run bs = .ok (a, rest) →
    ∃ used, bs = used ++ rest ∧ ∀ rest', r.run (used ++ rest') = .ok (a, rest')

theorem take_run_append (bs rest : Bytes) :
    (take e bs.length).run (bs ++ rest) = .ok (bs, rest) := by
  simp [take, StateT.run]

theorem take_run_ok {e : ε} {n : ℕ} {bs a rest : Bytes} :
    (take e n).run bs = .ok (a, rest) ↔ a.length = n ∧ bs = a ++ rest := by
  constructor
  · intro h
    simp only [take, StateT.run] at h
    split at h
    · simp only [Except.ok.injEq, Prod.mk.injEq] at h
      obtain ⟨rfl, rfl⟩ := h
      simpa
    · cases h
  · rintro ⟨rfl, rfl⟩
    exact take_run_append e a rest

namespace Local

instance pure (a : α) : Local (pure a : Reader ε α) := by
  constructor
  intro bs b rest h
  cases h
  exact ⟨[], rfl, fun _ => rfl⟩

instance : Local (throw e : Reader ε α) := by
  constructor
  intro bs a rest h
  cases h

instance {c : Prop} [Decidable c] : Local (failIf c e : Reader ε Unit) := by
  constructor
  intro bs a rest h
  obtain ⟨hc, rfl⟩ := run_failIf_ok.mp h
  exact ⟨[], rfl, fun _ => run_failIf_ok.mpr ⟨hc, rfl⟩⟩

instance (x : Except ε α) : Local (StateT.lift x : Reader ε α) := by
  cases x with
  | error e => exact inferInstanceAs (Local (throw e))
  | ok a => exact pure a

instance (n : ℕ) : Local (take e n) := by
  constructor
  intro bs a rest h
  obtain ⟨hn, rfl⟩ := take_run_ok.mp h
  exact ⟨a, rfl, fun rest' => take_run_ok.mpr ⟨hn, rfl⟩⟩

instance {r r' : Reader ε α} {c : Prop} [Decidable c] [h : Local r] [h' : Local r'] :
    Local (if c then r else r') := by
  split
  · exact h
  · exact h'

instance bind {r : Reader ε α} {f : α → Reader ε β} [h : Local r] [hf : ∀ a, Local (f a)] :
    Local (r >>= f) := by
  constructor
  intro bs b rest hb
  obtain ⟨a, mid, ha, hm⟩ := run_bind_ok.mp hb
  obtain ⟨u, rfl, hu⟩ := h.of_run ha
  obtain ⟨v, rfl, hv⟩ := (hf a).of_run hm
  refine ⟨u ++ v, (List.append_assoc u v rest).symm, fun rest' => ?_⟩
  rw [List.append_assoc]
  exact run_bind_ok.mpr ⟨a, _, hu _, hv rest'⟩

instance (r : Reader ε α) [Local r] (n : ℕ) : Local (replicate r n) := by
  induction n with
  | zero => exact pure []
  | succ n ih => exact bind

end Local

variable {r : Reader ε α}

theorem roundTrip_replicate {w : α → Bytes} {P : α → Prop} (h : RoundTrip r w P) (as : List α)
    (hP : ∀ a ∈ as, P a) (rest : Bytes) :
    (replicate r as.length).run (as.flatMap w ++ rest) = .ok (as, rest) := by
  induction as with
  | nil => rfl
  | cons a as ih =>
    simp only [mem_cons, forall_eq_or_imp] at hP
    simp only [length_cons, replicate, flatMap_cons, append_assoc]
    refine run_bind_ok.mpr ⟨a, _, h a hP.1 _, ?_⟩
    exact run_bind_ok.mpr ⟨as, rest, ih hP.2, rfl⟩

/-- What `w` writes for a value is never longer than what was read of it. -/
def NotLonger (r : Reader ε α) (w : α → Bytes) : Prop :=
  ∀ bs a rest, r.run bs = .ok (a, rest) → (w a).length + rest.length ≤ bs.length

theorem notLonger_replicate {w : α → Bytes} (h : NotLonger r w) (n : ℕ) :
    NotLonger (replicate r n) (flatMap w) := by
  induction n with
  | zero =>
    intro bs as rest hrun
    cases hrun
    simp
  | succ n ih =>
    intro bs as rest hrun
    obtain ⟨a, mid, ha, hrun⟩ := run_bind_ok.mp hrun
    obtain ⟨as, rest', has, hrun⟩ := run_bind_ok.mp hrun
    obtain ⟨rfl, rfl⟩ := run_pure_ok.mp hrun
    have hfirst := h bs a mid ha
    have hothers := ih mid as rest' has
    rw [flatMap_cons, length_append]
    omega

theorem replicate_length {n : ℕ} {bs rest : Bytes} {as : List α}
    (h : (replicate r n).run bs = .ok (as, rest)) : as.length = n := by
  induction n generalizing bs as rest with
  | zero =>
    cases h
    rfl
  | succ n ih =>
    obtain ⟨a, mid, -, h⟩ := run_bind_ok.mp h
    obtain ⟨as, rest', has, h⟩ := run_bind_ok.mp h
    cases h
    rw [length_cons, ih has]

theorem forall_of_replicate {P : α → Prop} (hr : ∀ bs a rest, r.run bs = .ok (a, rest) → P a)
    {n : ℕ} {bs rest : Bytes} {as : List α} (h : (replicate r n).run bs = .ok (as, rest)) :
    ∀ a ∈ as, P a := by
  induction n generalizing bs as rest with
  | zero =>
    cases h
    exact nofun
  | succ n ih =>
    obtain ⟨a, mid, ha, h⟩ := run_bind_ok.mp h
    obtain ⟨as, rest', has, h⟩ := run_bind_ok.mp h
    cases h
    exact forall_mem_cons.mpr ⟨hr bs a mid ha, ih has⟩

theorem RoundTrip.injective {w : α → Bytes} {P : α → Prop} (h : RoundTrip r w P) {a b : α}
    (ha : P a) (hb : P b) (hw : w a = w b) : a = b := by
  have h₁ := h a ha []
  rw [hw, h b hb []] at h₁
  simp only [Except.ok.injEq, Prod.mk.injEq, and_true] at h₁
  exact h₁.symm

end Reader

end Poly.Lib
