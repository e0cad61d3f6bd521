import Poly.Lib.Within

/-! Programs that consult an oracle for checks only: a check that fails ends the run with an error
of a given kind, and one that holds leaves no trace. -/
namespace Poly.Lib

variable {Ω γ σ ε α β : Type} {holds : γ → Ω → Prop} {Refused : ε → Prop}

/-- The result is an error of the given kind. -/
def IsRefused (Refused : ε → Prop) (r : Except ε α) : Prop := ∃ e, Refused e ∧ r = .error e

/-- A program over an oracle together with the checks that it makes of it. -/
structure Checked (holds : γ → Ω → Prop) (Refused : ε → Prop)
    (x : Ω → StateT σ (Except ε) α) where
  /-- The checks of the run in which all of them hold. -/
  checks : σ → List γ
  /-- The program in which all checks hold. -/
  passed : StateT σ (Except ε) α
  run_passed : ∀ {ω s}, (∀ c ∈ checks s, holds c ω) → (x ω).run s = passed.run s
  run_refused : ∀ {ω s}, (¬ ∀ c ∈ checks s, holds c ω) → IsRefused Refused ((x ω).run s)

namespace Checked

section Rules

variable {x : Ω → StateT σ (Except ε) α}

/-- A program that does not consult the oracle. -/
def const (x : StateT σ (Except ε) α) : Checked holds Refused (fun _ => x) where
  checks _ := []
  passed := x
  run_passed _ := rfl
  run_refused h := absurd (List.forall_mem_nil _) h

/-- A single check. -/
def check (c : γ) {p : Ω → Prop} [∀ ω, Decidable (p ω)] {e : Ω → ε}
    (hp : ∀ ω, p ω ↔ ¬ holds c ω) (he : ∀ ω, Refused (e ω)) :
    Checked holds Refused (fun ω => (failIf (p ω) (e ω) : StateT σ (Except ε) Unit)) where
  checks _ := [c]
  passed := pure ()
  run_passed {ω s} h := by
    have hc : ¬ p ω := fun h' => (hp ω).mp h' (h c List.mem_cons_self)
    exact run_failIf_ok.mpr ⟨hc, rfl⟩
  run_refused {ω s} h := by
    have hc : p ω := (hp ω).mpr fun h' => h (List.forall_mem_singleton.mpr h')
    refine ⟨e ω, he ω, ?_⟩
    rw [failIf, if_pos hc]
    rfl

/-- The checks of a second program that runs after a first. -/
def checksAfter (r : Except ε (α × σ)) (next : α → σ → List γ) : List γ :=
  match r with
  | .ok (a, t) => next a t
  | .error _ => []

/-- One program after the other: the checks of the second are those of its run on what the first
one leaves. -/
def bind (h : Checked holds Refused x) {f : Ω → α → StateT σ (Except ε) β}
    (hf : ∀ a, Checked holds Refused fun ω => f ω a) :
    Checked holds Refused (fun ω => x ω >>= f ω) where
  checks s := h.checks s ++ checksAfter (h.passed.run s) fun a => (hf a).checks
  passed := h.passed >>= fun a => (hf a).passed
  run_passed {ω s} hall := by
    obtain ⟨hx, hrest⟩ := List.forall_mem_append.mp hall
    rw [StateT.run_bind, StateT.run_bind, h.run_passed hx]
    cases hr : h.passed.run s with
    | error e => rfl
    | ok p =>
      rw [hr] at hrest
      exact (hf p.1).run_passed hrest
  run_refused {ω s} hall := by
    by_cases hx : ∀ c ∈ h.checks s, holds c ω
    · have hrest : ¬ ∀ c ∈ checksAfter (h.passed.run s) fun a => (hf a).checks, holds c ω :=
        fun hrest => hall (List.forall_mem_append.mpr ⟨hx, hrest⟩)
      rw [StateT.run_bind, h.run_passed hx]
      cases hr : h.passed.run s with
      | error e =>
        rw [hr] at hrest
        exact absurd (List.forall_mem_nil _) hrest
      | ok p =>
        rw [hr] at hrest
        exact (hf p.1).run_refused hrest
    · obtain ⟨e, he, hr⟩ := h.run_refused hx
      refine ⟨e, he, ?_⟩
      rw [StateT.run_bind, hr]
      rfl

def ite {p : Prop} [Decidable p] {y : Ω → StateT σ (Except ε) α} (hx : Checked holds Refused x)
    (hy : Checked holds Refused y) : Checked holds Refused (fun ω => if p then x ω else y ω) where
  checks s := if p then hx.checks s else hy.checks s
  passed := if p then hx.passed else hy.passed
  run_passed h := by
    split_ifs at h with hp
    · rw [if_pos hp, if_pos hp]
      exact hx.run_passed h
    · rw [if_neg hp, if_neg hp]
      exact hy.run_passed h
  run_refused h := by
    split_ifs at h with hp
    · rw [if_pos hp]
      exact hx.run_refused h
    · rw [if_neg hp]
      exact hy.run_refused h

/-- What turns results into results and keeps the kind of an error can be put around a program. -/
def wrap {g : Except ε (α × σ) → Except ε (β × σ)}
    (hg : ∀ e, Refused e → ∃ e', Refused e' ∧ g (.error e) = .error e')
    (h : Checked holds Refused x) :
    Checked holds Refused (fun ω => ((fun s => g ((x ω).run s)) : StateT σ (Except ε) β)) where
  checks := h.checks
  passed := fun s => g (h.passed.run s)
  run_passed hall := congrArg g (h.run_passed hall)
  run_refused hall := by
    obtain ⟨e, he, hr⟩ := h.run_refused hall
    obtain ⟨e', he', hge⟩ := hg e he
    exact ⟨e', he', (congrArg g hr).trans hge⟩

def congr {y : Ω → StateT σ (Except ε) α} (h : Checked holds Refused x) (hxy : ∀ ω, y ω = x ω) :
    Checked holds Refused y where
  checks := h.checks
  passed := h.passed
  run_passed {ω _} hall := hxy ω ▸ h.run_passed hall
  run_refused {ω _} hall := hxy ω ▸ h.run_refused hall

end Rules

variable {x : Ω → StateT σ (Except ε) α} {ω₁ ω₂ : Ω} {s : σ}

/-- The run in which all checks hold is refused anyway, or all checks hold of both oracles or of
neither. -/
def Agrees (h : Checked holds Refused x) (ω₁ ω₂ : Ω) (s : σ) : Prop :=
  IsRefused Refused (h.passed.run s) ∨
    ((∀ c ∈ h.checks s, holds c ω₁) ↔ ∀ c ∈ h.checks s, holds c ω₂)

/-- Where the run with all checks holding is refused, every run is. -/
theorem isRefused_of_passed (h : Checked holds Refused x)
    (hp : IsRefused Refused (h.passed.run s)) (ω : Ω) : IsRefused Refused ((x ω).run s) := by
  by_cases hall : ∀ c ∈ h.checks s, holds c ω
  · rw [h.run_passed hall]
    exact hp
  · exact h.run_refused hall

/-- Oracles that the checks do not tell apart give one result, or errors of the given kind both. -/
theorem Agrees.run_eq_or {h : Checked holds Refused x} (ha : h.Agrees ω₁ ω₂ s) :
    (x ω₁).run s = (x ω₂).run s ∨
      IsRefused Refused ((x ω₁).run s) ∧ IsRefused Refused ((x ω₂).run s) := by
  rcases ha with hp | hiff
  · exact .inr ⟨h.isRefused_of_passed hp ω₁, h.isRefused_of_passed hp ω₂⟩
  · by_cases hall : ∀ c ∈ h.checks s, holds c ω₁
    · exact .inl ((h.run_passed hall).trans (h.run_passed (hiff.mp hall)).symm)
    · exact .inr ⟨h.run_refused hall, h.run_refused fun h₂ => hall (hiff.mpr h₂)⟩

/-- Oracles of which both runs are refused or neither is are not told apart by the checks, unless
the run with all checks holding is refused. -/
theorem agrees_of_isRefused_iff (h : Checked holds Refused x)
    (hiff : IsRefused Refused ((x ω₁).run s) ↔ IsRefused Refused ((x ω₂).run s)) :
    h.Agrees ω₁ ω₂ s := by
  by_cases h₁ : ∀ c ∈ h.checks s, holds c ω₁
  · by_cases h₂ : ∀ c ∈ h.checks s, holds c ω₂
    · exact .inr ⟨fun _ => h₂, fun _ => h₁⟩
    · exact .inl (h.run_passed h₁ ▸ hiff.mpr (h.run_refused h₂))
  · by_cases h₂ : ∀ c ∈ h.checks s, holds c ω₂
    · exact .inl (h.run_passed h₂ ▸ hiff.mp (h.run_refused h₁))
    · exact .inr ⟨fun h => absurd h h₁, fun h => absurd h h₂⟩

end Checked

end Poly.Lib
