import Poly.Lib.Reader

/-! Frame rules: what a successful run of a state-passing program may do to its state. -/
namespace Poly.Lib

variable {σ ε α β : Type} {R : σ → σ → Prop}

/-- Every successful run takes the state to a related one. Instances follow the program text. -/
class Within (R : σ → σ → Prop) (x : StateT σ (Except ε) α) : Prop where
  of_run : ∀ ⦃s a t⦄, x.run s = .ok (a, t) → R s t

namespace Within

theorem mono {R' : σ → σ → Prop} {x : StateT σ (Except ε) α} (h : Within R x)
    (hR : ∀ s t, R s t → R' s t) : Within R' x :=
  ⟨fun s _ t hr => hR s t (h.of_run hr)⟩

theorem modify {f : σ → σ} (h : ∀ s, R s (f s)) :
    Within R (modify f : StateT σ (Except ε) PUnit) := by
  constructor
  intro s a t hr
  cases hr
  exact h s

instance (e : ε) : Within R (throw e : StateT σ (Except ε) α) := by
  constructor
  intro s a t h
  cases h

instance {c : Prop} [Decidable c] {x y : StateT σ (Except ε) α} [hx : Within R x]
    [hy : Within R y] : Within R (if c then x else y) := by
  split
  · exact hx
  · exact hy

instance {x : StateT σ (Except ε) α} {f : α → β} [hx : Within R x] : Within R (f <$> x) := by
  constructor
  intro s b t h
  obtain ⟨a, ha, -⟩ := run_map_ok.mp h
  exact hx.of_run ha

variable [IsPreorder σ R]

instance pure (a : α) : Within R (pure a : StateT σ (Except ε) α) := by
  constructor
  intro s b t h
  cases h
  exact refl_of R s

instance bind {x : StateT σ (Except ε) α} {f : α → StateT σ (Except ε) β} [hx : Within R x]
    [hf : ∀ a, Within R (f a)] : Within R (x >>= f) := by
  constructor
  intro s b t h
  obtain ⟨a, u, ha, hb⟩ := run_bind_ok.mp h
  exact trans_of R (hx.of_run ha) ((hf a).of_run hb)

theorem bind_option {x : StateT σ (Except ε) (Option α)} {f : Option α → StateT σ (Except ε) β}
    [Within R x] [hnone : Within R (f none)] [hsome : ∀ a, Within R (f (some a))] :
    Within R (x >>= f) := by
  have hf (o : Option α) : Within R (f o) := by cases o <;> infer_instance
  exact bind

instance : Within R (get : StateT σ (Except ε) σ) := by
  constructor
  intro s a t h
  cases h
  exact refl_of R s

instance {c : Prop} [Decidable c] (e : ε) : Within R (failIf c e : StateT σ (Except ε) Unit) := by
  unfold failIf
  infer_instance

instance (o : Option α) (e : ε) : Within R (orFail o e : StateT σ (Except ε) α) := by
  cases o with
  | none => exact inferInstanceAs (Within R (throw e))
  | some a => exact pure a

instance (r : Except ε α) : Within R (StateT.lift r : StateT σ (Except ε) α) := by
  cases r with
  | error e => exact inferInstanceAs (Within R (throw e))
  | ok a => exact pure a

instance {l : List β} {f : α → β → StateT σ (Except ε) α} [h : ∀ a b, Within R (f a b)] (a : α) :
    Within R (l.foldlM f a) := by
  induction l generalizing a with
  | nil => exact pure a
  | cons b l ih => exact bind

end Within

/-- Every run returns. -/
def Succeeds (x : StateT σ (Except ε) α) : Prop := ∀ s, ∃ a t, x.run s = .ok (a, t)

namespace Succeeds

theorem pure (a : α) : Succeeds (pure a : StateT σ (Except ε) α) :=
  fun s => ⟨a, s, rfl⟩

theorem get : Succeeds (get : StateT σ (Except ε) σ) :=
  fun s => ⟨s, s, rfl⟩

theorem modify (f : σ → σ) : Succeeds (modify f : StateT σ (Except ε) PUnit) :=
  fun s => ⟨⟨⟩, f s, rfl⟩

theorem lift {r : Except ε α} {a : α} (h : r = .ok a) :
    Succeeds (StateT.lift r : StateT σ (Except ε) α) := by
  intro s
  subst h
  exact ⟨a, s, rfl⟩

theorem bind {x : StateT σ (Except ε) α} {f : α → StateT σ (Except ε) β} (hx : Succeeds x)
    (hf : ∀ a, Succeeds (f a)) : Succeeds (x >>= f) := by
  intro s
  obtain ⟨a, t, ha⟩ := hx s
  obtain ⟨b, u, hb⟩ := hf a t
  exact ⟨b, u, run_bind_ok.mpr ⟨a, t, ha, hb⟩⟩

theorem foldlM {l : List β} {f : α → β → StateT σ (Except ε) α}
    (h : ∀ a, ∀ b ∈ l, Succeeds (f a b)) (a : α) : Succeeds (l.foldlM f a) := by
  induction l generalizing a with
  | nil => exact pure a
  | cons b l ih =>
    exact bind (h a b List.mem_cons_self) fun c =>
      ih (fun a c hc => h a c (List.mem_cons_of_mem _ hc)) c

end Succeeds

end Poly.Lib
