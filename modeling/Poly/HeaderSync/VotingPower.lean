import Poly.HeaderSync.Heimdall

/-! Voting powers of a validator set and the loop that counts those of the signers. -/
namespace Poly.HeaderSync

open Lib Native List Int64

section Powers

variable {K : Type}

theorem toInt_MaxTotalVotingPower : MaxTotalVotingPower.toInt = 2 ^ 60 - 1 := by decide

theorem toInt_add_of_lt {a b : Int64} (h : -2 ^ 63 ≤ a.toInt + b.toInt)
    (h' : a.toInt + b.toInt < 2 ^ 63) : (a + b).toInt = a.toInt + b.toInt := by
  rw [toInt_add]
  exact Int.bmod_eq_of_le (by omega) (by omega)

/-- A voting power that `processChanges` lets into a set. -/
def Allowed (v : Validator K) : Prop :=
  0 < v.votingPower.toInt ∧ v.votingPower.toInt ≤ MaxTotalVotingPower.toInt

theorem processChange_ok {acc acc' : ChangeSet K} {v} (h : processChange acc v = .ok acc') :
    (acc'.removals = acc.removals ++ [v]) ∨
      (acc'.removals = acc.removals ∧ acc'.updates = acc.updates ++ [v] ∧ Allowed v) := by
  obtain ⟨_, -, h⟩ := bind_ok.mp h
  obtain ⟨_, hneg, h⟩ := bind_ok.mp h
  obtain ⟨_, hmax, h⟩ := bind_ok.mp h
  split at h
  · cases h
    exact .inl rfl
  next hzero =>
    cases h
    have hneg := lt_iff_toInt_lt.not.mp (failIf_ok.mp hneg)
    have hmax := lt_iff_toInt_lt.not.mp (failIf_ok.mp hmax)
    have hzero := toInt_inj.not.mpr hzero
    rw [toInt_zero] at hneg hzero
    exact .inr ⟨rfl, rfl, by omega, by omega⟩

theorem processChanges_ok {l : List (Validator K)} {acc acc'}
    (h : l.foldlM processChange acc = .ok acc') (hr : acc'.removals = []) :
    acc'.updates = acc.updates ++ l ∧ ∀ v ∈ l, Allowed v := by
  induction l generalizing acc with
  | nil =>
    cases h
    exact ⟨(append_nil _).symm, nofun⟩
  | cons v l ih =>
    obtain ⟨acc₁, hstep, hrest⟩ := bind_ok.mp h
    rcases processChange_ok hstep with hrem | ⟨-, hup, hv⟩
    · -- a removal stays to the end of the loop
      have hkeep : acc'.removals ≠ [] := by
        refine foldlM_invariant (P := fun b => b.removals ≠ []) (fun b a _ b' hb hs => ?_) ?_ hrest
        · rcases processChange_ok hs with h | ⟨h, -⟩ <;> rw [h]
          · exact append_ne_nil_of_right_ne_nil _ (cons_ne_nil _ _)
          · exact hb
        · rw [hrem]
          exact append_ne_nil_of_right_ne_nil _ (cons_ne_nil _ _)
      exact absurd hr hkeep
    · obtain ⟨hupd, hall⟩ := ih hrest
      refine ⟨?_, forall_mem_cons.mpr ⟨hv, hall⟩⟩
      rw [hupd, hup, append_assoc, singleton_append]

theorem mapM_orFail_ok {α : Type} {l : List (Option α)} {e as}
    (h : (l.mapM fun v => (orFail v e : Result α)) = .ok as) : l = as.map some := by
  have hall := mapM_ok.mp h
  simp only [orFail_ok] at hall
  rwa [← forall₂_map_right_iff (R := Eq), forall₂_eq_eq_eq] at hall

theorem orPanic_ok {α : Type} {context x} {a : α} : orPanic context x = .ok a ↔ x = .ok a := by
  match x with
  | .ok _ => rfl
  | .error (.error _) => simp [orPanic]
  | .error (.panic _) => simp [orPanic]

variable {vals : List (Validator K)}

/-- A new set is the sorted list of the given validators, in which `processChanges` finds nothing to
remove. -/
theorem newValidatorSet_sorted {valz} (h : newValidatorSet valz = .ok vals) : ∃ copies acc,
    valz = List.map some copies ∧ vals = insertionSort (fun a b => a.address ≤ b.address) copies ∧
      vals.foldlM processChange ⟨[], [], []⟩ = .ok acc ∧ acc.removals = [] := by
  obtain ⟨copies, hcopies, hset⟩ := bind_ok.mp h
  cases mapM_orFail_ok hcopies
  have hupdate := orPanic_ok.mp hset
  unfold updateWithChangeSet at hupdate
  split at hupdate
  next hnil =>
    cases hupdate
    exact ⟨copies, ⟨[], [], []⟩, rfl, by rw [hnil]; rfl, rfl, rfl⟩
  · obtain ⟨acc, hacc, hupdate⟩ := bind_ok.mp hupdate
    obtain ⟨_, hrem, hupdate⟩ := bind_ok.mp hupdate
    obtain ⟨_, -, hupdate⟩ := bind_ok.mp hupdate
    cases hupdate
    have hnone := length_eq_zero_iff.mp (not_not.mp (failIf_ok.mp hrem))
    obtain ⟨hupd, -⟩ := processChanges_ok hacc hnone
    exact ⟨copies, acc, rfl, hupd, by rwa [hupd], hnone⟩

/-- A new set has the given validators in another order, with powers in the allowed range. -/
theorem newValidatorSet_ok {valz} (h : newValidatorSet valz = .ok vals) :
    (vals.map some).Perm valz ∧ ∀ v ∈ vals, Allowed v := by
  obtain ⟨copies, acc, rfl, rfl, hacc, hrem⟩ := newValidatorSet_sorted h
  exact ⟨(perm_insertionSort _ copies).map some, (processChanges_ok hacc hrem).2⟩

/-- The voting powers of all members. -/
def powerSum (vals : List (Validator K)) : ℤ := (vals.map fun v => v.votingPower.toInt).sum

theorem powerSum_nonneg (h : ∀ v ∈ vals, Allowed v) : 0 ≤ powerSum vals := by
  apply sum_nonneg
  intro x hx
  obtain ⟨v, hv, rfl⟩ := mem_map.mp hx
  exact (h v hv).1.le

theorem addVotingPower_ok {sum sum' : Int64} {v : Validator K} (hv : Allowed v)
    (hsum : 0 ≤ sum.toInt) (hmax : sum.toInt ≤ MaxTotalVotingPower.toInt)
    (h : addVotingPower sum v = .ok sum') :
    sum'.toInt = sum.toInt + v.votingPower.toInt ∧ sum'.toInt ≤ MaxTotalVotingPower.toInt := by
  obtain ⟨_, hle, h⟩ := bind_ok.mp h
  cases h
  have hle := lt_iff_toInt_lt.not.mp (failIf_ok.mp hle)
  rw [toInt_MaxTotalVotingPower] at *
  obtain ⟨hpos, hv⟩ := hv
  rw [toInt_MaxTotalVotingPower] at hv
  have hadd : (sum + v.votingPower).toInt = sum.toInt + v.votingPower.toInt :=
    toInt_add_of_lt (by omega) (by omega)
  have hclip : safeAddClip sum v.votingPower = sum + v.votingPower := by
    have hsub : (Int64.maxValue - v.votingPower).toInt = 2 ^ 63 - 1 - v.votingPower.toInt := by
      rw [toInt_sub, toInt_maxValue]
      exact Int.bmod_eq_of_le (by omega) (by omega)
    unfold safeAddClip
    rw [if_neg, if_neg]
    · rw [lt_iff_toInt_lt, toInt_zero]
      omega
    · rw [gt_iff_lt, gt_iff_lt, lt_iff_toInt_lt, lt_iff_toInt_lt]
      omega
  rw [hclip] at hle ⊢
  exact ⟨hadd, by omega⟩

theorem totalVotingPower_ok {total : Int64} (hall : ∀ v ∈ vals, Allowed v)
    (h : totalVotingPower vals = .ok total) :
    total.toInt = powerSum vals ∧ powerSum vals ≤ MaxTotalVotingPower.toInt := by
  have hfold : ∀ (vals : List (Validator K)) (sum : Int64), (∀ v ∈ vals, Allowed v) →
      0 ≤ sum.toInt → sum.toInt ≤ MaxTotalVotingPower.toInt →
      vals.foldlM addVotingPower sum = .ok total →
      total.toInt = sum.toInt + powerSum vals ∧ total.toInt ≤ MaxTotalVotingPower.toInt := by
    intro vals
    induction vals with
    | nil =>
      intro sum _ _ hmax h
      cases h
      exact ⟨(add_zero _).symm, hmax⟩
    | cons v vals ih =>
      intro sum hall hsum hmax h
      obtain ⟨hv, hall⟩ := forall_mem_cons.mp hall
      obtain ⟨sum₁, hstep, hrest⟩ := bind_ok.mp h
      obtain ⟨hadd, hmax₁⟩ := addVotingPower_ok hv hsum hmax hstep
      have hpos := hv.1
      obtain ⟨heq, hle⟩ := ih sum₁ hall (by omega) hmax₁ hrest
      refine ⟨?_, hle⟩
      rw [heq, hadd, powerSum, powerSum, map_cons, sum_cons]
      ring
  obtain ⟨heq, hle⟩ := hfold vals 0 hall (by decide) (by decide) h
  rw [toInt_zero, zero_add] at heq
  exact ⟨heq, heq ▸ hle⟩

/-- The voting power of the validator at an index. -/
def powerAt (vals : List (Validator K)) (i : ℕ) : ℤ :=
  (vals.map fun v => v.votingPower.toInt).getD i 0

theorem powerAt_eq {i v} (h : vals[i]? = some v) : powerAt vals i = v.votingPower.toInt := by
  simp [powerAt, h]

theorem powerAt_nonneg (h : ∀ v ∈ vals, Allowed v) (i : ℕ) : 0 ≤ powerAt vals i := by
  cases hi : vals[i]? with
  | none => simp [powerAt, hi]
  | some v =>
    rw [powerAt_eq hi]
    exact (h v (mem_of_getElem? hi)).1.le

theorem sum_powerAt (vals : List (Validator K)) :
    ∑ i ∈ Finset.range vals.length, powerAt vals i = powerSum vals := by
  induction vals with
  | nil => rfl
  | cons v vals ih =>
    rw [length_cons, Finset.sum_range_succ', powerSum, map_cons, add_comm]
    exact congrArg (v.votingPower.toInt + ·) ih

open Classical in
/-- The validators with a property have more than two thirds of the voting power, each counted
once. -/
def TwoThirds (vals : List (Validator K)) (P : ℕ → Prop) : Prop :=
  2 * powerSum vals < 3 * ∑ i ∈ (Finset.range vals.length).filter P, powerAt vals i

theorem TwoThirds.mono {P Q : ℕ → Prop} (hall : ∀ v ∈ vals, Allowed v) (h : TwoThirds vals P)
    (hPQ : ∀ i < vals.length, P i → Q i) : TwoThirds vals Q := by
  classical
  have hle : ∑ i ∈ (Finset.range vals.length).filter P, powerAt vals i ≤
      ∑ i ∈ (Finset.range vals.length).filter Q, powerAt vals i := by
    apply Finset.sum_le_sum_of_subset_of_nonneg
    · intro i hi
      obtain ⟨hlt, hp⟩ := Finset.mem_filter.mp hi
      exact Finset.mem_filter.mpr ⟨hlt, hPQ i (Finset.mem_range.mp hlt) hp⟩
    · exact fun i _ _ => powerAt_nonneg hall i
  unfold TwoThirds at h ⊢
  linarith

end Powers

variable {K : Type} {vals : List (Validator K)}

open Classical in
/-- The power of the validators that are counted, of those before an index. -/
noncomputable def countedPower (vals : List (Validator K)) (Counted : ℕ → Prop) (k : ℕ) : ℤ :=
  ∑ i ∈ (Finset.range k).filter Counted, powerAt vals i

open Classical in
theorem countedPower_succ (vals : List (Validator K)) (Counted : ℕ → Prop) (k : ℕ) :
    countedPower vals Counted (k + 1) =
      countedPower vals Counted k + if Counted k then powerAt vals k else 0 := by
  unfold countedPower
  rw [Finset.sum_filter, Finset.sum_filter, Finset.sum_range_succ]

theorem countedPower_bounds (Counted : ℕ → Prop) (hall : ∀ v ∈ vals, Allowed v) {k : ℕ}
    (hk : k ≤ vals.length) :
    0 ≤ countedPower vals Counted k ∧ countedPower vals Counted k ≤ powerSum vals := by
  classical
  constructor
  · exact Finset.sum_nonneg fun i _ => powerAt_nonneg hall i
  · rw [← sum_powerAt]
    apply Finset.sum_le_sum_of_subset_of_nonneg
    · exact (Finset.filter_subset _ _).trans (Finset.range_mono hk)
    · exact fun i _ _ => powerAt_nonneg hall i

/-- A loop that adds the power of the validator at each counted index has the sum of these powers
at its end: the allowed powers do not overflow. -/
theorem tally_counted {α : Type} {Counted : ℕ → Prop} {step : Int64 → α → Result Int64}
    {l : List α} (hall : ∀ v ∈ vals, Allowed v)
    (hmax : powerSum vals ≤ MaxTotalVotingPower.toInt) (hlen : vals.length = l.length)
    (hstep : ∀ k x acc acc', l[k]? = some x → step acc x = .ok acc' →
      (¬ Counted k ∧ acc' = acc) ∨
        (Counted k ∧ ∃ val, vals[k]? = some val ∧ acc' = acc + val.votingPower))
    {tallied : Int64} (h : l.foldlM step 0 = .ok tallied) :
    tallied.toInt = countedPower vals Counted vals.length := by
  -- induction on what is left of the list, with the sum so far
  have hfold : ∀ (rest : List α) (k : ℕ) (acc : Int64), l.drop k = rest → k ≤ vals.length →
      acc.toInt = countedPower vals Counted k → rest.foldlM step acc = .ok tallied →
      tallied.toInt = countedPower vals Counted vals.length := by
    intro rest
    induction rest with
    | nil =>
      intro k acc hdrop hk hacc h
      cases h
      have hge := drop_eq_nil_iff.mp hdrop
      obtain rfl : k = vals.length := by omega
      exact hacc
    | cons x rest ih =>
      intro k acc hdrop hk hacc h
      have hx : l[k]? = some x := by
        rw [← head?_drop, hdrop, head?_cons]
      have hlt : k < vals.length := by
        rw [hlen]
        exact (List.getElem?_eq_some_iff.mp hx).1
      have htail : l.drop (k + 1) = rest := by
        rw [← tail_drop, hdrop, tail_cons]
      obtain ⟨acc₁, hone, hrest⟩ := bind_ok.mp h
      refine ih (k + 1) acc₁ htail hlt ?_ hrest
      have hbound := countedPower_bounds Counted hall (Nat.succ_le_of_lt hlt)
      rw [countedPower_succ] at hbound ⊢
      rw [toInt_MaxTotalVotingPower] at hmax
      rcases hstep k x acc acc₁ hx hone with ⟨hnot, rfl⟩ | ⟨hcounted, val, hval, rfl⟩
      · rw [if_neg hnot, hacc, add_zero]
      · have hpower := powerAt_eq hval
        rw [if_pos hcounted] at hbound ⊢
        rw [toInt_add_of_lt (by omega) (by omega), hacc, hpower]
  apply hfold l 0 0 drop_zero (Nat.zero_le _) _ h
  rfl

theorem twoThirds_lt {tallied total : Int64} (hnonneg : 0 ≤ total.toInt)
    (hmax : total.toInt ≤ MaxTotalVotingPower.toInt) (h : ¬ tallied ≤ total * 2 / 3) :
    2 * total.toInt < 3 * tallied.toInt := by
  rw [toInt_MaxTotalVotingPower] at hmax
  have hmul : (total * 2).toInt = total.toInt * 2 := by
    rw [toInt_mul]
    exact Int.bmod_eq_of_le (by rw [show (2 : Int64).toInt = 2 from rfl]; omega)
      (by rw [show (2 : Int64).toInt = 2 from rfl]; omega)
  have hdiv : (total * 2 / 3).toInt = total.toInt * 2 / 3 := by
    rw [toInt_div, hmul, show (3 : Int64).toInt = 3 from rfl,
      Int.tdiv_eq_ediv_of_nonneg (by omega)]
    exact Int.bmod_eq_of_le (by omega) (by omega)
  have hlt := le_iff_toInt_le.not.mp h
  omega

end Poly.HeaderSync
