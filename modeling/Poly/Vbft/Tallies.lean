import Poly.Vbft.Server

/-! What the counts of a candidate's signatures say: when its endorsement is given up. -/
namespace Poly.Vbft

open Lib List

section Failed

variable {K : Keys}

/-- The proposers that the signatures of a candidate endorse, once for each signature. -/
def CandidateInfo.endorsed (candidate : CandidateInfo K) : List UInt32 :=
  (candidate.endorseSigs.entries.flatMap Prod.snd).map CandidateEndorseSigInfo.endorsedProposer

/-- No signature is for an empty block, and the counts fit their types. -/
structure Fits (candidate : CandidateInfo K) : Prop where
  no_empty : ∀ x ∈ candidate.endorseSigs.entries, ∀ e ∈ x.2, e.forEmpty = false
  endorsers : candidate.endorseSigs.size < 2 ^ 32
  endorsements : candidate.endorsed.length < 2 ^ 32

/-- `n` endorsers have endorsed these, and that is a failure. -/
def GivenUp (endorsed : List UInt32) (c n : ℕ) : Prop :=
  (c + 1) % 2 ^ 32 ≤ n ∧ (∀ p ∈ endorsed, endorsed.count p ≤ (c + 1) % 2 ^ 32) ∧
    ((c + 1) % 2 ^ 32 < endorsed.dedup.length ∨
      ∀ p ∈ endorsed, (endorsed.count p + (2 ^ 32 - n + (2 * c + 1)) % 2 ^ 32) % 2 ^ 32 ≤ c)

variable {pool : BlockPool K} {blkNum c : UInt32} {candidate : CandidateInfo K}

theorem endorseFailed_iff (hget : pool.get blkNum = some candidate)
    (h : Fits candidate) : pool.endorseFailed blkNum c = true ↔
      GivenUp candidate.endorsed c.toNat candidate.endorseSigs.size := by
  have hsigs : ∀ e ∈ candidate.endorseSigs.entries.flatMap Prod.snd, e.forEmpty = false := by
    intro e he
    obtain ⟨x, hx, he⟩ := mem_flatMap.mp he
    exact h.no_empty x hx e he
  have hall : (candidate.endorseSigs.entries.flatMap Prod.snd).filter (fun e => !e.forEmpty) =
      candidate.endorseSigs.entries.flatMap Prod.snd :=
    filter_eq_self.mpr fun e he => by rw [hsigs e he]; rfl
  have hnone : (candidate.endorseSigs.entries.flatMap Prod.snd).countP (fun e => e.forEmpty) = 0 :=
    countP_eq_zero.mpr fun e he => by rw [hsigs e he]; exact Bool.false_ne_true
  unfold BlockPool.endorseFailed GivenUp
  rw [hget]
  dsimp only
  rw [hall, hnone, ← CandidateInfo.endorsed]
  obtain ⟨-, hsize, hlen⟩ := h
  generalize candidate.endorseSigs.size = n at *
  generalize candidate.endorsed = endorsed at *
  have hn : (UInt32.ofNat n).toNat = n := UInt32.toNat_ofNat_of_lt' hsize
  have hcount (p : UInt32) : (UInt32.ofNat (endorsed.count p)).toNat = endorsed.count p :=
    UInt32.toNat_ofNat_of_lt' (count_le_length.trans_lt hlen)
  have hkinds : (UInt32.ofNat endorsed.dedup.length).toNat = endorsed.dedup.length :=
    UInt32.toNat_ofNat_of_lt' ((dedup_sublist _).length_le.trans_lt hlen)
  have hleft : (2 * c + 1 - UInt32.ofNat n).toNat = (2 ^ 32 - n + (2 * c.toNat + 1)) % 2 ^ 32 := by
    rw [UInt32.toNat_sub, UInt32.toNat_add, hn]
    simp
  have hany (P : UInt32 → Bool) :
      (endorsed.dedup.map fun p => UInt32.ofNat (endorsed.count p)).any P = true ↔
        ∃ p ∈ endorsed, P (UInt32.ofNat (endorsed.count p)) = true := by
    simp
  have hnext : (c + 1).toNat = (c.toNat + 1) % 2 ^ 32 := UInt32.toNat_add c 1
  simp only [length_map, hany, decide_eq_true_eq, UInt32.lt_iff_toNat_lt, gt_iff_lt, hn, hkinds,
    hnext, hcount]
  split_ifs with hfew hmany hmore hzero
  · exact iff_of_false not_false fun h => absurd h.1 (by omega)
  · obtain ⟨p, hp, hlt⟩ := hmany
    exact iff_of_false not_false fun h => absurd (h.2.1 p hp) (by omega)
  · exact iff_of_true rfl ⟨by omega, fun p hp => not_lt.mp fun hlt => hmany ⟨p, hp, hlt⟩, .inl hmore⟩
  · exact absurd hzero (Nat.not_lt_zero _)
  · rw [Bool.not_eq_true', ← Bool.not_eq_true, hany]
    simp only [decide_eq_true_eq, UInt32.toNat_add, hleft, hcount]
    constructor
    · intro hnone
      exact ⟨by omega, fun p hp => not_lt.mp fun hlt => hmany ⟨p, hp, hlt⟩,
        .inr fun p hp => not_lt.mp fun hlt => hnone ⟨p, hp, hlt⟩⟩
    · rintro ⟨-, -, hover | hall⟩ ⟨p, hp, hlt⟩
      · exact hmore hover
      · exact absurd hlt (not_lt.mpr (hall p hp))

/-- A proposer has enough or can still get it, but too many proposers are endorsed, or each sum with
the endorsers to come runs over: more than `2 * c + 1` are recorded, or `c` is above the range. -/
def Misjudged (endorsed : List UInt32) (c n : ℕ) : Prop :=
  (c + 1) % 2 ^ 32 ≤ n ∧ (∀ p ∈ endorsed, endorsed.count p ≤ (c + 1) % 2 ^ 32) ∧
    (∃ p, c < endorsed.count p + (2 * c + 1 - n)) ∧
    ((c + 1) % 2 ^ 32 < endorsed.dedup.length ∨ ∀ p ∈ endorsed,
      if 2 * c + 1 < n then n ≤ endorsed.count p + (2 * c + 1)
      else c < endorsed.count p + (2 * c + 1 - n) → 2 ^ 32 ≤ endorsed.count p + (2 * c + 1 - n))

/-- The sum with the endorsers to come stays low. -/
theorem sum_le_iff {k c n : ℕ} (hn : n < 2 ^ 32) (hc : c < 2 ^ 32) (hle : (c + 1) % 2 ^ 32 ≤ n)
    (hpos : 0 < k) (hk : k ≤ (c + 1) % 2 ^ 32) :
    (k + (2 ^ 32 - n + (2 * c + 1)) % 2 ^ 32) % 2 ^ 32 ≤ c ↔
      if 2 * c + 1 < n then n ≤ k + (2 * c + 1)
      else c < k + (2 * c + 1 - n) → 2 ^ 32 ≤ k + (2 * c + 1 - n) := by
  split_ifs with hlate <;> omega

theorem endorseFailed_hopeless_iff (hget : pool.get blkNum = some candidate)
    (h : Fits candidate) :
    (pool.endorseFailed blkNum c = true → ∀ p, candidate.endorsed.count p +
        (2 * c.toNat + 1 - candidate.endorseSigs.size) ≤ c.toNat) ↔
      ¬ Misjudged candidate.endorsed c.toNat candidate.endorseSigs.size := by
  rw [endorseFailed_iff hget h]
  have hsum (hle : (c.toNat + 1) % 2 ^ 32 ≤ candidate.endorseSigs.size)
      (hall : ∀ p ∈ candidate.endorsed, candidate.endorsed.count p ≤ (c.toNat + 1) % 2 ^ 32)
      (p : UInt32) (hp : p ∈ candidate.endorsed) :=
    sum_le_iff h.endorsers c.toNat_lt hle (count_pos_iff.mpr hp) (hall p hp)
  constructor
  · rintro hopeless ⟨hle, hall, ⟨p, hp⟩, hor⟩
    have hfailed := hor.imp_right fun hover q hq => (hsum hle hall q hq).mpr (hover q hq)
    exact absurd (hopeless ⟨hle, hall, hfailed⟩ p) (not_le.mpr hp)
  · rintro hjudged ⟨hle, hall, hor⟩ p
    by_contra hreach
    exact hjudged ⟨hle, hall, ⟨p, not_le.mp hreach⟩,
      hor.imp_right fun hlow q hq => (hsum hle hall q hq).mp (hlow q hq)⟩

/-- The endorsers 1 and 2, one for each proposer of a list, and endorser 3 for the others. -/
def splitCandidate (first second : UInt32) (others : List UInt32) : CandidateInfo echoKeys :=
  { CandidateInfo.new with
    endorseSigs := ((OrderedMap.empty.insert 1 [⟨first, [], false⟩]).insert 2
      [⟨second, [], false⟩]).insert 3 (others.map (⟨·, [], false⟩)) }

/-- One peer may fail: the endorsement is given up although two endorse the proposer 1. -/
theorem endorseFailed_endorsed :
    BlockPool.endorseFailed (OrderedMap.empty.insert 7 (splitCandidate 1 1 [2, 3])) 7 1 = true ∧
      (splitCandidate 1 1 [2, 3]).endorsed.count 1 = 2 ∧
      ∀ x ∈ (splitCandidate 1 1 [2, 3]).endorseSigs.entries,
        (x.2.map CandidateEndorseSigInfo.endorsedProposer).Nodup ∧
        ∀ e ∈ x.2, e.forEmpty = false := by
  decide +kernel

/-- With a proposer for each of the three endorsers it is rightly given up. -/
theorem endorseFailed_hopeless_three :
    BlockPool.endorseFailed (OrderedMap.empty.insert 7 (splitCandidate 1 2 [3])) 7 1 = true ∧
      ∀ p, (splitCandidate 1 2 [3]).endorsed.count p + (2 * 1 + 1 - 3) ≤ 1 := by
  have hfailed : BlockPool.endorseFailed (OrderedMap.empty.insert 7 (splitCandidate 1 2 [3])) 7 1 =
      true := by
    decide +kernel
  have hcount (p : UInt32) : (splitCandidate 1 2 [3]).endorsed.count p ≤ 1 :=
    nodup_iff_count_le_one.mp (by decide +kernel) p
  refine ⟨hfailed, (endorseFailed_hopeless_iff (c := 1) (by rfl)
    ⟨by decide +kernel, by decide +kernel, by decide +kernel⟩).mpr ?_ hfailed⟩
  rintro ⟨-, -, ⟨p, hp⟩, -⟩
  exact absurd hp (not_lt.mpr (hcount p))

end Failed

end Poly.Vbft
