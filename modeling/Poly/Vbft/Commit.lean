import Poly.Vbft.Messages

/-! Consensus on commit messages, and when it does not depend on their order of arrival. -/
namespace Poly.Vbft

open Lib List

/-- The peers that a message counts for its proposer. -/
def BlockCommitMsg.signers (m : BlockCommitMsg) : Finset UInt32 :=
  insert m.committer m.endorsersSig.keys.toFinset

/-- The variables of the loop; the counts for each signer are not read, so a set stands for them. -/
structure CommitTally where
  emptyCommitCount : ℕ
  c : ℕ
  emptyCommit : Bool
  signCount : OrderedMap UInt32 (Finset UInt32)

namespace CommitTally

def start (c : ℕ) : CommitTally := ⟨0, c, false, OrderedMap.empty⟩

variable (t : CommitTally)

def signersOf (proposer : UInt32) : Finset UInt32 :=
  (t.signCount.get proposer).getD ∅

def countEmpty (m : BlockCommitMsg) : CommitTally :=
  if m.commitForEmpty then
    let emptyCommitCount := t.emptyCommitCount + 1
    if emptyCommitCount > t.c ∧ t.emptyCommit = false then
      { t with emptyCommitCount := emptyCommitCount, c := t.c + 1, emptyCommit := true }
    else { t with emptyCommitCount := emptyCommitCount }
  else t

def countSigners (m : BlockCommitMsg) : CommitTally :=
  { t with signCount :=
      t.signCount.insert m.blockProposer (t.signersOf m.blockProposer ∪ m.signers) }

def count (m : BlockCommitMsg) : CommitTally := (t.countEmpty m).countSigners m

end CommitTally

/-- The signatures that a block needs. -/
def commitQuorum (n : ℕ) : ℕ := n - (n - 1) / 3

def commitLoop (n : ℕ) : CommitTally → List BlockCommitMsg → UInt32 × Bool
  | _, [] => (maxUint32, false)
  | t, m :: rest =>
    let t := t.count m
    if (t.signersOf m.blockProposer).card + 1 ≥ commitQuorum n then
      (m.blockProposer, t.emptyCommit)
    else commitLoop n t rest

def getCommitConsensus (commitMsgs : List BlockCommitMsg) (c n : ℕ) : UInt32 × Bool :=
  commitLoop n (.start c) commitMsgs

section Collections

/-- The different peers that sign for a proposer in a collection of messages. -/
def signersFor (proposer : UInt32) : List BlockCommitMsg → Finset UInt32
  | [] => ∅
  | m :: rest =>
    if m.blockProposer = proposer then m.signers ∪ signersFor proposer rest
    else signersFor proposer rest

/-- The number of empty commits. -/
def empties (l : List BlockCommitMsg) : ℕ := l.countP fun m => m.commitForEmpty

/-- Enough signers for the proposer, who is counted once more. -/
def Quorum (n : ℕ) (l : List BlockCommitMsg) (proposer : UInt32) : Prop :=
  commitQuorum n ≤ (signersFor proposer l).card + 1

/-- No proposer that the messages name has a quorum among them. -/
def NoQuorum (n : ℕ) (l : List BlockCommitMsg) : Prop :=
  ∀ m ∈ l, ¬ Quorum n l m.blockProposer

instance (n : ℕ) (l : List BlockCommitMsg) (p : UInt32) : Decidable (Quorum n l p) :=
  inferInstanceAs (Decidable (_ ≤ _))

variable {n c : ℕ} {l l' : List BlockCommitMsg} {m : BlockCommitMsg} {p x : UInt32}

theorem mem_signersFor :
    x ∈ signersFor p l ↔ ∃ m ∈ l, m.blockProposer = p ∧ x ∈ m.signers := by
  induction l with
  | nil => simp [signersFor]
  | cons a l ih =>
    by_cases ha : a.blockProposer = p <;> simp [signersFor, ha, ih]

theorem signersFor_subset (h : l ⊆ l') : signersFor p l ⊆ signersFor p l' := by
  intro x hx
  obtain ⟨m, hm, hp, hs⟩ := mem_signersFor.mp hx
  exact mem_signersFor.mpr ⟨m, h hm, hp, hs⟩

theorem Quorum.mono (hq : Quorum n l p) (h : l ⊆ l') : Quorum n l' p := by
  have hcard := Finset.card_le_card (signersFor_subset (p := p) h)
  unfold Quorum at hq ⊢
  omega

theorem signersFor_concat :
    signersFor p (l ++ [m]) =
      if m.blockProposer = p then signersFor p l ∪ m.signers else signersFor p l := by
  ext x
  by_cases hm : m.blockProposer = p <;> simp [mem_signersFor, hm, or_and_right, exists_or]

theorem NoQuorum.concat (h : NoQuorum n l) (hm : ¬ Quorum n (l ++ [m]) m.blockProposer) :
    NoQuorum n (l ++ [m]) := by
  intro a ha hq
  rcases mem_append.mp ha with hal | ha
  · by_cases heq : m.blockProposer = a.blockProposer
    · exact hm (heq ▸ hq)
    · refine h a hal ?_
      rwa [Quorum, signersFor_concat, if_neg heq] at hq
  · cases mem_singleton.mp ha
    exact hm hq

theorem empties_concat : empties (l ++ [m]) = empties l + if m.commitForEmpty then 1 else 0 := by
  simp [empties, countP_append, countP_cons]

end Collections

section Loop

variable {n c : ℕ} {t : CommitTally} {l pre post : List BlockCommitMsg} {m : BlockCommitMsg}
  {p : UInt32} {e : Bool}

/-- The variables of the loop after a prefix of the messages. -/
structure Reflects (c : ℕ) (t : CommitTally) (pre : List BlockCommitMsg) : Prop where
  count : t.emptyCommitCount = empties pre
  -- the bound moves only together with the flag, which is never cleared
  bound : t.emptyCommit = false → t.c = c
  flag : t.emptyCommit = true ↔ c < empties pre
  signers : ∀ p, t.signersOf p = signersFor p pre

theorem reflects_start : Reflects c (.start c) [] where
  count := rfl
  bound _ := rfl
  flag := by simp [CommitTally.start, empties]
  signers _ := rfl

theorem signersOf_count (t : CommitTally) (m : BlockCommitMsg) (p : UInt32) :
    (t.count m).signersOf p =
      if m.blockProposer = p then t.signersOf p ∪ m.signers else t.signersOf p := by
  have hsame : (t.countEmpty m).signCount = t.signCount := by
    simp only [CommitTally.countEmpty]
    split_ifs <;> rfl
  by_cases h : m.blockProposer = p
  · subst h
    simp [CommitTally.count, CommitTally.countSigners, CommitTally.signersOf, hsame]
  · have hne : p ≠ m.blockProposer := fun he => h he.symm
    rw [if_neg h]
    simp only [CommitTally.count, CommitTally.countSigners, CommitTally.signersOf,
      OrderedMap.get_insert_of_ne _ _ hne, hsame]

theorem Reflects.step (h : Reflects c t pre) (m : BlockCommitMsg) :
    Reflects c (t.count m) (pre ++ [m]) := by
  have hsigners : ∀ p, (t.count m).signersOf p = signersFor p (pre ++ [m]) := by
    intro p
    rw [signersOf_count, signersFor_concat, h.signers]
  have hcount := h.count
  by_cases hm : m.commitForEmpty = true
  · have hempties : empties (pre ++ [m]) = empties pre + 1 := by rw [empties_concat, if_pos hm]
    by_cases hflag : t.emptyCommit = true
    · have hlt := h.flag.mp hflag
      refine ⟨?_, ?_, ?_, hsigners⟩ <;>
        simp [CommitTally.count, CommitTally.countSigners, CommitTally.countEmpty, hm, hflag] <;>
        omega
    · have hfalse := Bool.eq_false_of_not_eq_true hflag
      have hc := h.bound hfalse
      by_cases hmore : t.emptyCommitCount + 1 > t.c
      · refine ⟨?_, ?_, ?_, hsigners⟩ <;>
          simp [CommitTally.count, CommitTally.countSigners, CommitTally.countEmpty, hm, hfalse,
            hmore] <;> omega
      · refine ⟨?_, ?_, ?_, hsigners⟩ <;>
          simp [CommitTally.count, CommitTally.countSigners, CommitTally.countEmpty, hm, hfalse,
            hmore] <;> omega
  · have hempties : empties (pre ++ [m]) = empties pre := by rw [empties_concat, if_neg hm]; rfl
    have hsame : t.countEmpty m = t := if_neg hm
    refine ⟨?_, ?_, ?_, hsigners⟩ <;>
      simp only [CommitTally.count, hsame, CommitTally.countSigners, hempties]
    · exact hcount
    · exact h.bound
    · exact h.flag

theorem commitLoop_append (h : Reflects c t pre) (hno : NoQuorum n (pre ++ l)) :
    ∃ t', Reflects c t' (pre ++ l) ∧ commitLoop n t (l ++ post) = commitLoop n t' post := by
  induction l generalizing t pre with
  | nil => exact ⟨t, by simpa using h, rfl⟩
  | cons m l ih =>
    have hstep := h.step m
    have hassoc : pre ++ m :: l = pre ++ [m] ++ l := by simp
    have hm : ¬ commitQuorum n ≤ ((t.count m).signersOf m.blockProposer).card + 1 := by
      rw [hstep.signers]
      intro hq
      have hsub : pre ++ [m] ⊆ pre ++ m :: l := by simp
      exact hno m (by simp) (Quorum.mono hq hsub)
    obtain ⟨t', ht', heq⟩ := ih hstep (hassoc ▸ hno)
    refine ⟨t', hassoc ▸ ht', ?_⟩
    rw [cons_append, commitLoop, if_neg hm, heq]

theorem getCommitConsensus_of_decisive (hno : NoQuorum n pre)
    (hq : Quorum n (pre ++ [m]) m.blockProposer) :
    getCommitConsensus (pre ++ m :: post) c n =
      (m.blockProposer, decide (c < empties (pre ++ [m]))) := by
  have hpast : ∃ t, Reflects c t ([] ++ pre) ∧
      commitLoop n (.start c) (pre ++ m :: post) = commitLoop n t (m :: post) :=
    commitLoop_append reflects_start hno
  obtain ⟨t, ht, heq⟩ := hpast
  have hstep := ht.step m
  have hreach : commitQuorum n ≤ ((t.count m).signersOf m.blockProposer).card + 1 := by
    rw [hstep.signers]
    exact hq
  rw [getCommitConsensus, heq, commitLoop]
  have hflag := hstep.flag
  cases hb : (t.count m).emptyCommit <;> simp_all

theorem commitLoop_decided (h : Reflects c t pre) (hno : NoQuorum n pre)
    (hr : commitLoop n t l = (p, e)) (hp : p ≠ maxUint32) :
    ∃ mid m post, l = mid ++ m :: post ∧ p = m.blockProposer ∧ NoQuorum n (pre ++ mid) ∧
      Quorum n (pre ++ mid ++ [m]) p ∧ (e = true ↔ c < empties (pre ++ mid ++ [m])) := by
  induction l generalizing t pre with
  | nil => exact absurd (Prod.mk.inj hr).1.symm hp
  | cons m l ih =>
    have hstep := h.step m
    rw [commitLoop] at hr
    split_ifs at hr with hq
    · cases hr
      rw [hstep.signers] at hq
      have hq : Quorum n (pre ++ [m]) m.blockProposer := hq
      exact ⟨[], m, l, rfl, rfl, by simpa using hno, by simpa using hq, by simpa using hstep.flag⟩
    · rw [hstep.signers] at hq
      obtain ⟨mid, m', post, rfl, rfl, hno', hq', he⟩ := ih hstep (hno.concat hq) hr
      exact ⟨m :: mid, m', post, rfl, rfl, by simpa using hno', by simpa using hq',
        by simpa using he⟩

theorem getCommitConsensus_decided (hr : getCommitConsensus l c n = (p, e)) (hp : p ≠ maxUint32) :
    ∃ pre m post, l = pre ++ m :: post ∧ p = m.blockProposer ∧ NoQuorum n pre ∧
      Quorum n (pre ++ [m]) p ∧ (e = true ↔ c < empties (pre ++ [m])) := by
  have hnone : NoQuorum n [] := nofun
  exact commitLoop_decided reflects_start hnone hr hp

end Loop

variable {n c : ℕ} {msgs l pre post : List BlockCommitMsg} {m : BlockCommitMsg} {p : UInt32}

/-- Any two nodes that have received some of the messages, each in its own order, and that both
obtain a proposer obtain the same decision. -/
def CommitAgreement (msgs : List BlockCommitMsg) (c n : ℕ) : Prop :=
  ∀ l₁ l₂, l₁.Subperm msgs → l₂.Subperm msgs →
    (getCommitConsensus l₁ c n).1 ≠ maxUint32 → (getCommitConsensus l₂ c n).1 ≠ maxUint32 →
    getCommitConsensus l₁ c n = getCommitConsensus l₂ c n

/-- One proposer at most can reach a quorum. For that one, either every collection with a quorum
has more than `c` empty commits, or none has at the message that completes the quorum. -/
structure Unambiguous (msgs : List BlockCommitMsg) (c n : ℕ) : Prop where
  one_proposer : ∀ m₁ ∈ msgs, ∀ m₂ ∈ msgs, m₁.blockProposer ≠ maxUint32 →
    m₂.blockProposer ≠ maxUint32 → Quorum n msgs m₁.blockProposer →
    Quorum n msgs m₂.blockProposer → m₁.blockProposer = m₂.blockProposer
  one_kind : ∀ p, p ≠ maxUint32 →
    (∀ l, l.Subperm msgs → (∃ m ∈ l, m.blockProposer = p) → Quorum n l p → c < empties l) ∨
    ∀ l m, (l ++ [m]).Subperm msgs → m.blockProposer = p → NoQuorum n l → Quorum n (l ++ [m]) p →
      empties (l ++ [m]) ≤ c

theorem signersFor_filter : signersFor p (l.filter fun m => m.blockProposer = p) = signersFor p l := by
  ext x
  simp only [mem_signersFor, mem_filter, decide_eq_true_eq]
  constructor
  · rintro ⟨m, ⟨hm, -⟩, hp, hx⟩
    exact ⟨m, hm, hp, hx⟩
  · rintro ⟨m, hm, hp, hx⟩
    exact ⟨m, ⟨hm, hp⟩, hp, hx⟩

/-- Among messages with a quorum there are some whose last one completes the first quorum. -/
theorem exists_decisive (hm : ∃ m ∈ l, m.blockProposer = p) (hq : Quorum n l p) :
    ∃ pre m, (pre ++ [m]).Sublist l ∧ m.blockProposer = p ∧ NoQuorum n pre ∧
      Quorum n (pre ++ [m]) p := by
  induction l using List.reverseRecOn with
  | nil =>
    obtain ⟨m, hm, -⟩ := hm
    exact absurd hm not_mem_nil
  | append_singleton init a ih =>
    by_cases hinit : (∃ m ∈ init, m.blockProposer = p) ∧ Quorum n init p
    · obtain ⟨pre, m, hsub, hrest⟩ := ih hinit.1 hinit.2
      exact ⟨pre, m, hsub.trans (sublist_append_left init [a]), hrest⟩
    · have ha : a.blockProposer = p := by
        by_contra hne
        refine hinit ⟨?_, ?_⟩
        · obtain ⟨m, hm, hp⟩ := hm
          rcases mem_append.mp hm with hm | hm
          · exact ⟨m, hm, hp⟩
          · exact absurd (mem_singleton.mp hm ▸ hp) hne
        · rwa [Quorum, signersFor_concat, if_neg hne] at hq
      refine ⟨init.filter fun m => m.blockProposer = p, a,
        filter_sublist.append_right [a], ha, ?_, ?_⟩
      · intro b hb hqb
        obtain ⟨hb, hp⟩ := mem_filter.mp hb
        have hp := of_decide_eq_true hp
        refine hinit ⟨⟨b, hb, hp⟩, ?_⟩
        rw [hp] at hqb
        exact hqb.mono filter_sublist.subset
      · rwa [Quorum, signersFor_concat, signersFor_filter, ← signersFor_concat]

/-- A collection whose last message completes the first quorum gives that message's proposer. -/
theorem getCommitConsensus_concat (hno : NoQuorum n pre)
    (hq : Quorum n (pre ++ [m]) m.blockProposer) :
    getCommitConsensus (pre ++ [m]) c n = (m.blockProposer, decide (c < empties (pre ++ [m]))) :=
  getCommitConsensus_of_decisive hno hq

theorem CommitAgreement.unambiguous (h : CommitAgreement msgs c n) : Unambiguous msgs c n where
  one_proposer m₁ hm₁ m₂ hm₂ hp₁ hp₂ hq₁ hq₂ := by
    obtain ⟨pre₁, a₁, hsub₁, ha₁, hno₁, hquorum₁⟩ := exists_decisive ⟨m₁, hm₁, rfl⟩ hq₁
    obtain ⟨pre₂, a₂, hsub₂, ha₂, hno₂, hquorum₂⟩ := exists_decisive ⟨m₂, hm₂, rfl⟩ hq₂
    have hr₁ := getCommitConsensus_concat (c := c) hno₁ (ha₁ ▸ hquorum₁)
    have hr₂ := getCommitConsensus_concat (c := c) hno₂ (ha₂ ▸ hquorum₂)
    have heq := h _ _ hsub₁.subperm hsub₂.subperm (by rw [hr₁]; exact ha₁ ▸ hp₁)
      (by rw [hr₂]; exact ha₂ ▸ hp₂)
    rw [hr₁, hr₂] at heq
    exact ha₁.symm.trans ((Prod.mk.inj heq).1.trans ha₂)
  one_kind p hp := by
    by_contra hnot
    push Not at hnot
    obtain ⟨⟨l, hl, hm, hq, hfew⟩, l', m', hl', rfl, hno', hq', hmany⟩ := hnot
    obtain ⟨pre, a, hsub, ha, hno, hquorum⟩ := exists_decisive hm hq
    have hr := getCommitConsensus_concat (c := c) hno (ha ▸ hquorum)
    have hr' := getCommitConsensus_concat (c := c) hno' hq'
    have heq := h _ _ (hsub.subperm.trans hl) hl' (by rw [hr]; exact ha ▸ hp)
      (by rw [hr']; exact hp)
    have hless : empties (pre ++ [a]) ≤ empties l := hsub.countP_le
    rw [hr, hr'] at heq
    have hflag := (Prod.mk.inj heq).2
    rw [decide_eq_decide] at hflag
    omega

theorem Unambiguous.agreement (h : Unambiguous msgs c n) : CommitAgreement msgs c n := by
  intro l₁ l₂ hl₁ hl₂ hp₁ hp₂
  rcases hr₁ : getCommitConsensus l₁ c n with ⟨p₁, e₁⟩
  rcases hr₂ : getCommitConsensus l₂ c n with ⟨p₂, e₂⟩
  rw [hr₁] at hp₁
  rw [hr₂] at hp₂
  obtain ⟨pre₁, m₁, post₁, rfl, rfl, hno₁, hq₁, he₁⟩ := getCommitConsensus_decided hr₁ hp₁
  obtain ⟨pre₂, m₂, post₂, rfl, hp, hno₂, hq₂, he₂⟩ := getCommitConsensus_decided hr₂ hp₂
  have hsub : ∀ {pre post : List BlockCommitMsg} {m}, (pre ++ m :: post).Subperm msgs →
      (pre ++ [m]).Subperm msgs := by
    intro pre post m hl
    refine List.Subperm.trans (List.Sublist.subperm ?_) hl
    exact (List.Sublist.refl pre).append (singleton_sublist.mpr mem_cons_self)
  have hs₁ := hsub hl₁
  have hs₂ := hsub hl₂
  have hsame : m₁.blockProposer = p₂ := by
    rw [hp]
    exact h.one_proposer m₁ (hs₁.subset (by simp)) m₂ (hs₂.subset (by simp)) hp₁ (hp ▸ hp₂)
      (hq₁.mono hs₁.subset) (hp ▸ hq₂.mono hs₂.subset)
  subst hsame
  have hflags : e₁ = true ↔ e₂ = true := by
    rw [he₁, he₂]
    rcases h.one_kind _ hp₁ with hall | hnone
    · have hmore₁ := hall _ hs₁ ⟨m₁, by simp, rfl⟩ hq₁
      have hmore₂ := hall _ hs₂ ⟨m₂, by simp, hp.symm⟩ hq₂
      exact iff_of_true hmore₁ hmore₂
    · have hless₁ := hnone _ _ hs₁ rfl hno₁ hq₁
      have hless₂ := hnone _ _ hs₂ hp.symm hno₂ hq₂
      exact iff_of_false (Nat.not_lt.mpr hless₁) (Nat.not_lt.mpr hless₂)
  rw [Bool.eq_iff_iff.mpr hflags]

/-- The decision is independent of what has arrived and in which order exactly for unambiguous
sets of messages. -/
theorem commitAgreement_iff (msgs : List BlockCommitMsg) (c n : ℕ) :
    CommitAgreement msgs c n ↔ Unambiguous msgs c n :=
  ⟨CommitAgreement.unambiguous, Unambiguous.agreement⟩

/-- One message for each committer, and each signer stands behind one proposer and one kind of
block only. -/
structure OneChoice (msgs : List BlockCommitMsg) : Prop where
  once : (msgs.map BlockCommitMsg.committer).Nodup
  choice : ∀ m₁ ∈ msgs, ∀ m₂ ∈ msgs, ∀ x ∈ m₁.signers, x ∈ m₂.signers →
    m₁.blockProposer = m₂.blockProposer ∧ m₁.commitForEmpty = m₂.commitForEmpty

theorem OneChoice.of_inter {msgs} (once : (msgs.map BlockCommitMsg.committer).Nodup)
    (h : ∀ m₁ ∈ msgs, ∀ m₂ ∈ msgs, m₁.signers ∩ m₂.signers = ∅ ∨
      m₁.blockProposer = m₂.blockProposer ∧ m₁.commitForEmpty = m₂.commitForEmpty) :
    OneChoice msgs := by
  refine ⟨once, fun m₁ h₁ m₂ h₂ x hx₁ hx₂ => (h m₁ h₁ m₂ h₂).resolve_left ?_⟩
  exact Finset.ne_empty_of_mem (Finset.mem_inter.mpr ⟨hx₁, hx₂⟩)

def sampleCommit (committer proposer : UInt32) (forEmpty : Bool) (endorsers : List UInt32) :
    BlockCommitMsg where
  committer := committer
  blockProposer := proposer
  blockNum := 1
  commitBlockHash := Uint256.empty
  commitForEmpty := forEmpty
  endorsersSig := endorsers.foldl (fun m i => m.insert i []) OrderedMap.empty
  committerSig := []

/-- Four peers, two for each of two proposers. -/
def samplePairs : List BlockCommitMsg := [sampleCommit 0 0 false [1], sampleCommit 2 2 false [3]]

/-- Seven peers, four for a block of peer 3 and three for an empty block of peer 0. -/
def sampleMixed : List BlockCommitMsg :=
  [sampleCommit 0 0 true [], sampleCommit 1 0 true [], sampleCommit 2 0 true [],
    sampleCommit 3 3 false [4, 5, 6]]

/-- With four peers two proposers can both count as decided; with seven a node that has seen the
three empty commits first takes the block of peer 3 for an empty one. -/
theorem commit_disagreement :
    (OneChoice samplePairs ∧ ¬ CommitAgreement samplePairs 1 4) ∧
      (OneChoice sampleMixed ∧ getCommitConsensus (sampleMixed.drop 3) 2 7 = (3, false) ∧
        getCommitConsensus sampleMixed 2 7 = (3, true) ∧ ¬ CommitAgreement sampleMixed 2 7) := by
  have hpairs : OneChoice samplePairs := .of_inter (by decide) (by decide)
  have hmixed : OneChoice sampleMixed := .of_inter (by decide) (by decide)
  have hlate : getCommitConsensus (sampleMixed.drop 3) 2 7 = (3, false) := by decide
  have hearly : getCommitConsensus sampleMixed 2 7 = (3, true) := by decide
  refine ⟨⟨hpairs, fun h => ?_⟩, hmixed, hlate, hearly, fun h => ?_⟩
  · have heq := h (samplePairs.take 1) (samplePairs.drop 1) (take_sublist _ _).subperm
      (drop_sublist _ _).subperm (by decide) (by decide)
    exact absurd heq (by decide)
  · have heq := h (sampleMixed.drop 3) sampleMixed (drop_sublist _ _).subperm
      (List.Subperm.refl _) (by decide) (by decide)
    exact absurd heq (by decide)

end Poly.Vbft
