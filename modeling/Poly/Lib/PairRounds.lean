import Poly.Lib.MerkleTree

/-! Hash roots computed in rounds of pairs, where an odd last digest is paired with itself: what a root
says about the list it was computed from. -/
namespace Poly.Lib.PairRounds

open List

variable {M D : Type} (H : M → D) (msg : D → D → M)

/-- The messages hashed in one round. -/
def roundMessages : List D → List M
  | [] => []
  | [a] => [msg a a]
  | a :: b :: l => msg a b :: roundMessages l

def round (l : List D) : List D := (roundMessages msg l).map H

theorem round_length (l : List D) : (round H msg l).length = (l.length + 1) / 2 := by
  rw [round, length_map]
  fun_induction roundMessages msg l with
  | case1 => simp
  | case2 => simp
  | case3 a b l ih =>
    simp only [length_cons, ih]
    omega

/-- The root; an empty list has none. -/
def root : List D → Option D
  | [] => none
  | [a] => some a
  | a :: b :: l => root (round H msg (a :: b :: l))
termination_by l => l.length
decreasing_by
  rw [round_length]
  simp only [List.length_cons]
  omega

/-- All messages hashed on the way to the root. -/
def rootMessages : List D → List M
  | [] => []
  | [_] => []
  | a :: b :: l => roundMessages msg (a :: b :: l) ++ rootMessages (round H msg (a :: b :: l))
termination_by l => l.length
decreasing_by
  rw [round_length]
  simp only [List.length_cons]
  omega

section Messages

variable {msg}

variable {l : List D}

theorem mem_roundMessages {m : M} (h : m ∈ roundMessages msg l) :
    ∃ a ∈ l, ∃ b ∈ l, m = msg a b := by
  induction l using roundMessages.induct with
  | case1 => cases h
  | case2 a => exact ⟨a, by simp, a, by simp, by simpa [roundMessages] using h⟩
  | case3 a b l ih =>
    rcases mem_cons.mp h with rfl | h
    · exact ⟨a, by simp, b, by simp, rfl⟩
    · obtain ⟨c, hc, d, hd, rfl⟩ := ih h
      exact ⟨c, by simp [hc], d, by simp [hd], rfl⟩

variable {H}

variable (H msg) in
theorem root_isSome (h : l ≠ []) : ∃ d, root H msg l = some d := by
  induction l using root.induct H msg with
  | case1 => exact absurd rfl h
  | case2 a => exact ⟨a, by rw [root]⟩
  | case3 a b l ih =>
    rw [root]
    exact ih (by simp [round, roundMessages])

theorem roundMessages_subset (h : 2 ≤ l.length) : roundMessages msg l ⊆ rootMessages H msg l := by
  match l, h with
  | a :: b :: l, _ =>
    rw [rootMessages]
    exact subset_append_left _ _

theorem rootMessages_round_subset (h : 2 ≤ l.length) :
    rootMessages H msg (round H msg l) ⊆ rootMessages H msg l := by
  match l, h with
  | a :: b :: l, _ =>
    rw [rootMessages.eq_def _ _ (a :: b :: l)]
    exact subset_append_right _ _

variable (H msg) in
theorem exists_root_eq (h : 2 ≤ l.length) :
    ∃ m ∈ rootMessages H msg l, root H msg l = some (H m) := by
  induction l using root.induct H msg with
  | case1 => simp at h
  | case2 a => simp at h
  | case3 a b l ih =>
    rw [root]
    by_cases hl : 2 ≤ (round H msg (a :: b :: l)).length
    · obtain ⟨m, hm, hroot⟩ := ih hl
      exact ⟨m, rootMessages_round_subset h hm, hroot⟩
    · -- one message only: the round is the root
      have hnil : l = [] := by
        rw [round_length] at hl
        simp only [length_cons] at hl
        exact length_eq_zero_iff.mp (by omega)
      subst hnil
      refine ⟨msg a b, roundMessages_subset h (by simp [roundMessages]), ?_⟩
      simp [round, roundMessages, root]

/-- A message joins two digests, and the first one is a leaf or the digest of another message. -/
theorem mem_rootMessages {m : M} (h : m ∈ rootMessages H msg l) :
    ∃ a b, m = msg a b ∧ (a ∈ l ∨ ∃ m' ∈ rootMessages H msg l, a = H m') := by
  induction l using rootMessages.induct H msg with
  | case1 => simp [rootMessages] at h
  | case2 a => simp [rootMessages] at h
  | case3 a b l ih =>
    have htwo : 2 ≤ (a :: b :: l).length := by simp
    rw [rootMessages] at h
    rcases mem_append.mp h with h | h
    · obtain ⟨c, hc, d, -, rfl⟩ := mem_roundMessages h
      exact ⟨c, d, rfl, .inl hc⟩
    · obtain ⟨c, d, rfl, hc⟩ := ih h
      refine ⟨c, d, rfl, .inr ?_⟩
      rcases hc with hc | ⟨m', hm', rfl⟩
      · obtain ⟨m', hm', rfl⟩ := mem_map.mp hc
        exact ⟨m', roundMessages_subset htwo hm', rfl⟩
      · exact ⟨m', rootMessages_round_subset htwo hm', rfl⟩

end Messages

/-- Equal lists of digests come from equal messages, or two of these collide. -/
theorem eq_or_collision_of_map {H : M → D} {l₁ l₂ : List M} (h : l₁.map H = l₂.map H) :
    l₁ = l₂ ∨ Collision H (l₁ ++ l₂) := by
  induction l₁ generalizing l₂ with
  | nil => exact .inl (map_eq_nil_iff.mp h.symm).symm
  | cons x l₁ ih =>
    cases l₂ with
    | nil => cases h
    | cons y l₂ =>
      obtain ⟨hxy, hl⟩ := List.cons.inj h
      rcases eq_or_collision hxy with rfl | hc
      · rcases ih hl with rfl | hc
        · exact .inl rfl
        · refine .inr (hc.mono fun z hz => ?_)
          rcases mem_append.mp hz with hz | hz <;> simp [hz]
      · exact .inr (hc.mono (by simp))

variable {H msg} (hmsg : ∀ a b c d, msg a b = msg c d → a = c ∧ b = d)
include hmsg

theorem nodup_roundMessages {l : List D} (h : l.Nodup) : (roundMessages msg l).Nodup := by
  induction l using roundMessages.induct with
  | case1 => exact nodup_nil
  | case2 a => exact nodup_singleton _
  | case3 a b l ih =>
    obtain ⟨ha, hl⟩ := nodup_cons.mp h
    refine nodup_cons.mpr ⟨fun hm => ?_, ih (nodup_cons.mp hl).2⟩
    obtain ⟨c, hc, d, -, he⟩ := mem_roundMessages hm
    exact ha (mem_cons_of_mem _ ((hmsg _ _ _ _ he).1 ▸ hc))

/-- Different digests stay different in the next round, or two messages collide. -/
theorem nodup_round {l : List D} (h : l.Nodup) :
    (round H msg l).Nodup ∨ Collision H (roundMessages msg l) := by
  by_cases hc : Collision H (roundMessages msg l)
  · exact .inr hc
  · refine .inl ((nodup_map_iff_inj_on (nodup_roundMessages hmsg h)).mpr ?_)
    intro x hx y hy hxy
    by_contra hne
    exact hc ⟨x, hx, y, hy, hne, hxy⟩

variable {l₁ l₂ : List D}

/-- The messages of a round determine the digests, if they were different. -/
theorem eq_of_roundMessages_eq (h₁ : l₁.Nodup) (h₂ : l₂.Nodup)
    (h : roundMessages msg l₁ = roundMessages msg l₂) : l₁ = l₂ := by
  induction l₁ using roundMessages.induct generalizing l₂ with
  | case1 =>
    match l₂ with
    | [] => rfl
    | [c] => cases h
    | c :: d :: l => cases h
  | case2 a =>
    match l₂ with
    | [] => cases h
    | [c] => rw [(hmsg _ _ _ _ (List.cons.inj h).1).1]
    | c :: d :: l =>
      -- the single digest would be paired with itself, the two others are different
      obtain ⟨rfl, rfl⟩ := hmsg _ _ _ _ (List.cons.inj h).1
      simp at h₂
  | case3 a b l ih =>
    match l₂ with
    | [] => cases h
    | [c] =>
      obtain ⟨rfl, rfl⟩ := hmsg _ _ _ _ (List.cons.inj h).1
      simp at h₁
    | c :: d :: l' =>
      obtain ⟨rfl, rfl⟩ := hmsg _ _ _ _ (List.cons.inj h).1
      have hl := ih (nodup_cons.mp (nodup_cons.mp h₁).2).2
        (nodup_cons.mp (nodup_cons.mp h₂).2).2 (List.cons.inj h).2
      rw [hl]

/-- A leaf of one list is the digest of a message of the other. -/
def Confused (H : M → D) (msg : D → D → M) (l₁ l₂ : List D) : Prop :=
  ∃ a ∈ l₁, ∃ m ∈ rootMessages H msg l₂, a = H m

omit hmsg in
theorem Confused.of_single {a : D} {l : List D} (h : 2 ≤ l.length)
    (hroot : some a = root H msg l) : Confused H msg [a] l := by
  obtain ⟨m, hm, he⟩ := exists_root_eq H msg h
  exact ⟨a, mem_singleton_self a, m, hm, Option.some.inj (hroot.trans he)⟩

/-- A confusion one round up is one of the leaves themselves, or two messages collide. -/
theorem Confused.of_round (hl₁ : 2 ≤ l₁.length) (hl₂ : 2 ≤ l₂.length)
    (h : Confused H msg (round H msg l₁) (round H msg l₂)) :
    Confused H msg l₁ l₂ ∨ Collision H (rootMessages H msg l₁ ++ rootMessages H msg l₂) := by
  obtain ⟨x, hx, m, hm, he⟩ := h
  obtain ⟨m', hm', rfl⟩ := mem_map.mp hx
  rcases eq_or_collision he with rfl | hc
  · -- the message joins two leaves of the first list, and digests of the second
    obtain ⟨a, ha, b, -, rfl⟩ := mem_roundMessages hm'
    obtain ⟨c, d, hcd, hc⟩ := mem_rootMessages hm
    obtain ⟨rfl, rfl⟩ := hmsg _ _ _ _ hcd
    refine .inl ⟨a, ha, ?_⟩
    rcases hc with hc | ⟨n, hn, rfl⟩
    · obtain ⟨n, hn, rfl⟩ := mem_map.mp hc
      exact ⟨n, roundMessages_subset hl₂ hn, rfl⟩
    · exact ⟨n, rootMessages_round_subset hl₂ hn, rfl⟩
  · refine .inr (hc.mono fun x hx => ?_)
    rcases mem_cons.mp hx with rfl | hx
    · exact mem_append_left _ (roundMessages_subset hl₁ hm')
    · cases mem_singleton.mp hx
      exact mem_append_right _ (rootMessages_round_subset hl₂ hm)

/-- The root binds the list: two lists of different digests with one root are equal, or messages
collide, or a leaf of one list is an inner digest of the other. -/
theorem eq_of_root_eq (h₁ : l₁.Nodup) (h₂ : l₂.Nodup) (h : root H msg l₁ = root H msg l₂) :
    l₁ = l₂ ∨ Collision H (rootMessages H msg l₁ ++ rootMessages H msg l₂) ∨
      Confused H msg l₁ l₂ ∨ Confused H msg l₂ l₁ := by
  induction l₁ using root.induct H msg generalizing l₂ with
  | case1 =>
    match l₂ with
    | [] => exact .inl rfl
    | c :: l =>
      obtain ⟨d, hd⟩ := root_isSome H msg (cons_ne_nil c l)
      rw [hd, root] at h
      cases h
  | case2 a =>
    rw [root] at h
    match l₂ with
    | [] =>
      rw [root] at h
      cases h
    | [c] =>
      rw [root] at h
      exact .inl (by rw [Option.some.inj h])
    | c :: d :: l => exact .inr (.inr (.inl (.of_single (by simp) h)))
  | case3 a b l ih =>
    match l₂ with
    | [] =>
      obtain ⟨d, hd⟩ := root_isSome H msg (cons_ne_nil a (b :: l))
      rw [hd, root] at h
      cases h
    | [c] =>
      rw [root.eq_def _ _ [c]] at h
      exact .inr (.inr (.inr (.of_single (by simp) h.symm)))
    | c :: d :: l' =>
      have hl₁ : 2 ≤ (a :: b :: l).length := by simp
      have hl₂ : 2 ≤ (c :: d :: l').length := by simp
      rw [root, root.eq_def _ _ (c :: d :: l')] at h
      by_cases hall : Collision H
        (rootMessages H msg (a :: b :: l) ++ rootMessages H msg (c :: d :: l'))
      · exact .inr (.inl hall)
      have hno {ms : List M} (hs : ms ⊆ rootMessages H msg (a :: b :: l) ++
          rootMessages H msg (c :: d :: l')) : ¬ Collision H ms := fun hc => hall (hc.mono hs)
      have hleft : roundMessages msg (a :: b :: l) ⊆
          rootMessages H msg (a :: b :: l) ++ rootMessages H msg (c :: d :: l') :=
        List.Subset.trans (roundMessages_subset hl₁) (subset_append_left _ _)
      have hright : roundMessages msg (c :: d :: l') ⊆
          rootMessages H msg (a :: b :: l) ++ rootMessages H msg (c :: d :: l') :=
        List.Subset.trans (roundMessages_subset hl₂) (subset_append_right _ _)
      have hn₁ := (nodup_round hmsg h₁).resolve_right (hno hleft)
      have hn₂ := (nodup_round hmsg h₂).resolve_right (hno hright)
      rcases ih hn₁ hn₂ h with he | hc | hc | hc
      · refine .inl (eq_of_roundMessages_eq hmsg h₁ h₂ ?_)
        exact (eq_or_collision_of_map he).resolve_right (hno (append_subset.mpr ⟨hleft, hright⟩))
      · refine absurd hc (hno (append_subset.mpr ⟨?_, ?_⟩))
        · exact List.Subset.trans (rootMessages_round_subset hl₁) (subset_append_left _ _)
        · exact List.Subset.trans (rootMessages_round_subset hl₂) (subset_append_right _ _)
      · exact .inr (.inr (.inl ((hc.of_round hmsg hl₁ hl₂).resolve_right hall)))
      · refine .inr (.inr (.inr ((hc.of_round hmsg hl₂ hl₁).resolve_right (hno ?_))))
        exact append_subset.mpr ⟨subset_append_right _ _, subset_append_left _ _⟩

theorem eq_of_roundMessages_length (hlen : l₁.length = l₂.length)
    (h : roundMessages msg l₁ = roundMessages msg l₂) : l₁ = l₂ := by
  induction l₁ using roundMessages.induct generalizing l₂ with
  | case1 => exact (length_eq_zero_iff.mp hlen.symm).symm
  | case2 a =>
    obtain ⟨c, rfl⟩ := length_eq_one_iff.mp hlen.symm
    rw [(hmsg _ _ _ _ (List.cons.inj h).1).1]
  | case3 a b l ih =>
    match l₂, hlen with
    | c :: d :: l', hlen =>
      obtain ⟨hhead, htail⟩ := List.cons.inj h
      obtain ⟨rfl, rfl⟩ := hmsg _ _ _ _ hhead
      rw [ih (by simpa using hlen) htail]

/-- Between lists of one length the root binds the list, or messages collide. -/
theorem eq_of_root_length (hlen : l₁.length = l₂.length) (h : root H msg l₁ = root H msg l₂) :
    l₁ = l₂ ∨ Collision H (rootMessages H msg l₁ ++ rootMessages H msg l₂) := by
  induction l₁ using root.induct H msg generalizing l₂ with
  | case1 => exact .inl (length_eq_zero_iff.mp hlen.symm).symm
  | case2 a =>
    obtain ⟨c, rfl⟩ := length_eq_one_iff.mp hlen.symm
    rw [root, root] at h
    exact .inl (by rw [Option.some.inj h])
  | case3 a b l ih =>
    match l₂, hlen with
    | c :: d :: l', hlen =>
      rw [root, root.eq_def _ _ (c :: d :: l')] at h
      rw [rootMessages, rootMessages.eq_def _ _ (c :: d :: l')]
      rcases ih (by rw [round_length, round_length, hlen]) h with he | hc
      · rcases eq_or_collision_of_map he with he | hc
        · exact .inl (eq_of_roundMessages_length hmsg hlen he)
        · exact .inr (hc.mono (by grind))
      · exact .inr (hc.mono (by grind))

end Poly.Lib.PairRounds
