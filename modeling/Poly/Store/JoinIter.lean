import Poly.Store.DbIter
import Poly.Lib.Merge

/-! Two iterators joined into one: the entries of the first hide those of the second, and entries
with an empty value are deletions. -/
namespace Poly.Overlaydb

open Lib

/-- `StoreIterator`, for iterators whose state is a `σ`. -/
structure StoreIterator (σ : Type) where
  first : σ → Result (Bool × σ)
  next : σ → Result (Bool × σ)
  key : σ → Bytes
  value : σ → Bytes
  error : σ → Option String

inductive KeyOrigin where
  | fromMem
  | fromBack
  | fromBoth
  deriving DecidableEq

structure JoinIter (μ β : Type) where
  backend : β
  memdb : μ
  key : Bytes
  value : Bytes
  keyOrigin : KeyOrigin
  nextMemEnd : Bool
  nextBackEnd : Bool

namespace JoinIter

variable {μ β : Type}

def newJoinIter (memIter : μ) (backendIter : β) : JoinIter μ β :=
  ⟨backendIter, memIter, [], [], .fromMem, false, false⟩

variable (M : StoreIterator μ) (B : StoreIterator β)

variable (iter : JoinIter μ β)

def error : Option String := (B.error iter.backend).or (M.error iter.memdb)

def takeMem (origin : KeyOrigin) : JoinIter μ β :=
  { iter with key := M.key iter.memdb, value := M.value iter.memdb, keyOrigin := origin }

def takeBack : JoinIter μ β :=
  { iter with key := B.key iter.backend, value := B.value iter.backend, keyOrigin := .fromBack }

/-- The smaller of the two current entries; of equal ones that of the memory database. -/
def takeSmaller : JoinIter μ β :=
  match compareBytes (M.key iter.memdb) (B.key iter.backend) with
  | .lt => iter.takeMem M .fromMem
  | .eq => iter.takeMem M .fromBoth
  | .gt => iter.takeBack B

/-- `first`: to the first entry, deleted or not. -/
def rawFirst : Result (Bool × JoinIter μ β) := do
  let (back, backend) ← B.first iter.backend
  let (mem, memdb) ← M.first iter.memdb
  let iter := { iter with backend := backend, memdb := memdb }
  if (iter.error M B).isSome then return (false, iter)
  else if back then
    if mem = false then return (true, iter.takeBack B)
    else return (true, iter.takeSmaller M B)
  else if mem then return (true, iter.takeMem M .fromMem)
  else return (false, iter)

/-- The current entry came from the memory database. -/
def usesMem : Prop := iter.keyOrigin = .fromMem ∨ iter.keyOrigin = .fromBoth

def usesBack : Prop := iter.keyOrigin = .fromBack ∨ iter.keyOrigin = .fromBoth

instance : Decidable iter.usesMem := inferInstanceAs (Decidable (_ ∨ _))

instance : Decidable iter.usesBack := inferInstanceAs (Decidable (_ ∨ _))

def advanceMem : Result (JoinIter μ β) :=
  if iter.usesMem ∧ iter.nextMemEnd = false then do
    let (ok, memdb) ← M.next iter.memdb
    return { iter with memdb := memdb, nextMemEnd := !ok }
  else return iter

def advanceBack : Result (JoinIter μ β) :=
  if iter.usesBack ∧ iter.nextBackEnd = false then do
    let (ok, backend) ← B.next iter.backend
    return { iter with backend := backend, nextBackEnd := !ok }
  else return iter

/-- The choice of the next entry once the iterators have moved on. -/
def choose : Bool × JoinIter μ β :=
  if iter.nextBackEnd then
    if iter.nextMemEnd then (false, { iter with key := [], value := [] })
    else (true, iter.takeMem M .fromMem)
  else if iter.nextMemEnd then (true, iter.takeBack B)
  else (true, iter.takeSmaller M B)

/-- `next`: to the next entry, deleted or not. -/
def rawNext : Result (Bool × JoinIter μ β) := do
  let iter ← iter.advanceMem M
  let iter ← iter.advanceBack B
  if (iter.error M B).isSome then return (false, iter) else return iter.choose M B

/-- The loop over deleted entries. -/
def skipDeleted : ℕ → JoinIter μ β → Result (Bool × JoinIter μ β)
  | 0, _ => .error unfinished
  | fuel + 1, iter =>
    if iter.value.length = 0 then do
      let (ok, iter) ← iter.rawNext M B
      if ok = false then return (false, iter) else skipDeleted fuel iter
    else return (true, iter)

def first (fuel : ℕ) (iter : JoinIter μ β) : Result (Bool × JoinIter μ β) := do
  let (ok, iter) ← iter.rawFirst M B
  if ok = false then return (false, iter) else skipDeleted M B fuel iter

def next (fuel : ℕ) (iter : JoinIter μ β) : Result (Bool × JoinIter μ β) := do
  let (ok, iter) ← iter.rawNext M B
  if ok = false then return (false, iter) else skipDeleted M B fuel iter

/-- The joined iterator, with a bound on the steps of its loops. -/
def ops (fuel : ℕ) : StoreIterator (JoinIter μ β) where
  first := first M B fuel
  next := next M B fuel
  key := key
  value := value
  error := error M B

end JoinIter

/-- The database iterator. -/
def DbIter.ops (p : MemDB) : StoreIterator DbIter where
  first := DbIter.first p
  next := DbIter.next p
  key := DbIter.key
  value := DbIter.value
  error := DbIter.err

/-- What an iterator shows after `First` and then after each of `n` calls of `Next`. -/
def StoreIterator.steps {σ : Type} (O : StoreIterator σ) : ℕ → σ → Result (List (Option (Bytes × Bytes)))
  | 0, _ => return []
  | n + 1, s => do
    let (ok, s) ← O.next s
    let rest ← O.steps n s
    return (if ok then some (O.key s, O.value s) else none) :: rest

def StoreIterator.enumerate {σ : Type} (O : StoreIterator σ) (n : ℕ) (s : σ) :
    Result (List (Option (Bytes × Bytes))) := do
  let (ok, s) ← O.first s
  let rest ← O.steps n s
  return (if ok then some (O.key s, O.value s) else none) :: rest

section Walks

/-- The key at the head of a list of entries, and the empty key at its end. -/
def headKey (l : List (Bytes × Bytes)) : Bytes := (l.head?.map Prod.fst).getD []

def headValue (l : List (Bytes × Bytes)) : Bytes := (l.head?.map Prod.snd).getD []

/-- States that stand at the head of what is still to be shown: a cursor that goes forward over a
snapshot, shows nothing at its end, and stays there. -/
structure StoreIterator.Walks {σ : Type} (O : StoreIterator σ)
    (R : σ → List (Bytes × Bytes) → Prop) : Prop where
  key : ∀ {s l}, R s l → O.key s = headKey l
  value : ∀ {s l}, R s l → O.value s = headValue l
  error : ∀ {s l}, R s l → O.error s = none
  next : ∀ {s l}, R s l → ∃ s', O.next s = .ok (decide (l.tail ≠ []), s') ∧ R s' l.tail

/-- `First` goes to the head of the list. -/
def StoreIterator.Opens {σ : Type} (O : StoreIterator σ) (R : σ → List (Bytes × Bytes) → Prop)
    (s : σ) (es : List (Bytes × Bytes)) : Prop :=
  ∃ s', O.first s = .ok (decide (es ≠ []), s') ∧ R s' es

/-- A cursor, not yet moved, over a snapshot that has the entries `es`. -/
def StoreIterator.CursorOver {σ : Type} (O : StoreIterator σ) (s : σ) (es : List (Bytes × Bytes)) :
    Prop :=
  ∃ R, O.Walks R ∧ O.Opens R s es

namespace StoreIterator

variable {σ : Type} {O : StoreIterator σ} {R : σ → List (Bytes × Bytes) → Prop}

theorem Walks.shows (hw : O.Walks R) {s : σ} {l} (h : R s l) :
    (if decide (l ≠ []) = true then some (O.key s, O.value s) else none) = l.head? := by
  rw [hw.key h, hw.value h]
  cases l <;> rfl

theorem Walks.steps_eq (hw : O.Walks R) {s : σ} {l} (h : R s l) (n : ℕ) :
    O.steps n s = .ok ((List.range n).map fun i => l[i + 1]?) := by
  induction n generalizing s l with
  | zero => rfl
  | succ n ih =>
    obtain ⟨s', hnext, h'⟩ := hw.next h
    rw [steps, hnext]
    simp only [ih h', ok_bind, hw.shows h', List.range_succ_eq_map, List.map_cons, List.map_map]
    cases l with
    | nil => rfl
    | cons x l =>
      rw [List.head?_eq_getElem?]
      rfl

theorem CursorOver.enumerate_eq {s : σ} {es} (h : O.CursorOver s es) (n : ℕ) :
    O.enumerate n s = .ok ((List.range (n + 1)).map fun i => es[i]?) := by
  obtain ⟨R, hw, s', hfirst, h'⟩ := h
  rw [enumerate, hfirst]
  simp only [hw.steps_eq h', ok_bind, hw.shows h']
  rw [Cursor.head_shown]
  rfl

end StoreIterator

/-- A database iterator walks forward over the entries in its range. -/
def DbIter.Standing (cells : List Cell) (slice : Option Range) (i : DbIter)
    (l : List (Bytes × Bytes)) : Prop :=
  (i.slice = slice ∧ i.released = false ∧ i.err = none) ∧
    ((l = [] ∧ i.At cells .after) ∨ ∃ b x r, l = x :: r ∧ i.At cells (.at b x r))

theorem DbIter.standing_enter {cells slice} {i i' : DbIter} {b l}
    (hi : i.slice = slice ∧ i.released = false ∧ i.err = none)
    (hkept : i'.slice = i.slice ∧ i'.released = i.released ∧ i'.err = i.err)
    (hat : i'.At cells (Cursor.enter b l)) : i'.Standing cells slice l := by
  refine ⟨⟨hkept.1.trans hi.1, hkept.2.1.trans hi.2.1, hkept.2.2.trans hi.2.2⟩, ?_⟩
  cases l with
  | nil => exact .inl ⟨rfl, hat⟩
  | cons x l => exact .inr ⟨b, x, l, rfl, hat⟩

theorem DbIter.ok_of_current {i : DbIter} {ok b l}
    (h : (if ok = true then some (i.key, i.value) else none) = (Cursor.enter b l).current) :
    ok = decide (l ≠ []) := by
  cases l with
  | nil =>
    cases ok with
    | false => rfl
    | true => cases h
  | cons x l =>
    cases ok with
    | false => cases h
    | true => rfl

variable {p : MemDB} {cells : List Cell}

theorem DbIter.walks (hrep : p.Rep cells) (slice : Option Range) :
    (DbIter.ops p).Walks (Standing cells slice) := by
  constructor
  · rintro i l ⟨-, ⟨rfl, hat⟩ | ⟨b, x, r, rfl, hat⟩⟩
    · exact hat.2.2.1
    · obtain ⟨lo, c, hi, -, -, -, hkey, -, -, rfl, -⟩ := hat
      exact hkey
  · rintro i l ⟨-, ⟨rfl, hat⟩ | ⟨b, x, r, rfl, hat⟩⟩
    · exact hat.2.2.2
    · obtain ⟨lo, c, hi, -, -, -, -, hvalue, -, rfl, -⟩ := hat
      exact hvalue
  · rintro i l ⟨⟨-, -, herr⟩, -⟩
    exact herr
  · rintro i l ⟨hi, ⟨rfl, hat⟩ | ⟨b, x, r, rfl, hat⟩⟩
    · obtain ⟨ok, i', hrun, hkept, hat', hshown⟩ := next_reaches hrep hi.2.1 hat
      refine ⟨i', ?_, standing_enter (b := []) hi hkept hat'⟩
      rw [← ok_of_current (b := []) hshown]
      exact hrun
    · obtain ⟨ok, i', hrun, hkept, hat', hshown⟩ := next_reaches hrep hi.2.1 hat
      refine ⟨i', ?_, standing_enter hi hkept hat'⟩
      rw [List.tail_cons, ← ok_of_current hshown]
      exact hrun

theorem DbIter.opens (hrep : p.Rep cells) (slice : Option Range) :
    (DbIter.ops p).Opens (Standing cells slice) (newIterator slice) (ranged slice cells) := by
  obtain ⟨ok, i', hrun, hkept, hat, hshown⟩ := first_reaches (i := newIterator slice) hrep rfl
  refine ⟨i', ?_, standing_enter ⟨rfl, rfl, rfl⟩ hkept hat⟩
  rw [show ranged slice cells = ranged (newIterator slice).slice cells from rfl,
    ← ok_of_current hshown]
  exact hrun

theorem MemDB.Represents.cursorOver {m} (h : p.Represents m) (slice : Option Range) :
    (DbIter.ops p).CursorOver (.newIterator slice)
      (m.entries.filter fun x => InRange slice x.1) := by
  obtain ⟨cells, hrep, hentries⟩ := h
  rw [← hentries, ← ranged_eq]
  exact ⟨_, DbIter.walks hrep slice, DbIter.opens hrep slice⟩

end Walks

/-- The entries that are not deletions. -/
def live (l : List (Bytes × Bytes)) : List (Bytes × Bytes) := l.filter fun x => x.2 ≠ []

theorem live_append (l₁ l₂ : List (Bytes × Bytes)) : live (l₁ ++ l₂) = live l₁ ++ live l₂ :=
  List.filter_append l₁ l₂

theorem mem_of_mem_live {x l} (h : x ∈ live l) : x ∈ l :=
  List.mem_of_mem_filter h

theorem live_of_nil (key : Bytes) : live [(key, [])] = [] := rfl

section Merge

variable {ms bs : List (Bytes × Bytes)}

/-- The head of the first list comes next; at its end there is an empty entry, which counts for
nothing. -/
theorem live_merge_left (h : bs = [] ∨ headKey ms < headKey bs) :
    live (merge ms bs) = live [(headKey ms, headValue ms)] ++ live (merge ms.tail bs) := by
  cases ms with
  | nil => rfl
  | cons m ms =>
    rw [← live_append]
    congr 1
    cases bs with
    | nil =>
      rw [merge_nil_right, merge_nil_right]
      rfl
    | cons b bs =>
      have hlt : m.1 < b.1 := h.resolve_left (List.cons_ne_nil b bs)
      rw [merge, if_pos hlt]
      rfl

theorem live_merge_right (h : ms = [] ∨ headKey bs < headKey ms) :
    live (merge ms bs) = live [(headKey bs, headValue bs)] ++ live (merge ms bs.tail) := by
  cases bs with
  | nil => rfl
  | cons b bs =>
    rw [← live_append]
    congr 1
    cases ms with
    | nil =>
      rw [merge_nil_left, merge_nil_left]
      rfl
    | cons m ms =>
      have hlt : b.1 < m.1 := h.resolve_left (List.cons_ne_nil m ms)
      rw [merge, if_neg hlt.asymm, if_neg hlt.ne']
      rfl

theorem live_merge_both (hkeys : ∀ x ∈ ms ++ bs, x.1 ≠ []) (h : headKey ms = headKey bs) :
    live (merge ms bs) = live [(headKey ms, headValue ms)] ++ live (merge ms.tail bs.tail) := by
  cases ms with
  | nil =>
    cases bs with
    | nil => rfl
    | cons b bs => exact absurd h.symm (hkeys b List.mem_cons_self)
  | cons m ms =>
    cases bs with
    | nil => exact absurd h (hkeys m List.mem_cons_self)
    | cons b bs =>
      have heq : m.1 = b.1 := h
      rw [← live_append, merge, if_neg heq.not_lt, if_pos heq]
      rfl

end Merge

namespace JoinIter

variable {μ β : Type} {M : StoreIterator μ} {B : StoreIterator β}
  {RM : μ → List (Bytes × Bytes) → Prop} {RB : β → List (Bytes × Bytes) → Prop}
  {iter : JoinIter μ β} {ms bs : List (Bytes × Bytes)}

/-- The iterators stand at `ms` and `bs`; one that is known to have ended has. -/
structure Ready (RM : μ → List (Bytes × Bytes) → Prop) (RB : β → List (Bytes × Bytes) → Prop)
    (iter : JoinIter μ β) (ms bs : List (Bytes × Bytes)) : Prop where
  mem : RM iter.memdb ms
  back : RB iter.backend bs
  memEnd : iter.nextMemEnd = true → ms = []
  backEnd : iter.nextBackEnd = true → bs = []

/-- With the current entry used up, `ms` and `bs` are left. -/
def Pending (RM : μ → List (Bytes × Bytes) → Prop) (RB : β → List (Bytes × Bytes) → Prop)
    (iter : JoinIter μ β) (ms bs : List (Bytes × Bytes)) : Prop :=
  ∃ lm lb, iter.Ready RM RB lm lb ∧ ms = (if iter.usesMem then lm.tail else lm) ∧
    bs = if iter.usesBack then lb.tail else lb

/-- Whether the memory side will be known to have ended after the next move. -/
def MemDone (iter : JoinIter μ β) (ms : List (Bytes × Bytes)) : Prop :=
  iter.nextMemEnd = true ∨ (iter.usesMem ∧ ms = [])

def BackDone (iter : JoinIter μ β) (bs : List (Bytes × Bytes)) : Prop :=
  iter.nextBackEnd = true ∨ (iter.usesBack ∧ bs = [])

instance : Decidable (iter.MemDone ms) := inferInstanceAs (Decidable (_ ∨ _))

instance : Decidable (iter.BackDone bs) := inferInstanceAs (Decidable (_ ∨ _))

/-- The moves that a list takes: its end counts until it is known. -/
def moves (l : List (Bytes × Bytes)) (done : Prop) [Decidable done] : ℕ :=
  l.length + if done then 0 else 1

variable {l : List (Bytes × Bytes)}

theorem moves_tail_lt {done done' : Prop} [Decidable done] [Decidable done'] (hopen : ¬ done)
    (h : l.tail = [] → done') : moves l.tail done' < moves l done := by
  rw [moves, moves, if_neg hopen]
  cases l with
  | nil =>
    rw [if_pos (h rfl)]
    exact Nat.one_pos
  | cons x l =>
    rw [List.tail_cons, List.length_cons]
    split_ifs <;> omega

theorem moves_mono {done done' : Prop} [Decidable done] [Decidable done'] (h : done → done') :
    moves l done' ≤ moves l done := by
  rw [moves, moves]
  by_cases hdone : done
  · rw [if_pos hdone, if_pos (h hdone)]
  · split_ifs <;> omega

/-- A bound on the moves that are left. -/
def weight (iter : JoinIter μ β) (ms bs : List (Bytes × Bytes)) : ℕ :=
  moves ms (iter.MemDone ms) + moves bs (iter.BackDone bs)

theorem advance_eq (hM : M.Walks RM) (hB : B.Walks RB) (h : iter.Pending RM RB ms bs) :
    ∃ iter', (do
        let iter ← iter.advanceMem M
        iter.advanceBack B) = .ok iter' ∧ iter'.Ready RM RB ms bs ∧
      (iter'.nextMemEnd = true ↔ iter.MemDone ms) ∧
      (iter'.nextBackEnd = true ↔ iter.BackDone bs) := by
  obtain ⟨lm, lb, hready, rfl, rfl⟩ := h
  obtain ⟨iter₁, hmem, hsame, hready₁, hdone₁⟩ : ∃ iter₁, iter.advanceMem M = .ok iter₁ ∧
      (iter₁.keyOrigin = iter.keyOrigin ∧ iter₁.nextBackEnd = iter.nextBackEnd) ∧
      iter₁.Ready RM RB (if iter.usesMem then lm.tail else lm) lb ∧
      (iter₁.nextMemEnd = true ↔ iter.MemDone (if iter.usesMem then lm.tail else lm)) := by
    rw [advanceMem, MemDone]
    by_cases huse : iter.usesMem
    · cases hend : iter.nextMemEnd with
      | true =>
        have hnil := hready.memEnd hend
        rw [if_neg (by simp), if_pos huse]
        refine ⟨iter, rfl, ⟨rfl, rfl⟩, ?_, by simp [hend]⟩
        subst hnil
        exact hready
      | false =>
        obtain ⟨s', hnext, hs'⟩ := hM.next hready.mem
        rw [if_pos ⟨huse, rfl⟩, hnext, if_pos huse]
        refine ⟨_, rfl, ⟨rfl, rfl⟩, ⟨hs', hready.back, ?_, hready.backEnd⟩, ?_⟩
        · simp
        · simp [huse]
    · rw [if_neg (fun hc => huse hc.1), if_neg huse]
      exact ⟨iter, rfl, ⟨rfl, rfl⟩, hready, by simp [huse]⟩
  have huses : iter₁.usesBack ↔ iter.usesBack := by rw [usesBack, usesBack, hsame.1]
  obtain ⟨iter₂, hback, hflag, hready₂, hdone₂⟩ : ∃ iter₂, iter₁.advanceBack B = .ok iter₂ ∧
      iter₂.nextMemEnd = iter₁.nextMemEnd ∧
      iter₂.Ready RM RB (if iter.usesMem then lm.tail else lm)
        (if iter.usesBack then lb.tail else lb) ∧
      (iter₂.nextBackEnd = true ↔ iter.BackDone (if iter.usesBack then lb.tail else lb)) := by
    rw [advanceBack, BackDone]
    by_cases huse : iter.usesBack
    · cases hend : iter.nextBackEnd with
      | true =>
        have hend₁ := hsame.2.trans hend
        have hnil := hready₁.backEnd hend₁
        rw [if_neg (by simp [hend₁]), if_pos huse]
        refine ⟨iter₁, rfl, rfl, ?_, by simp [hend₁]⟩
        subst hnil
        exact hready₁
      | false =>
        obtain ⟨s', hnext, hs'⟩ := hB.next hready₁.back
        rw [if_pos ⟨huses.mpr huse, hsame.2.trans hend⟩, hnext, if_pos huse]
        refine ⟨_, rfl, rfl, ⟨hready₁.mem, hs', hready₁.memEnd, ?_⟩, ?_⟩
        · simp
        · simp [huse]
    · rw [if_neg (fun hc => huse (huses.mp hc.1)), if_neg huse]
      exact ⟨iter₁, rfl, rfl, hready₁, by simp [huse, hsame.2]⟩
  exact ⟨iter₂, by rw [hmem, ok_bind, hback], hready₂, hflag ▸ hdone₁, hdone₂⟩

/-- With the current entry used up, the live entries `l` are left, within so many moves. -/
def Rest (RM : μ → List (Bytes × Bytes) → Prop) (RB : β → List (Bytes × Bytes) → Prop)
    (bound : ℕ) (iter : JoinIter μ β) (l : List (Bytes × Bytes)) : Prop :=
  ∃ ms bs, iter.Pending RM RB ms bs ∧ (∀ x ∈ ms ++ bs, x.1 ≠ []) ∧ l = live (merge ms bs) ∧
    iter.weight ms bs ≤ bound

/-- The current entry and what follows it make up `l`; a deletion counts for nothing. -/
def Shows (RM : μ → List (Bytes × Bytes) → Prop) (RB : β → List (Bytes × Bytes) → Prop)
    (bound : ℕ) (iter : JoinIter μ β) (l : List (Bytes × Bytes)) : Prop :=
  ∃ w < bound, ∃ rest, iter.Rest RM RB w rest ∧ l = live [(iter.key, iter.value)] ++ rest

/-- The joined iterator stands at the head of `l`. -/
def Stands (RM : μ → List (Bytes × Bytes) → Prop) (RB : β → List (Bytes × Bytes) → Prop)
    (bound : ℕ) (iter : JoinIter μ β) (l : List (Bytes × Bytes)) : Prop :=
  iter.key = headKey l ∧ iter.value = headValue l ∧ iter.Rest RM RB bound l.tail

theorem Rest.mono {bound bound' : ℕ} (h : iter.Rest RM RB bound l) (hle : bound ≤ bound') :
    iter.Rest RM RB bound' l := by
  obtain ⟨ms, bs, hpending, hkeys, hl, hw⟩ := h
  exact ⟨ms, bs, hpending, hkeys, hl, hw.trans hle⟩

theorem Shows.mono {bound bound' : ℕ} (h : iter.Shows RM RB bound l) (hle : bound ≤ bound') :
    iter.Shows RM RB bound' l := by
  obtain ⟨w, hw, rest⟩ := h
  exact ⟨w, hw.trans_le hle, rest⟩

theorem Ready.error_eq (hM : M.Walks RM) (hB : B.Walks RB) (h : iter.Ready RM RB ms bs) :
    iter.error M B = none := by
  rw [error, hB.error h.back, hM.error h.mem]
  rfl

/-- Once an entry is taken, the sides it came from have one move less to make. -/
theorem Ready.shows (h : iter.Ready RM RB ms bs) (hkeys : ∀ x ∈ ms ++ bs, x.1 ≠ [])
    {key value origin j} (hj : j = { iter with key := key, value := value, keyOrigin := origin })
    (hmem : j.usesMem → ¬ iter.nextMemEnd = true) (hback : j.usesBack → ¬ iter.nextBackEnd = true)
    (hlive : live (merge ms bs) = live [(key, value)] ++
      live (merge (if j.usesMem then ms.tail else ms) (if j.usesBack then bs.tail else bs))) :
    j.Shows RM RB (moves ms (iter.nextMemEnd = true) + moves bs (iter.nextBackEnd = true))
      (live (merge ms bs)) := by
  have hmemEnd : j.nextMemEnd = iter.nextMemEnd := by rw [hj]
  have hbackEnd : j.nextBackEnd = iter.nextBackEnd := by rw [hj]
  have hready : j.Ready RM RB ms bs := by
    subst hj
    exact ⟨h.mem, h.back, h.memEnd, h.backEnd⟩
  refine ⟨_, ?_, _, ⟨_, _, ⟨ms, bs, hready, rfl, rfl⟩, fun x hx => hkeys x ?_, rfl, le_rfl⟩, ?_⟩
  · have hmoved : j.usesMem ∨ j.usesBack := by
      rw [usesMem, usesBack]
      cases j.keyOrigin <;> simp
    by_cases hm : j.usesMem
    · rw [if_pos hm]
      refine add_lt_add_of_lt_of_le (moves_tail_lt (hmem hm) fun hnil => .inr ⟨hm, hnil⟩) ?_
      split_ifs with hb
      · exact (moves_tail_lt (hback hb) fun hnil => .inr ⟨hb, hnil⟩).le
      · exact moves_mono fun he => .inl (hbackEnd.trans he)
    · have hb := hmoved.resolve_left hm
      rw [if_neg hm, if_pos hb]
      exact add_lt_add_of_le_of_lt (moves_mono fun he => .inl (hmemEnd.trans he))
        (moves_tail_lt (hback hb) fun hnil => .inr ⟨hb, hnil⟩)
  · rw [List.mem_append] at hx ⊢
    refine hx.imp (fun hx => ?_) fun hx => ?_
    · split_ifs at hx
      · exact List.mem_of_mem_tail hx
      · exact hx
    · split_ifs at hx
      · exact List.mem_of_mem_tail hx
      · exact hx
  · rw [hlive, hj]

section Take

variable (hM : M.Walks RM) (hB : B.Walks RB) (h : iter.Ready RM RB ms bs)
  (hkeys : ∀ x ∈ ms ++ bs, x.1 ≠ [])

include hM h hkeys

theorem shows_takeMem (hopen : ¬ iter.nextMemEnd = true) (hfront : bs = [] ∨ headKey ms < headKey bs) :
    (iter.takeMem M .fromMem).Shows RM RB
      (moves ms (iter.nextMemEnd = true) + moves bs (iter.nextBackEnd = true))
      (live (merge ms bs)) := by
  refine h.shows hkeys rfl (fun _ => hopen) ?_ ?_
  · rintro (hc | hc) <;> cases hc
  · rw [hM.key h.mem, hM.value h.mem]
    exact live_merge_left hfront

omit hM
include hB

theorem shows_takeBack (hopen : ¬ iter.nextBackEnd = true)
    (hfront : ms = [] ∨ headKey bs < headKey ms) :
    (iter.takeBack B).Shows RM RB
      (moves ms (iter.nextMemEnd = true) + moves bs (iter.nextBackEnd = true))
      (live (merge ms bs)) := by
  refine h.shows hkeys rfl ?_ (fun _ => hopen) ?_
  · rintro (hc | hc) <;> cases hc
  · rw [hB.key h.back, hB.value h.back]
    exact live_merge_right hfront

include hM

theorem shows_takeSmaller (hmem : ¬ iter.nextMemEnd = true) (hback : ¬ iter.nextBackEnd = true) :
    (iter.takeSmaller M B).Shows RM RB
      (moves ms (iter.nextMemEnd = true) + moves bs (iter.nextBackEnd = true))
      (live (merge ms bs)) := by
  rw [takeSmaller, hM.key h.mem, hB.key h.back]
  rcases lt_trichotomy (headKey ms) (headKey bs) with hlt | heq | hgt
  · rw [compareBytes_eq_lt.mpr hlt]
    exact shows_takeMem hM h hkeys hmem (.inr hlt)
  · rw [compareBytes_eq_eq.mpr heq]
    refine h.shows hkeys rfl (fun _ => hmem) (fun _ => hback) ?_
    rw [hM.key h.mem, hM.value h.mem]
    exact live_merge_both hkeys heq
  · rw [compareBytes_eq_gt.mpr hgt]
    exact shows_takeBack hB h hkeys hback (.inr hgt)

/-- Once the iterators have moved on, the join has ended or shows what comes next. -/
theorem choose_cases :
    (∃ j, iter.choose M B = (false, j) ∧ live (merge ms bs) = [] ∧ j.Stands RM RB 0 []) ∨
      ∃ j, iter.choose M B = (true, j) ∧ j.Shows RM RB
        (moves ms (iter.nextMemEnd = true) + moves bs (iter.nextBackEnd = true))
        (live (merge ms bs)) := by
  rw [choose]
  by_cases hback : iter.nextBackEnd = true
  · have hbs := h.backEnd hback
    by_cases hmem : iter.nextMemEnd = true
    · have hms := h.memEnd hmem
      subst hms hbs
      rw [if_pos hback, if_pos hmem]
      refine .inl ⟨_, rfl, by rw [merge_nil_left]; rfl, rfl, rfl, [], [], ⟨[], [], ⟨h.mem, h.back,
        h.memEnd, h.backEnd⟩, ?_, ?_⟩, nofun, ?_, ?_⟩
      · split_ifs <;> rfl
      · split_ifs <;> rfl
      · rw [merge_nil_left]
        rfl
      · rw [weight, moves, moves, if_pos (.inl hmem), if_pos (.inl hback)]
        exact le_rfl
    · rw [if_pos hback, if_neg hmem]
      exact .inr ⟨_, rfl, shows_takeMem hM h hkeys hmem (.inl hbs)⟩
  · split_ifs with hmem
    · exact .inr ⟨_, rfl, shows_takeBack hB h hkeys hback (.inl (h.memEnd hmem))⟩
    · exact .inr ⟨_, rfl, shows_takeSmaller hM hB h hkeys hmem hback⟩

end Take

variable (hM : M.Walks RM) (hB : B.Walks RB) {bound : ℕ} {l : List (Bytes × Bytes)}

include hM hB

theorem rawNext_cases (h : iter.Rest RM RB bound l) :
    (∃ j, iter.rawNext M B = .ok (false, j) ∧ l = [] ∧ j.Stands RM RB 0 []) ∨
      ∃ j, iter.rawNext M B = .ok (true, j) ∧ j.Shows RM RB bound l := by
  obtain ⟨ms, bs, hpending, hkeys, rfl, hweight⟩ := h
  obtain ⟨iter', hadvance, hready, hmem, hback⟩ := advance_eq hM hB hpending
  have hrun : iter.rawNext M B = .ok (iter'.choose M B) := by
    obtain ⟨iter₁, hfirst, hsecond⟩ := bind_ok.mp hadvance
    rw [rawNext, hfirst, ok_bind, hsecond, ok_bind, hready.error_eq hM hB]
    rfl
  have hle : moves ms (iter'.nextMemEnd = true) + moves bs (iter'.nextBackEnd = true) ≤ bound :=
    (add_le_add (moves_mono hmem.mpr) (moves_mono hback.mpr)).trans hweight
  rcases choose_cases hM hB hready hkeys with ⟨j, hchoose, hnil, hstands⟩ | ⟨j, hchoose, hshows⟩
  · exact .inl ⟨j, by rw [hrun, hchoose], hnil, hstands⟩
  · exact .inr ⟨j, by rw [hrun, hchoose], hshows.mono hle⟩

omit hM hB in
theorem Stands.mono {bound' : ℕ} (h : iter.Stands RM RB bound l) (hle : bound ≤ bound') :
    iter.Stands RM RB bound' l :=
  ⟨h.1, h.2.1, h.2.2.mono hle⟩

/-- The loop comes to the head of what is left; each round uses up one of the moves. -/
theorem skipDeleted_eq (h : iter.Shows RM RB bound l) :
    ∃ j, skipDeleted M B bound iter = .ok (decide (l ≠ []), j) ∧ j.Stands RM RB bound l := by
  induction bound generalizing iter l with
  | zero =>
    obtain ⟨w, hw, -⟩ := h
    cases hw
  | succ bound ih =>
    obtain ⟨w, hw, rest, hrest, rfl⟩ := h
    have hrest := hrest.mono (Nat.le_of_lt_succ hw)
    rw [skipDeleted]
    by_cases hvalue : iter.value = []
    · rw [hvalue, live_of_nil]
      rcases rawNext_cases hM hB hrest with ⟨j, hrun, rfl, hstands⟩ | ⟨j, hrun, hshows⟩
      · rw [hrun]
        exact ⟨j, rfl, hstands.mono bound.succ.zero_le⟩
      · obtain ⟨j', hskip, hstands⟩ := ih hshows
        rw [hrun]
        exact ⟨j', hskip, hstands.mono bound.le_succ⟩
    · rw [if_neg fun hlen => hvalue (List.length_eq_zero_iff.mp hlen), live,
        List.filter_cons_of_pos (by simpa using hvalue)]
      exact ⟨iter, rfl, rfl, rfl, hrest.mono bound.le_succ⟩

/-- The join of two iterators walks over the live entries of the merge of what they walk over. -/
theorem walks (bound : ℕ) : (JoinIter.ops M B bound).Walks (Stands RM RB bound) := by
  constructor
  · intro iter l h
    exact h.1
  · intro iter l h
    exact h.2.1
  · rintro iter l ⟨-, -, ms, bs, ⟨lm, lb, hready, -, -⟩, -, -, -⟩
    exact hready.error_eq hM hB
  · intro iter l h
    rcases rawNext_cases hM hB h.2.2 with ⟨j, hrun, hnil, hstands⟩ | ⟨j, hrun, hshows⟩
    · refine ⟨j, ?_, hnil ▸ hstands.mono bound.zero_le⟩
      change JoinIter.next M B bound iter = _
      rw [JoinIter.next, hrun, hnil]
      rfl
    · obtain ⟨j', hskip, hstands⟩ := skipDeleted_eq hM hB hshows
      refine ⟨j', ?_, hstands⟩
      change JoinIter.next M B bound iter = _
      rw [JoinIter.next, hrun]
      exact hskip

/-- Both sides go to their first entries; neither is known to have ended. -/
theorem rawFirst_cases {m₀ : μ} {b₀ : β} (hm : M.Opens RM m₀ ms) (hb : B.Opens RB b₀ bs)
    (hkeys : ∀ x ∈ ms ++ bs, x.1 ≠ []) :
    (∃ j, (newJoinIter m₀ b₀).rawFirst M B = .ok (false, j) ∧ live (merge ms bs) = [] ∧
      j.Stands RM RB 1 []) ∨
      ∃ j, (newJoinIter m₀ b₀).rawFirst M B = .ok (true, j) ∧
        j.Shows RM RB (ms.length + bs.length + 2) (live (merge ms bs)) := by
  obtain ⟨m₁, hmrun, hm₁⟩ := hm
  obtain ⟨b₁, hbrun, hb₁⟩ := hb
  have hready : (newJoinIter m₁ b₁).Ready RM RB ms bs := ⟨hm₁, hb₁, nofun, nofun⟩
  have hmoves : moves ms ((newJoinIter m₁ b₁).nextMemEnd = true) +
      moves bs ((newJoinIter m₁ b₁).nextBackEnd = true) = ms.length + bs.length + 2 := by
    change ms.length + 1 + (bs.length + 1) = _
    omega
  have hrun : (newJoinIter m₀ b₀).rawFirst M B = .ok (if decide (bs ≠ []) = true then
      if decide (ms ≠ []) = false then (true, (newJoinIter m₁ b₁).takeBack B)
      else (true, (newJoinIter m₁ b₁).takeSmaller M B)
    else if decide (ms ≠ []) = true then (true, (newJoinIter m₁ b₁).takeMem M .fromMem)
    else (false, newJoinIter m₁ b₁)) := by
    have herror := hready.error_eq hM hB
    rw [rawFirst, show (newJoinIter m₀ b₀).backend = b₀ from rfl, hbrun,
      show (newJoinIter m₀ b₀).memdb = m₀ from rfl]
    simp only [hmrun, ok_bind]
    rw [if_neg (by change ¬ ((newJoinIter m₁ b₁).error M B).isSome = true; rw [herror]; simp)]
    split_ifs <;> rfl
  rw [hrun]
  by_cases hbs : bs = []
  · rw [if_neg (by simpa using hbs)]
    by_cases hms : ms = []
    · subst hms hbs
      refine .inl ⟨_, rfl, by rw [merge_nil_left]; rfl, rfl, rfl, [], [], ⟨[], [], hready, rfl, rfl⟩,
        nofun, by rw [merge_nil_left]; rfl, le_rfl⟩
    · rw [if_pos (by simpa using hms)]
      exact .inr ⟨_, rfl, hmoves ▸ shows_takeMem hM hready hkeys nofun (.inl hbs)⟩
  · rw [if_pos (by simpa using hbs)]
    by_cases hms : ms = []
    · rw [if_pos (by simpa using hms)]
      exact .inr ⟨_, rfl, hmoves ▸ shows_takeBack hB hready hkeys nofun (.inl hms)⟩
    · rw [if_neg (by simpa using hms)]
      exact .inr ⟨_, rfl, hmoves ▸ shows_takeSmaller hM hB hready hkeys nofun nofun⟩

theorem opens {m₀ : μ} {b₀ : β} (hm : M.Opens RM m₀ ms) (hb : B.Opens RB b₀ bs)
    (hkeys : ∀ x ∈ ms ++ bs, x.1 ≠ []) (hbound : ms.length + bs.length + 2 ≤ bound) :
    (JoinIter.ops M B bound).Opens (Stands RM RB bound) (newJoinIter m₀ b₀)
      (live (merge ms bs)) := by
  change ∃ s', JoinIter.first M B bound (newJoinIter m₀ b₀) = _ ∧ _
  rw [JoinIter.first]
  rcases rawFirst_cases hM hB hm hb hkeys with ⟨j, hrun, hnil, hstands⟩ | ⟨j, hrun, hshows⟩
  · rw [hrun, hnil]
    exact ⟨j, rfl, hstands.mono (by omega)⟩
  · obtain ⟨j', hskip, hstands⟩ := skipDeleted_eq hM hB (hshows.mono hbound)
    rw [hrun]
    exact ⟨j', hskip, hstands⟩

omit hM hB

/-- The join of two cursors is one over the live entries of their merge. -/
theorem cursorOver {m₀ : μ} {b₀ : β} (hm : M.CursorOver m₀ ms) (hb : B.CursorOver b₀ bs)
    (hkeys : ∀ x ∈ ms ++ bs, x.1 ≠ []) (hbound : ms.length + bs.length + 2 ≤ bound) :
    (JoinIter.ops M B bound).CursorOver (newJoinIter m₀ b₀) (live (merge ms bs)) := by
  obtain ⟨RM, hM, hm⟩ := hm
  obtain ⟨RB, hB, hb⟩ := hb
  exact ⟨_, walks hM hB bound, opens hM hB hm hb hkeys hbound⟩

/-- A join whose second side is a join itself; both loops are given the same number of steps. -/
theorem cursorOver_nested {σ : Type} {S} {m₀ : μ} {b₀ : β} {s₀ : σ} {ss} (hm : M.CursorOver m₀ ms)
    (hb : B.CursorOver b₀ bs) (hs : S.CursorOver s₀ ss) (hkeys : ∀ x ∈ ms ++ (bs ++ ss), x.1 ≠ []) :
    ∃ bound, ∀ fuel ≥ bound,
      (JoinIter.ops M (JoinIter.ops B S fuel) fuel).CursorOver (newJoinIter m₀ (newJoinIter b₀ s₀))
        (live (merge ms (live (merge bs ss)))) := by
  refine ⟨(bs.length + ss.length + 2) + (ms.length + (live (merge bs ss)).length + 2),
    fun fuel hfuel => ?_⟩
  have hinner := cursorOver hb hs (fun x hx => hkeys x (List.mem_append_right ms hx))
    (show bs.length + ss.length + 2 ≤ fuel by omega)
  refine cursorOver hm hinner (fun x hx => hkeys x ?_) (by omega)
  rw [List.mem_append, List.mem_append] at *
  exact hx.imp_right fun hx => mem_merge (mem_of_mem_live hx)

end JoinIter

end Poly.Overlaydb
