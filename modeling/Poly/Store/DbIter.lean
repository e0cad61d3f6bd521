import Poly.Store.SkipPut
import Poly.Lib.ListCursor

/-! Iterators over the in-memory database, and the database as a finite map with deletion marks. -/
namespace Poly.Overlaydb

open Lib List

/-- The keys from `start` up to but not including `limit`; one that is absent does not bound. -/
structure Range where
  start : Option Bytes
  limit : Option Bytes
  deriving DecidableEq

def ErrIterReleased : String := "leveldb/memdb: iterator released"

structure DbIter where
  slice : Option Range
  node : ℕ
  forward : Bool
  key : Bytes
  value : Bytes
  released : Bool
  err : Option String
  deriving DecidableEq

namespace DbIter

def newIterator (slice : Option Range) : DbIter := ⟨slice, 0, false, [], [], false, none⟩

def start (i : DbIter) : Option Bytes := i.slice.bind Range.start

def limit (i : DbIter) : Option Bytes := i.slice.bind Range.limit

/-- The key is on the wrong side of a bound that is checked. -/
def outside (i : DbIter) (key : Bytes) (checkStart checkLimit : Bool) : Prop :=
  (checkLimit = true ∧ ∃ limit ∈ i.limit, compareBytes key limit ≠ .lt) ∨
    (checkStart = true ∧ ∃ start ∈ i.start, compareBytes key start = .lt)

instance (i : DbIter) (key : Bytes) (checkStart checkLimit : Bool) :
    Decidable (i.outside key checkStart checkLimit) :=
  inferInstanceAs (Decidable (_ ∨ _))

variable (p : MemDB)

def fill (i : DbIter) (checkStart checkLimit : Bool) : Result (Bool × DbIter) :=
  if i.node ≠ 0 then do
    let n ← goIndex p.nodeData i.node
    let len ← goIndex p.nodeData (i.node + nKey)
    let key ← goSlice p.kvData n (n + len)
    if i.outside key checkStart checkLimit then
      return (false, { i with node := 0, key := [], value := [] })
    else
      let valen ← goIndex p.nodeData (i.node + nVal)
      let value ← goSlice p.kvData (n + len) (n + len + valen)
      return (true, { i with key := key, value := value })
  else return (false, { i with key := [], value := [] })

/-- A move on a released iterator. -/
def failReleased (i : DbIter) : Bool × DbIter := (false, { i with err := some ErrIterReleased })

def firstNode (i : DbIter) : Result ℕ :=
  match i.start with
  | some start => do
    let (node, _, _) ← p.findGE start false
    return node
  | none => goIndex p.nodeData nNext

def first (i : DbIter) : Result (Bool × DbIter) :=
  if i.released then return i.failReleased else do
    let node ← i.firstNode p
    fill p { i with forward := true, node := node } false true

def lastNode (i : DbIter) : Result ℕ :=
  match i.limit with
  | some limit => p.findLT limit
  | none => p.findLast

def last (i : DbIter) : Result (Bool × DbIter) :=
  if i.released then return i.failReleased else do
    let node ← i.lastNode p
    fill p { i with forward := false, node := node } true false

/-- The key that is looked for: not one before the start of the range. -/
def seekKey (i : DbIter) (key : Bytes) : Bytes :=
  match i.start with
  | some start => if compareBytes key start = .lt then start else key
  | none => key

def seek (i : DbIter) (key : Bytes) : Result (Bool × DbIter) :=
  if i.released then return i.failReleased else do
    let (node, _, _) ← p.findGE (i.seekKey key) false
    fill p { i with forward := true, node := node } false true

def next (i : DbIter) : Result (Bool × DbIter) :=
  if i.released then return i.failReleased
  else if i.node = 0 then
    if i.forward = false then i.first p else return (false, i)
  else do
    let node ← goIndex p.nodeData (i.node + nNext)
    fill p { i with forward := true, node := node } false true

def prev (i : DbIter) : Result (Bool × DbIter) :=
  if i.released then return i.failReleased
  else if i.node = 0 then
    if i.forward then i.last p else return (false, i)
  else do
    let node ← p.findLT i.key
    fill p { i with forward := false, node := node } true false

def release (i : DbIter) : DbIter :=
  if i.released then i else { i with node := 0, key := [], value := [], released := true }

def move (i : DbIter) : Cursor.Move Bytes → Result (Bool × DbIter)
  | .first => i.first p
  | .last => i.last p
  | .seek key => i.seek p key
  | .next => i.next p
  | .prev => i.prev p

/-- What an iterator shows after each of some moves: its key and value where the move returns
true. -/
def shown (p : MemDB) : DbIter → List (Cursor.Move Bytes) → Result (List (Option (Bytes × Bytes)))
  | _, [] => return []
  | i, m :: ms => do
    let (ok, i) ← i.move p m
    let rest ← shown p i ms
    return (if ok then some (i.key, i.value) else none) :: rest

end DbIter

/-- The keys that a range takes in. -/
def InRange (slice : Option Range) (key : Bytes) : Prop :=
  (∀ start ∈ slice.bind Range.start, start ≤ key) ∧ ∀ limit ∈ slice.bind Range.limit, key < limit

instance (slice : Option Range) : DecidablePred (InRange slice) := fun _ =>
  inferInstanceAs (Decidable (_ ∧ _))

section Ranged

variable {slice : Option Range} {s s₁ s₂ : List Cell} {c : Cell}

/-- The entries of the cells in a range. -/
def ranged (slice : Option Range) (cells : List Cell) : List (Bytes × Bytes) :=
  (cells.filter fun c => InRange slice c.key).map Cell.entry

theorem ranged_append : ranged slice (s₁ ++ s₂) = ranged slice s₁ ++ ranged slice s₂ := by
  rw [ranged, filter_append, map_append]
  rfl

theorem ranged_cons_of_mem (h : InRange slice c.key) :
    ranged slice (c :: s) = c.entry :: ranged slice s := by
  rw [ranged, filter_cons_of_pos (by simpa using h)]
  rfl

theorem ranged_eq_nil (h : ∀ c ∈ s, ¬ InRange slice c.key) : ranged slice s = [] := by
  rw [ranged, filter_eq_nil_iff.mpr fun c hc => by simpa using h c hc, map_nil]

theorem ranged_eq (cells : List Cell) :
    ranged slice cells = (cells.map Cell.entry).filter fun x => InRange slice x.1 := by
  rw [filter_map]
  rfl

end Ranged

namespace DbIter

/-- The iterator stands where the cursor does. -/
def At (cells : List Cell) (i : DbIter) : Cursor (Bytes × Bytes) → Prop
  | .before => i.node = 0 ∧ i.forward = false ∧ i.key = [] ∧ i.value = []
  | .after => i.node = 0 ∧ i.forward = true ∧ i.key = [] ∧ i.value = []
  | .at l x r => ∃ lo c hi, cells = lo ++ c :: hi ∧ InRange i.slice c.key ∧ i.node = c.pos ∧
      i.key = c.key ∧ i.value = c.value ∧
      l = (ranged i.slice lo).reverse ∧ x = c.entry ∧ r = ranged i.slice hi

/-- A move comes to a place of the cursor and tells whether there is an entry. -/
def Reaches (cells : List Cell) (i : DbIter) (run : Result (Bool × DbIter))
    (cur : Cursor (Bytes × Bytes)) : Prop :=
  ∃ ok i', run = .ok (ok, i') ∧ (i'.slice = i.slice ∧ i'.released = i.released ∧ i'.err = i.err) ∧
    i'.At cells cur ∧ (if ok then some (i'.key, i'.value) else none) = cur.current

variable {p : MemDB} {cells lo hi : List Cell} {i : DbIter}

theorem fill_eq (hrep : p.Rep cells) {c} (hc : c ∈ cells) (hnode : i.node = c.pos)
    (checkStart checkLimit : Bool) : fill p i checkStart checkLimit =
      .ok (if i.outside c.key checkStart checkLimit then
        (false, { i with node := 0, key := [], value := [] })
      else (true, { i with key := c.key, value := c.value })) := by
  obtain ⟨o, ho, hlen, hval, hstored⟩ := hrep.cellAt c hc
  rw [fill, hnode, if_pos (hrep.pos_ne_zero hc), goIndex_ok.mpr ho, ok_bind,
    goIndex_ok.mpr hlen, ok_bind, hstored.key_eq, ok_bind]
  split_ifs
  · rfl
  · rw [goIndex_ok.mpr hval, ok_bind, hstored.value_eq]
    rfl

/-- Going on to the right from behind `lo`, which ends at the start of the range at least. -/
theorem fill_forward (hrep : p.Rep (lo ++ hi)) (hfwd : i.forward = true)
    (hnode : i.node = levelNext 0 hi) (hstart : ∀ c ∈ hi, ∀ start ∈ i.start, start ≤ c.key) :
    i.Reaches (lo ++ hi) (fill p i false true)
      (Cursor.enter (ranged i.slice lo).reverse (ranged i.slice hi)) := by
  have hpos := hrep.levelNext_zero (s := hi) fun d hd => mem_append_right _ hd
  cases hi with
  | nil =>
    have hzero : i.node = 0 := hnode.trans hpos
    refine ⟨false, { i with key := [], value := [] }, ?_, ⟨rfl, rfl, rfl⟩, ⟨hzero, hfwd, rfl, rfl⟩, rfl⟩
    rw [fill, if_neg (not_not.mpr hzero)]
    rfl
  | cons c hi =>
    have hc : c ∈ lo ++ c :: hi := mem_append_right _ mem_cons_self
    have hfill := fill_eq hrep hc (hnode.trans hpos) false true
    obtain ⟨hafter, -⟩ := pairwise_cons.mp (pairwise_append.mp hrep.sorted).2.1
    by_cases hout : i.outside c.key false true
    · -- this key is past the limit, and so are all that follow
      rw [if_pos hout] at hfill
      obtain ⟨-, limit, hlimit, hge⟩ | ⟨hfalse, -⟩ := hout
      · have hle : limit ≤ c.key := not_lt.mp fun hlt => hge (compareBytes_eq_lt.mpr hlt)
        have hnone : ranged i.slice (c :: hi) = [] := by
          refine ranged_eq_nil fun d hd hin => ?_
          have hlt : d.key < limit := hin.2 limit hlimit
          rcases mem_cons.mp hd with rfl | hd
          · exact absurd hlt (not_lt.mpr hle)
          · exact absurd (hlt.trans_le hle) (not_lt.mpr (hafter d hd).le)
        rw [hnone]
        exact ⟨false, _, hfill, ⟨rfl, rfl, rfl⟩, ⟨rfl, hfwd, rfl, rfl⟩, rfl⟩
      · cases hfalse
    · rw [if_neg hout] at hfill
      have hin : InRange i.slice c.key := by
        refine ⟨hstart c mem_cons_self, fun limit hlimit => ?_⟩
        by_contra hge
        exact hout (.inl ⟨rfl, limit, hlimit, fun he => hge (compareBytes_eq_lt.mp he)⟩)
      rw [ranged_cons_of_mem hin]
      exact ⟨true, _, hfill, ⟨rfl, rfl, rfl⟩,
        ⟨lo, c, hi, rfl, hin, hnode.trans hpos, rfl, rfl, rfl, rfl, rfl⟩, rfl⟩

/-- Going on to the left from before `hi`, which begins at the limit of the range at most. -/
theorem fill_backward (hrep : p.Rep (lo ++ hi)) (hfwd : i.forward = false)
    (hnode : i.node = levelPred 0 lo) (hlimit : ∀ c ∈ lo, ∀ limit ∈ i.limit, c.key < limit) :
    i.Reaches (lo ++ hi) (fill p i true false)
      (Cursor.leave (ranged i.slice hi) (ranged i.slice lo).reverse) := by
  have hpos := hrep.levelPred_zero (s := lo) fun d hd => mem_append_left _ hd
  rcases eq_nil_or_concat lo with rfl | ⟨lo, c, rfl⟩
  · have hzero : i.node = 0 := hnode.trans hpos
    refine ⟨false, { i with key := [], value := [] }, ?_, ⟨rfl, rfl, rfl⟩, ⟨hzero, hfwd, rfl, rfl⟩, rfl⟩
    rw [fill, if_neg (not_not.mpr hzero)]
    rfl
  · rw [concat_eq_append] at hrep hnode hlimit hpos ⊢
    rw [getLast?_concat] at hpos
    have hc : c ∈ lo ++ [c] ++ hi := by simp
    have hfill := fill_eq hrep hc (hnode.trans hpos) true false
    have hsorted := (pairwise_append.mp (pairwise_append.mp hrep.sorted).1).2.2
    split_ifs at hfill with hout
    · obtain ⟨hfalse, -⟩ | ⟨-, start, hstart, hlt⟩ := hout
      · cases hfalse
      · have hnone : ranged i.slice (lo ++ [c]) = [] := by
          refine ranged_eq_nil fun d hd hin => ?_
          have hle : start ≤ d.key := hin.1 start hstart
          have hck := compareBytes_eq_lt.mp hlt
          rcases mem_append.mp hd with hd | hd
          · exact absurd (hsorted d hd c mem_cons_self) (not_lt.mpr (hck.trans_le hle).le)
          · cases mem_singleton.mp hd
            exact absurd hck (not_lt.mpr hle)
        rw [hnone]
        exact ⟨false, _, hfill, ⟨rfl, rfl, rfl⟩, ⟨rfl, hfwd, rfl, rfl⟩, rfl⟩
    · have hin : InRange i.slice c.key := by
        refine ⟨fun start hstart => ?_, hlimit c (by simp)⟩
        by_contra hlt
        exact hout (.inr ⟨rfl, start, hstart, compareBytes_eq_lt.mpr (not_le.mp hlt)⟩)
      have hlast : ranged i.slice (lo ++ [c]) = ranged i.slice lo ++ [c.entry] := by
        rw [ranged_append, ranged_cons_of_mem hin]
        rfl
      rw [hlast, reverse_concat]
      exact ⟨true, _, hfill, ⟨rfl, rfl, rfl⟩, ⟨lo, c, hi, by simp, hin, hnode.trans hpos, rfl, rfl,
        rfl, rfl, rfl⟩, rfl⟩

theorem first_reaches (hrep : p.Rep cells) (hopen : i.released = false) :
    i.Reaches cells (i.first p) (Cursor.enter [] (ranged i.slice cells)) := by
  obtain ⟨lo, hi, rfl, hnode, hlo, hstart⟩ : ∃ lo hi, cells = lo ++ hi ∧
      i.firstNode p = .ok (levelNext 0 hi) ∧ ranged i.slice lo = [] ∧
      ∀ c ∈ hi, ∀ start ∈ i.start, start ≤ c.key := by
    rw [firstNode]
    cases hs : i.start with
    | none =>
      refine ⟨[], cells, rfl, goIndex_ok.mpr ?_, rfl, fun c _ start hm => nomatch hm⟩
      exact hrep.next_eq (l := []) (c := Cell.head) (h := 0) rfl (by decide)
    | some start =>
      obtain ⟨lo, hi, rfl, hlo, hhi⟩ := hrep.exists_split start
      obtain ⟨prevNode, hfind, -, -⟩ := hrep.findGE_eq hlo hhi false
      refine ⟨lo, hi, rfl, bind_ok.mpr ⟨_, hfind, rfl⟩, ranged_eq_nil fun c hc hin => ?_, ?_⟩
      · exact absurd (hlo c hc) (not_lt.mpr (hin.1 start hs))
      · intro c hc start' hm
        cases hm
        exact hhi c hc
  rw [first, if_neg (by rw [hopen]; decide), hnode, ranged_append, hlo]
  have hfill := fill_forward (i := { i with forward := true, node := levelNext 0 hi }) hrep rfl rfl
    hstart
  rwa [show ranged _ lo = [] from hlo] at hfill

theorem last_reaches (hrep : p.Rep cells) (hopen : i.released = false) :
    i.Reaches cells (i.last p) (Cursor.leave [] (ranged i.slice cells).reverse) := by
  obtain ⟨lo, hi, rfl, hnode, hhi, hlimit⟩ : ∃ lo hi, cells = lo ++ hi ∧
      i.lastNode p = .ok (levelPred 0 lo) ∧ ranged i.slice hi = [] ∧
      ∀ c ∈ lo, ∀ limit ∈ i.limit, c.key < limit := by
    rw [lastNode]
    cases hs : i.limit with
    | none =>
      refine ⟨cells, [], (append_nil _).symm, hrep.findLast_eq, rfl, ?_⟩
      intro c _ limit hm
      cases hm
    | some limit =>
      obtain ⟨lo, hi, rfl, hlo, hhi⟩ := hrep.exists_split limit
      refine ⟨lo, hi, rfl, hrep.findLT_eq hlo hhi, ranged_eq_nil fun c hc hin => ?_, ?_⟩
      · exact absurd (hin.2 limit hs) (not_lt.mpr (hhi c hc))
      · intro c hc limit' hm
        cases hm
        exact hlo c hc
  rw [last, if_neg (by rw [hopen]; decide), hnode, ranged_append, hhi, append_nil]
  have hfill := fill_backward (i := { i with forward := false, node := levelPred 0 lo }) hrep rfl
    rfl hlimit
  rwa [show ranged _ hi = [] from hhi] at hfill

theorem seekKey_cases (i : DbIter) (key : Bytes) :
    (i.seekKey key = key ∧ ∀ start ∈ i.start, start ≤ key) ∨
      ∃ start ∈ i.start, i.seekKey key = start ∧ key < start := by
  rw [seekKey]
  cases hs : i.start with
  | none => exact .inl ⟨rfl, fun start hm => nomatch hm⟩
  | some start =>
    by_cases hlt : compareBytes key start = .lt
    · exact .inr ⟨start, rfl, if_pos hlt, compareBytes_eq_lt.mp hlt⟩
    · refine .inl ⟨if_neg hlt, fun start' hm => ?_⟩
      cases hm
      exact not_lt.mp fun h => hlt (compareBytes_eq_lt.mpr h)

theorem mem_ranged {slice x} :
    x ∈ ranged slice cells ↔ ∃ c ∈ cells, InRange slice c.key ∧ c.entry = x := by
  simp [ranged, and_assoc]

theorem seek_reaches (hrep : p.Rep cells) (hopen : i.released = false) (key : Bytes)
    (cur : Cursor (Bytes × Bytes)) :
    i.Reaches cells (i.seek p key)
      (Cursor.move Prod.fst (ranged i.slice cells) cur (.seek key)) := by
  obtain ⟨lo, hi, rfl, hlo, hhi⟩ := hrep.exists_split (i.seekKey key)
  obtain ⟨prevNode, hfind, -, -⟩ := hrep.findGE_eq hlo hhi false
  have hcases := i.seekKey_cases key
  have hlow : ∀ x ∈ ranged i.slice lo, x.1 < key := by
    intro x hx
    obtain ⟨c, hc, hin, rfl⟩ := mem_ranged.mp hx
    rcases hcases with ⟨heq, -⟩ | ⟨start, hstart, heq, -⟩
    · exact heq ▸ hlo c hc
    · exact absurd (heq ▸ hlo c hc) (not_lt.mpr (hin.1 start hstart))
  have hhigh : ∀ x ∈ ranged i.slice hi, ¬ x.1 < key := by
    intro x hx
    obtain ⟨c, hc, hin, rfl⟩ := mem_ranged.mp hx
    rcases hcases with ⟨heq, -⟩ | ⟨start, hstart, heq, hlt⟩
    · exact not_lt.mpr (heq ▸ hhi c hc)
    · exact not_lt.mpr (hlt.le.trans (hin.1 start hstart))
  have hstart : ∀ c ∈ hi, ∀ start ∈ i.start, start ≤ c.key := by
    intro c hc start hm
    rcases hcases with ⟨heq, hle⟩ | ⟨start', hm', heq, -⟩
    · exact (hle start hm).trans (heq ▸ hhi c hc)
    · cases Option.mem_unique hm hm'
      exact heq ▸ hhi c hc
  rw [seek, if_neg (by rw [hopen]; decide), hfind, ranged_append,
    Cursor.move_seek Prod.fst hlow hhigh]
  exact fill_forward (i := { i with forward := true, node := levelNext 0 hi }) hrep rfl rfl hstart

variable {cur : Cursor (Bytes × Bytes)}

variable (hrep : p.Rep cells)
include hrep

section

variable (hopen : i.released = false)
include hopen

variable (hat : i.At cells cur)
include hat

theorem next_reaches :
    i.Reaches cells (i.next p) (Cursor.move Prod.fst (ranged i.slice cells) cur .next) := by
  rw [next, if_neg (by rw [hopen]; decide)]
  cases cur with
  | before =>
    obtain ⟨hnode, hfwd, -⟩ := hat
    rw [if_pos hnode, if_pos hfwd]
    exact first_reaches hrep hopen
  | after =>
    obtain ⟨hnode, hfwd, hkey, hvalue⟩ := hat
    rw [if_pos hnode, if_neg (by rw [hfwd]; decide)]
    exact ⟨false, i, rfl, ⟨rfl, rfl, rfl⟩, ⟨hnode, hfwd, hkey, hvalue⟩, rfl⟩
  | «at» l x r =>
    obtain ⟨lo, c, hi, rfl, hin, hnode, hkey, hvalue, rfl, rfl, rfl⟩ := hat
    have hc : c ∈ lo ++ c :: hi := mem_append_right _ mem_cons_self
    have hnext : p.nodeData[c.pos + nNext]? = some (levelNext 0 hi) :=
      hrep.next_eq (l := Cell.head :: lo) rfl (hrep.height c hc).1
    have hcells : lo ++ c :: hi = lo ++ [c] ++ hi := by simp
    obtain ⟨hafter, -⟩ := pairwise_cons.mp (pairwise_append.mp hrep.sorted).2.1
    rw [if_neg (by rw [hnode]; exact hrep.pos_ne_zero hc), hnode, goIndex_ok.mpr hnext,
      hcells]
    have hfill := fill_forward (i := { i with forward := true, node := levelNext 0 hi })
      (hcells ▸ hrep) rfl rfl fun d hd start hm => (hin.1 start hm).trans (hafter d hd).le
    have hlast : ranged i.slice (lo ++ [c]) = ranged i.slice lo ++ [c.entry] := by
      rw [ranged_append, ranged_cons_of_mem hin]
      rfl
    rw [hlast, reverse_concat] at hfill
    exact hfill

theorem prev_reaches :
    i.Reaches cells (i.prev p) (Cursor.move Prod.fst (ranged i.slice cells) cur .prev) := by
  rw [prev, if_neg (by rw [hopen]; decide)]
  cases cur with
  | after =>
    obtain ⟨hnode, hfwd, -⟩ := hat
    rw [if_pos hnode, if_pos hfwd]
    exact last_reaches hrep hopen
  | before =>
    obtain ⟨hnode, hfwd, hkey, hvalue⟩ := hat
    rw [if_pos hnode, if_neg (by rw [hfwd]; decide)]
    exact ⟨false, i, rfl, ⟨rfl, rfl, rfl⟩, ⟨hnode, hfwd, hkey, hvalue⟩, rfl⟩
  | «at» l x r =>
    obtain ⟨lo, c, hi, rfl, hin, hnode, hkey, hvalue, rfl, rfl, rfl⟩ := hat
    have hc : c ∈ lo ++ c :: hi := mem_append_right _ mem_cons_self
    obtain ⟨-, hright, hbefore⟩ := pairwise_append.mp hrep.sorted
    obtain ⟨hafter, -⟩ := pairwise_cons.mp hright
    have hlo : ∀ d ∈ lo, d.key < c.key := fun d hd => hbefore d hd c mem_cons_self
    have hhi : ∀ d ∈ c :: hi, c.key ≤ d.key :=
      forall_mem_cons.mpr ⟨le_rfl, fun d hd => (hafter d hd).le⟩
    rw [if_neg (by rw [hnode]; exact hrep.pos_ne_zero hc), hkey, hrep.findLT_eq hlo hhi]
    have hfill := fill_backward (i := { i with forward := false, node := levelPred 0 lo }) hrep rfl
      rfl fun d hd limit hm => (hlo d hd).trans (hin.2 limit hm)
    rw [ranged_cons_of_mem hin] at hfill
    exact hfill

/-- Every move of an iterator is that of a cursor over the entries in its range. -/
theorem move_reaches (m : Cursor.Move Bytes) :
    i.Reaches cells (i.move p m) (Cursor.move Prod.fst (ranged i.slice cells) cur m) := by
  cases m with
  | first => exact first_reaches hrep hopen
  | last => exact last_reaches hrep hopen
  | seek key => exact seek_reaches hrep hopen key cur
  | next => exact next_reaches hrep hopen hat
  | prev => exact prev_reaches hrep hopen hat

theorem shown_eq (ms : List (Cursor.Move Bytes)) :
    shown p i ms = .ok (Cursor.shown Prod.fst (ranged i.slice cells) cur ms) := by
  induction ms generalizing i cur with
  | nil => rfl
  | cons m ms ih =>
    obtain ⟨ok, i', hmove, ⟨hslice, hreleased, -⟩, hat', hshown⟩ := move_reaches hrep hopen hat m
    have hrest := ih (hreleased.trans hopen) hat'
    rw [hslice] at hrest
    rw [shown, hmove, Cursor.shown_cons, ← hshown]
    simp only [hrest, ok_bind]
    rfl

end

end DbIter

/-- The database stands for a map; a value that is empty marks a deletion. -/
def MemDB.Represents (p : MemDB) (m : OrderedMap Bytes Bytes) : Prop :=
  ∃ cells, p.Rep cells ∧ cells.map Cell.entry = m.entries

namespace MemDB.Represents

variable {p : MemDB} {m : OrderedMap Bytes Bytes}

theorem new (rnd : ℕ → ℕ) : (newMemDB rnd).Represents OrderedMap.empty :=
  ⟨[], newMemDB_rep rnd, rfl⟩

variable (h : p.Represents m)
include h

theorem put (key value : Bytes) :
    ∃ p', p.put key value = .ok p' ∧ p'.Represents (m.insert key value) := by
  obtain ⟨cells, hrep, hentries⟩ := h
  obtain ⟨p', cells', hrun, hrep', hnew⟩ := hrep.put_eq key value
  exact ⟨p', hrun, cells', hrep', by rw [hnew, hentries]; rfl⟩

theorem get (key : Bytes) : p.get key =
    .ok (match m.get key with
      | some value => (value, false)
      | none => ([], true)) := by
  obtain ⟨cells, hrep, hentries⟩ := h
  rw [hrep.get_eq, hentries]
  rfl

theorem forEach : p.forEach = .ok m.entries := by
  obtain ⟨cells, hrep, hentries⟩ := h
  rw [hrep.forEach_eq, hentries]

theorem len : p.len = m.size := by
  obtain ⟨cells, hrep, hentries⟩ := h
  rw [MemDB.len, hrep.n_eq, OrderedMap.size, ← hentries, length_map]

theorem size :
    p.size = (m.entries.map fun x => (x.1.length + x.2.length : ℤ)).sum := by
  obtain ⟨cells, hrep, hentries⟩ := h
  rw [MemDB.size, hrep.kvSize_eq, ← hentries, map_map]
  rfl

theorem shown (slice : Option Range) (ms : List (Cursor.Move Bytes)) :
    DbIter.shown p (.newIterator slice) ms =
      .ok (Cursor.shown Prod.fst (m.entries.filter fun x => InRange slice x.1) .before ms) := by
  obtain ⟨cells, hrep, hentries⟩ := h
  rw [DbIter.shown_eq hrep rfl
    (show (DbIter.newIterator slice).At cells .before from ⟨rfl, rfl, rfl, rfl⟩), ranged_eq, hentries]
  rfl

end MemDB.Represents

/-- What can be done to the database; a reset starts the random source anew. -/
inductive Op where
  | put (key value : Bytes)
  | delete (key : Bytes)
  | reset (rnd : ℕ → ℕ)

def Op.apply (p : MemDB) : Op → Result MemDB
  | .put key value => p.put key value
  | .delete key => p.delete key
  | .reset rnd => return p.reset rnd

def runOps (rnd : ℕ → ℕ) (ops : List Op) : Result MemDB := ops.foldlM Op.apply (.newMemDB rnd)

/-- The same on the map. -/
def Op.write (m : OrderedMap Bytes Bytes) : Op → OrderedMap Bytes Bytes
  | .put key value => m.insert key value
  | .delete key => m.insert key []
  | .reset _ => OrderedMap.empty

/-- What an operation does to what is known of a key. -/
def Op.touch (k : Bytes) (known : Option Bytes) : Op → Option Bytes
  | .put key value => if k = key then some value else known
  | .delete key => if k = key then some [] else known
  | .reset _ => none

/-- The value of the last `Put` of the key since the last reset, an empty one if a `Delete` came
after it, and nothing if there was neither. -/
def lastWrite (ops : List Op) (k : Bytes) : Option Bytes := ops.foldl (Op.touch k) none

theorem apply_represents {p m} (h : p.Represents m) (op : Op) :
    ∃ p', op.apply p = .ok p' ∧ p'.Represents (op.write m) := by
  cases op with
  | put key value => exact h.put key value
  | delete key => exact h.put key []
  | reset rnd => exact ⟨_, rfl, .new rnd⟩

theorem foldlM_represents {p m} (h : p.Represents m) (ops : List Op) :
    ∃ p', ops.foldlM Op.apply p = .ok p' ∧ p'.Represents (ops.foldl Op.write m) := by
  induction ops generalizing p m with
  | nil => exact ⟨p, rfl, h⟩
  | cons op ops ih =>
    obtain ⟨p', hrun, h'⟩ := apply_represents h op
    obtain ⟨p'', hruns, h''⟩ := ih h'
    exact ⟨p'', bind_ok.mpr ⟨p', hrun, hruns⟩, h''⟩

/-- The map after some operations says of every key what was last done to it. -/
theorem get_foldl_write (ops : List Op) (m : OrderedMap Bytes Bytes) (k : Bytes) :
    (ops.foldl Op.write m).get k = ops.foldl (Op.touch k) (m.get k) := by
  induction ops generalizing m with
  | nil => rfl
  | cons op ops ih =>
    rw [foldl_cons, foldl_cons, ih]
    congr 1
    cases op with
    | put | delete =>
      rw [Op.write, OrderedMap.get_insert, Op.touch]
      split_ifs <;> rfl
    | reset rnd => rfl

/-- The skip list, after any operations and whatever the random source draws, is a finite map with
deletion marks: for look-ups, for enumeration and for iterators over every range in both
directions. -/
theorem memDB_refines_map (rnd : ℕ → ℕ) (ops : List Op) :
    ∃ p es, runOps rnd ops = .ok p ∧
      (∀ k, p.get k = .ok (match lastWrite ops k with
        | some value => (value, false)
        | none => ([], true))) ∧
      p.forEach = .ok es ∧ es.Pairwise (fun a b => a.1 < b.1) ∧
      (∀ k value, (k, value) ∈ es ↔ lastWrite ops k = some value) ∧
      ∀ slice : Option Range, let rs := es.filter fun x => InRange slice x.1
        (∀ n, DbIter.shown p (.newIterator slice) (.first :: List.replicate n .next) =
          .ok ((List.range (n + 1)).map fun i => rs[i]?)) ∧
        (∀ n, DbIter.shown p (.newIterator slice) (.last :: List.replicate n .prev) =
          .ok ((List.range (n + 1)).map fun i => rs.reverse[i]?)) ∧
        (∀ k n, DbIter.shown p (.newIterator slice) (.seek k :: List.replicate n .next) =
          .ok ((List.range (n + 1)).map fun i => (rs.filter fun x => k ≤ x.1)[i]?)) ∧
        ∀ ms, DbIter.shown p (.newIterator slice) ms = .ok (Cursor.shown Prod.fst rs .before ms) := by
  obtain ⟨p, hrun, h⟩ := foldlM_represents (MemDB.Represents.new rnd) ops
  have hget (k : Bytes) : (ops.foldl Op.write OrderedMap.empty).get k = lastWrite ops k :=
    get_foldl_write ops OrderedMap.empty k
  refine ⟨p, _, hrun, fun k => ?_, h.forEach, OrderedMap.sorted _, fun k value => ?_, ?_⟩
  · rw [h.get, hget]
  · rw [← OrderedMap.get_eq_some, hget]
  · intro slice
    have hsorted := (ops.foldl Op.write OrderedMap.empty).sorted.filter
      fun x => decide (InRange slice x.1)
    refine ⟨fun n => ?_, fun n => ?_, fun k n => ?_, h.shown slice⟩
    · rw [h.shown, Cursor.shown_first]
    · rw [h.shown, Cursor.shown_last]
    · rw [h.shown, Cursor.shown_seek Prod.fst hsorted]

/-- `Len` counts the keys written since the last reset, and `Size` adds up the lengths of these keys
and of their last values. -/
theorem memDB_counts (rnd : ℕ → ℕ) (ops : List Op) :
    ∃ p es, runOps rnd ops = .ok p ∧ p.forEach = .ok es ∧ (es.map Prod.fst).Nodup ∧
      (∀ k value, (k, value) ∈ es ↔ lastWrite ops k = some value) ∧ p.len = es.length ∧
      p.size = (es.map fun x => (x.1.length + x.2.length : ℤ)).sum := by
  obtain ⟨p, hrun, h⟩ := foldlM_represents (MemDB.Represents.new rnd) ops
  refine ⟨p, _, hrun, h.forEach, OrderedMap.keys_nodup _, fun k value => ?_, h.len, h.size⟩
  rw [← OrderedMap.get_eq_some, get_foldl_write]
  rfl

end Poly.Overlaydb
