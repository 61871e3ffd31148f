/-
The **omap iterators** of a read operation (`ceph_proxy/RadosWrapper.cc`): the two calls that
ask for a map or for its keys, what `ReadCallback` does to the iterator they have made, and
`RadosOmapGetNext`, which walks it.

A `std::map` iterator stays where it is when the map grows: it names a node, and `end()` stays
`end()`. `ReadCallback` takes `begin()` of the values and only then enters the keys of a
`RadosReadOpOmapGetKeys` into them, so the iterator of a key request is at the end of a map
that was empty. It also knows one iterator, that of the last call.

`omapGetNext_complete_iff` says which requests are walked completely.
-/
import GcAdaptor.OmapDecode

set_option autoImplicit false

namespace GcAdaptor.OmapIter

open GcAdaptor.Wire GcAdaptor.Cxx GcAdaptor.OmapDecode

/-! ## The calls -/

structure RadosOmapIter where
  values : List (Bytes × Bytes) := []
  keys : List Bytes := []
  /-- `values.end()` to begin with -/
  i : MapIter Bytes := .atEnd

/-- A sub-op of the librados operation, with the result it gets. -/
inductive Request
  | getVals (result : StrMap Bytes)
  | getKeys (result : StrSet)

/-- The sub-ops in order, each with an iterator of its own, and the number of the iterator
`reqCtx.omap.iter` points to. -/
structure RadosObjectReadOp where
  op : List Request := []
  omap : Option ℕ := none

def radosReadOpOmapGetVals (readOp : RadosObjectReadOp) (result : StrMap Bytes) :
    RadosObjectReadOp :=
  { op := readOp.op ++ [.getVals result], omap := some readOp.op.length }

def radosReadOpOmapGetKeys (readOp : RadosObjectReadOp) (result : StrSet) : RadosObjectReadOp :=
  { op := readOp.op ++ [.getKeys result], omap := some readOp.op.length }

def addCall (readOp : RadosObjectReadOp) : Request → RadosObjectReadOp
  | .getVals result => radosReadOpOmapGetVals readOp result
  | .getKeys result => radosReadOpOmapGetKeys readOp result

def build (requests : List Request) : RadosObjectReadOp := requests.foldl addCall {}

/-- librados fills the container the sub-op was given. -/
def Request.fill : Request → RadosOmapIter
  | getVals result => { values := result.entries }
  | getKeys result => { keys := result.elems }

/-! ## The callback -/

/-- The iterator is taken before the keys go in. `values[i]` makes an empty value. -/
def RadosOmapIter.position (it : RadosOmapIter) : RadosOmapIter :=
  { it with
    i := mapBegin it.values
    values := it.keys.foldl (fun values k => mapInsert k [] values) it.values }

/-- `ReadCallback`, on the iterators. -/
def readCallback (ret : ℤ) (readOp : RadosObjectReadOp) : List RadosOmapIter :=
  let iters := readOp.op.map Request.fill
  -- one slot: the call that came last
  match readOp.omap with
  | some j => if ret = 0 then iters.modify j RadosOmapIter.position else iters
  | none => iters

/-! ## The walk -/

/-- The entry that is returned, `none` for the null key, and the iterator afterwards. -/
def radosOmapGetNext (it : RadosOmapIter) : Option (Bytes × Bytes) × RadosOmapIter :=
  match it.i with
  | .atEnd => (none, it)
  | .node k => (some (k, (it.values.lookup k).getD []), { it with i := mapNext k it.values })

def radosOmapIterSize (it : RadosOmapIter) : ℕ := it.values.length

/-- What call number `n` returns. -/
def nth (it : RadosOmapIter) (n : ℕ) : Option (Bytes × Bytes) :=
  (radosOmapGetNext ((fun it => (radosOmapGetNext it).2)^[n] it)).1

/-- The entries a request should be walked as. -/
def Request.entries : Request → List (Bytes × Bytes)
  | getVals result => result.entries
  | getKeys result => result.elems.map fun k => (k, [])

/-- The calls return the entries in order and then the null key forever, and the size is their
number. -/
def WalkedAs (it : RadosOmapIter) (entries : List (Bytes × Bytes)) : Prop :=
  (∀ n, nth it n = entries[n]?) ∧ radosOmapIterSize it = entries.length

theorem nth_zero (it : RadosOmapIter) : nth it 0 = (radosOmapGetNext it).1 := rfl

theorem nth_succ (it : RadosOmapIter) (n : ℕ) : nth it (n + 1) = nth (radosOmapGetNext it).2 n :=
  rfl

theorem nth_of_atEnd {it : RadosOmapIter} (h : it.i = .atEnd) (n : ℕ) : nth it n = none := by
  have hstop : radosOmapGetNext it = (none, it) := by rw [radosOmapGetNext, h]
  induction n with
  | zero => rw [nth_zero, hstop]
  | succ n ih => rw [nth_succ, hstop, ih]

/-- An iterator at the end walks nothing. -/
theorem walkedAs_of_atEnd {it : RadosOmapIter} (h : it.i = .atEnd)
    (entries : List (Bytes × Bytes)) :
    WalkedAs it entries ↔ entries = [] ∧ it.values = [] := by
  constructor
  · rintro ⟨hnth, hsize⟩
    have hnil : entries = [] := by
      have hzero := hnth 0
      rw [nth_of_atEnd h] at hzero
      exact List.head?_eq_none_iff.mp (List.head?_eq_getElem? ▸ hzero.symm)
    refine ⟨hnil, ?_⟩
    rw [hnil] at hsize
    exact List.eq_nil_of_length_eq_zero hsize
  · rintro ⟨rfl, hvalues⟩
    refine ⟨fun n => ?_, ?_⟩
    · rw [nth_of_atEnd h]
      rfl
    · rw [radosOmapIterSize, hvalues]

/-- **The walk** from the node behind `pre` returns what is behind `pre`. -/
theorem nth_of_ascending (pre post : List (Bytes × Bytes)) (it : RadosOmapIter)
    (hvalues : it.values = pre ++ post) (hi : it.i = mapBegin post)
    (hasc : (pre ++ post).Pairwise fun p q => p.1 < q.1) (n : ℕ) : nth it n = post[n]? := by
  induction post generalizing pre it n with
  | nil => exact nth_of_atEnd hi n
  | cons p post ih =>
    obtain ⟨k, v⟩ := p
    have hnext : radosOmapGetNext it = (some (k, v), { it with i := mapBegin post }) := by
      rw [radosOmapGetNext, hi, mapBegin, List.head?_cons]
      simp only [hvalues, lookup_of_ascending hasc, mapNext_of_ascending hasc, Option.getD_some]
    -- the entry moves from `post` to `pre`, and the map stays the same
    cases n with
    | zero => rw [nth_zero, hnext, List.getElem?_cons_zero]
    | succ n =>
      rw [nth_succ, hnext, List.getElem?_cons_succ]
      rw [List.append_cons] at hvalues hasc
      exact ih (pre ++ [(k, v)]) { it with i := mapBegin post } hvalues rfl hasc n

/-! ## The iterators of an operation -/

theorem build_concat (requests : List Request) (r : Request) :
    build (requests ++ [r]) =
      { op := (build requests).op ++ [r], omap := some (build requests).op.length } := by
  rw [build, List.foldl_append, List.foldl_cons, List.foldl_nil, ← build]
  cases r <;> rfl

/-- The slot holds the last call. -/
theorem build_eq (requests : List Request) :
    build requests =
      { op := requests
        omap := if requests = [] then none else some (requests.length - 1) } := by
  induction requests using List.reverseRecOn with
  | nil => rfl
  | append_singleton requests r ih => simp [build_concat, ih]

/-- The iterator of call `j`. -/
theorem getElem?_readCallback (requests : List Request) (j : ℕ) :
    (readCallback 0 (build requests))[j]? = (requests[j]?).map fun r =>
      if j + 1 = requests.length then r.fill.position else r.fill := by
  rw [build_eq, readCallback]
  by_cases hnil : requests = []
  · simp [hnil]
  · have hpos : 0 < requests.length := List.length_pos_of_ne_nil hnil
    have hlast : requests.length - 1 = j ↔ j + 1 = requests.length := by omega
    simp only [if_neg hnil, if_true, List.getElem?_modify, hlast, List.getElem?_map]
    split_ifs <;> simp [Function.comp_def]

/-- The callback takes the first entry of a value request. -/
theorem walkedAs_position_getVals (result : StrMap Bytes) :
    WalkedAs (Request.getVals result).fill.position result.entries :=
  ⟨nth_of_ascending [] result.entries _ rfl rfl result.ascending, rfl⟩

/-- The iterator of a key request was taken from an empty map. -/
theorem walkedAs_position_getKeys (result : StrSet) :
    WalkedAs (Request.getKeys result).fill.position (Request.getKeys result).entries ↔
      (Request.getKeys result).entries = [] := by
  have hend : (Request.getKeys result).fill.position.i = .atEnd := rfl
  rw [walkedAs_of_atEnd hend, and_iff_left_iff_imp]
  intro hnil
  have helems : result.elems = [] := List.map_eq_nil_iff.mp hnil
  show result.elems.foldl _ [] = []
  rw [helems]
  rfl

/-- The callback has not seen the iterator of a call that another one follows. -/
theorem walkedAs_fill (r : Request) : WalkedAs r.fill r.entries ↔ r.entries = [] := by
  have hend : r.fill.i = .atEnd := by cases r <;> rfl
  rw [walkedAs_of_atEnd hend, and_iff_left_iff_imp]
  intro hnil
  cases r with
  | getVals result => exact hnil
  | getKeys result => rfl

/-- **Which requests are walked completely.** A request for values that no other call follows,
and one whose result is empty. -/
theorem omapGetNext_complete_iff (requests : List Request) (j : ℕ) (r : Request)
    (hr : requests[j]? = some r) :
    ∃ it, (readCallback 0 (build requests))[j]? = some it ∧
      (WalkedAs it r.entries ↔
        r.entries = [] ∨ (∃ result, r = .getVals result) ∧ j + 1 = requests.length) := by
  rw [getElem?_readCallback, hr]
  refine ⟨_, rfl, ?_⟩
  split_ifs with hlast
  · cases r with
    | getVals result =>
      exact iff_of_true (walkedAs_position_getVals result) (.inr ⟨⟨result, rfl⟩, hlast⟩)
    | getKeys result =>
      rw [walkedAs_position_getKeys]
      constructor
      · exact .inl
      · rintro (hnil | ⟨⟨result', h⟩, -⟩)
        · exact hnil
        · cases h
  · rw [walkedAs_fill]
    simp [hlast]

/-- Two entries, asked for with their values. -/
theorem omapGetNext_complete_two_entries :
    ∃ it, (readCallback 0 (build [.getVals ⟨[([1], [7]), ([2], [])], by decide⟩]))[0]? = some it ∧
      WalkedAs it [([1], [7]), ([2], [])] := by
  obtain ⟨it, hit, hiff⟩ :=
    omapGetNext_complete_iff [.getVals ⟨[([1], [7]), ([2], [])], by decide⟩] 0 _ rfl
  exact ⟨it, hit, hiff.mpr (.inr ⟨⟨_, rfl⟩, rfl⟩)⟩

/-- One key, asked for without its value: the first call returns the null key, and the size
is 1. -/
theorem omapGetKeys_returns_nothing :
    ∃ it, (readCallback 0 (build [.getKeys ⟨[[1]], by decide⟩]))[0]? = some it ∧
      nth it 0 = none ∧ radosOmapIterSize it = 1 ∧
      ¬ WalkedAs it (Request.getKeys ⟨[[1]], by decide⟩).entries := by
  refine ⟨(Request.getKeys ⟨[[1]], by decide⟩).fill.position, rfl, rfl, rfl, ?_⟩
  intro h
  exact absurd (h.1 0) (by decide)

end GcAdaptor.OmapIter
