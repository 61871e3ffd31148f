/-
Read operations of the proxy: the calls that build one and `ReadCallback`, which delivers what
they asked for (`ceph_proxy/RadosWrapper.cc`, `ceph_proxy/CephProxyOp.h`).

A call of `RadosReadOpRead`, `RadosReadOpGetXattr` and so on appends a sub-op to the librados
operation, with a result object that librados fills, and records where the caller wants the
result. There is one slot for each kind of call and, but for the xattrs, one result object, so
the last call of a kind takes the place of the others. Calls are numbered, and an output is
known by the number of its call.

`readOp_delivers_iff` says which sequences of calls get all their outputs: no plain read, whose
`*bytesRead` is never written, no exec, whose output is never copied, and at most one call of
each other kind that wants an output.
-/
import GcAdaptor.BufferChain
import GcAdaptor.Interleave

set_option autoImplicit false

namespace GcAdaptor.ReadOp

open GcAdaptor.Wire GcAdaptor.BufferChain GcAdaptor.Interleave

/-! ## The last one of a kind -/

section LastOf

variable {α β : Type} {f : α → Option β} {l : List α} {a : α} {b : β} {i : ℕ}

/-- The last element that `f` knows, with its index. -/
def lastOf (f : α → Option β) (l : List α) : Option (ℕ × β) :=
  l.zipIdx.foldl (fun acc p => ((f p.1).map fun b => (p.2, b)).or acc) none

/-- `f` knows no element behind index `i`. -/
def IsLast (f : α → Option β) (l : List α) (i : ℕ) : Prop :=
  ∀ j a, i < j → l[j]? = some a → f a = none

theorem lastOf_concat (f : α → Option β) (l : List α) (a : α) :
    lastOf f (l ++ [a]) = ((f a).map fun b => (l.length, b)).or (lastOf f l) := by
  simp [lastOf, List.zipIdx_append]

/-- An element of a list with one more. -/
theorem getElem?_concat_iff {x : α} :
    (l ++ [a])[i]? = some x ↔ l[i]? = some x ∨ i = l.length ∧ x = a := by
  constructor
  · exact getElem?_concat_cases
  · rintro (h | ⟨rfl, rfl⟩)
    · exact getElem?_append_of_some h
    · exact List.getElem?_concat_length

/-- `f` knows the last element. -/
theorem isLast_concat_of_some (h : f a = some b) (hi : i ≤ l.length) :
    IsLast f (l ++ [a]) i ↔ i = l.length := by
  constructor
  · intro hlast
    by_contra hne
    have hnone := hlast l.length a (by omega) (getElem?_concat_iff.mpr (.inr ⟨rfl, rfl⟩))
    rw [h] at hnone
    cases hnone
  · rintro rfl j x hj hx
    rw [List.getElem?_eq_none (by simp; omega)] at hx
    cases hx

theorem isLast_concat_of_none (h : f a = none) : IsLast f (l ++ [a]) i ↔ IsLast f l i := by
  constructor
  · intro hlast j x hj hx
    exact hlast j x hj (getElem?_concat_iff.mpr (.inl hx))
  · intro hlast j x hj hx
    rcases getElem?_concat_iff.mp hx with hx | ⟨-, rfl⟩
    · exact hlast j x hj hx
    · exact h

theorem lastOf_eq_some_iff :
    lastOf f l = some (i, b) ↔ (∃ a, l[i]? = some a ∧ f a = some b) ∧ IsLast f l i := by
  induction l using List.reverseRecOn with
  | nil => simp [lastOf]
  | append_singleton l a ih =>
    rw [lastOf_concat]
    -- the new element is the last one, or the list before it decides
    cases ha : f a with
    | none =>
      rw [Option.map_none, Option.none_or, ih, isLast_concat_of_none ha]
      refine and_congr_left fun _ => ?_
      constructor
      · rintro ⟨x, hx, hb⟩
        exact ⟨x, getElem?_concat_iff.mpr (.inl hx), hb⟩
      · rintro ⟨x, hx, hb⟩
        rcases getElem?_concat_iff.mp hx with hx | ⟨-, rfl⟩
        · exact ⟨x, hx, hb⟩
        · rw [ha] at hb
          cases hb
    | some b' =>
      rw [Option.map_some, Option.some_or, Option.some.injEq, Prod.mk.injEq]
      constructor
      · rintro ⟨rfl, rfl⟩
        exact ⟨⟨a, getElem?_concat_iff.mpr (.inr ⟨rfl, rfl⟩), ha⟩,
          (isLast_concat_of_some ha le_rfl).mpr rfl⟩
      · rintro ⟨⟨x, hx, hb⟩, hlast⟩
        rcases getElem?_concat_iff.mp hx with hx | ⟨rfl, rfl⟩
        · have hlt := (List.getElem?_eq_some_iff.mp hx).1
          have := (isLast_concat_of_some ha hlt.le).mp hlast
          omega
        · exact ⟨rfl, Option.some.inj (ha.symm.trans hb)⟩

theorem lastOf_eq_none_iff : lastOf f l = none ↔ ∀ a ∈ l, f a = none := by
  induction l using List.reverseRecOn with
  | nil => simp [lastOf]
  | append_singleton l a ih =>
    rw [lastOf_concat, Option.or_eq_none_iff, Option.map_eq_none_iff, ih]
    constructor
    · rintro ⟨ha, hl⟩ x hx
      rcases List.mem_append.mp hx with hx | hx
      · exact hl x hx
      · rw [List.mem_singleton.mp hx]
        exact ha
    · intro h
      exact ⟨h a (by simp), fun x hx => h x (by simp [hx])⟩

theorem IsLast.mono {γ : Type} {g : α → Option γ} (h : IsLast f l i)
    (hfg : ∀ a, f a = none → g a = none) : IsLast g l i :=
  fun j a hj ha => hfg a (h j a hj ha)

end LastOf

/-! ## The calls -/

/-- `RadosReadOpReadBl`, with the result of its sub-op. The chain has room for the result and, in
page mode, entries of one page. -/
structure ReadBlCall where
  bl : Option (List GcBufferList)
  len : ℕ
  isRelease : Bool
  result : BufferList
  paged : ∀ b, bl = some b → Paged isRelease b
  room : ∀ b, bl = some b → result.data.length ≤ (chainBytes b).length

/-- A call that builds a read operation, with the result of its sub-op. `valid` is that the
pointers the code tests for null are not. -/
inductive Call
  | read (valid : Bool) (result : BufferList)
  | readBl (c : ReadBlCall)
  | getXattr (name : Bytes) (result : Bytes)
  | getXattrs (result : List (Bytes × Bytes))
  | checkSum (valid : Bool) (checkSumLen : ℕ) (result : Bytes)
  | exec (result : Bytes)

/-- `reqCtx.readbl` -/
structure ReadBlSlot where
  bl : Option (List GcBufferList)
  len : ℕ
  buildType : Bool

/-- `reqCtx.checksum` -/
structure CheckSumSlot where
  pCheckSum : Bool
  chunkSumLen : ℕ

/-- `reqContext`: each slot with the number of the call that set it. -/
structure ReqContext where
  read : Option ℕ := none
  readbl : Option (ℕ × ReadBlSlot) := none
  xattr : Option (ℕ × Bytes) := none
  xattrs : Option ℕ := none
  checksum : Option (ℕ × CheckSumSlot) := none
  exec : Option ℕ := none

/-- A sub-op of the librados operation: the object for its result, and the result. -/
inductive SubOp
  | results (result : BufferList)
  | xattr (name : Bytes) (result : Bytes)
  /-- the `attrset` of the iterator that call `i` has made -/
  | attrset (i : ℕ) (result : List (Bytes × Bytes))
  | checksums (result : Bytes)
  | execOut (result : Bytes)

structure RadosObjectReadOp where
  reqCtx : ReqContext := {}
  op : List SubOp := []
  calls : ℕ := 0

/-- The result objects of a read operation. -/
structure Objects where
  results : BufferList := default
  xattrs : Bytes → Bytes := fun _ => []
  attrsets : ℕ → List (Bytes × Bytes) := fun _ => []
  checksums : Bytes := []
  execOut : Bytes := []

def addCall (readOp : RadosObjectReadOp) (c : Call) : RadosObjectReadOp :=
  let i := readOp.calls
  let ctx := readOp.reqCtx
  match c with
  | .read valid result =>
    if valid then
      { reqCtx := { ctx with read := some i }, op := readOp.op ++ [.results result], calls := i + 1 }
    else { readOp with calls := i + 1 }
  | .readBl c =>
    { reqCtx := { ctx with readbl := some (i, ⟨c.bl, c.len, c.isRelease⟩) }
      op := readOp.op ++ [.results c.result]
      calls := i + 1 }
  | .getXattr name result =>
    { reqCtx := { ctx with xattr := some (i, name) }
      op := readOp.op ++ [.xattr name result]
      calls := i + 1 }
  | .getXattrs result =>
    { reqCtx := { ctx with xattrs := some i }
      op := readOp.op ++ [.attrset i result]
      calls := i + 1 }
  | .checkSum valid checkSumLen result =>
    { reqCtx := { ctx with checksum := some (i, ⟨valid, checkSumLen⟩) }
      op := readOp.op ++ [.checksums result]
      calls := i + 1 }
  | .exec result =>
    { reqCtx := { ctx with exec := some i }, op := readOp.op ++ [.execOut result], calls := i + 1 }

def build (calls : List Call) : RadosObjectReadOp := calls.foldl addCall {}

/-- librados fills the object a sub-op was given. -/
def SubOp.fill (objs : Objects) : SubOp → Objects
  | .results result => { objs with results := result }
  | .xattr name result =>
    { objs with xattrs := fun n => if n = name then result else objs.xattrs n }
  | .attrset i result =>
    { objs with attrsets := fun j => if j = i then result else objs.attrsets j }
  | .checksums result => { objs with checksums := result }
  | .execOut result => { objs with execOut := result }

/-- The sub-ops are answered in order. -/
def RadosObjectReadOp.complete (readOp : RadosObjectReadOp) : Objects :=
  readOp.op.foldl SubOp.fill {}

/-! ## The callback -/

/-- What is written to the outputs of a call, and the user's callback. -/
inductive Effect
  | buffer (i : ℕ) (bytes : Bytes)
  | bytesRead (i : ℕ) (n : ℕ)
  /-- the chain afterwards, `none` if it was left -/
  | bl (i : ℕ) (after : Option (List GcBufferList))
  | val (i : ℕ) (bytes : Bytes)
  /-- the iterator is at the beginning of this map -/
  | iterBegin (i : ℕ) (attrset : List (Bytes × Bytes))
  /-- `none` if the copy ran past the end of the checksums -/
  | pCheckSum (i : ℕ) (bytes : Option Bytes)
  | outBuf (i : ℕ) (bytes : Bytes)
  | outLen (i : ℕ) (n : ℕ)
  | callback (ret : ℤ)

section Callback

variable (ctx : ReqContext) (objs : Objects)

def deliverRead : List Effect :=
  match ctx.read with
  | some i => [.buffer i objs.results.data]
  | none =>
    match ctx.readbl with
    | some (i, ⟨some bl, len, buildType⟩) =>
      [.bl i (BufferChain.readCallback buildType len objs.results bl)]
    | _ => []

def deliverXattr : List Effect :=
  match ctx.xattr with
  | some (i, name) => [.val i (objs.xattrs name)]
  | none => []

def deliverXattrs : List Effect :=
  match ctx.xattrs with
  | some i => [.iterBegin i (objs.attrsets i)]
  | none => []

def deliverChecksum : List Effect :=
  match ctx.checksum with
  | some (i, ⟨true, chunkSumLen⟩) =>
    [.pCheckSum i (if chunkSumLen ≤ objs.checksums.length then
      some (objs.checksums.take chunkSumLen) else none)]
  | _ => []

def deliveries : List Effect :=
  deliverRead ctx objs ++ deliverXattr ctx objs ++ deliverXattrs ctx objs ++
    deliverChecksum ctx objs

end Callback

def readCallback (ret : ℤ) (readOp : RadosObjectReadOp) : List Effect :=
  (if ret = 0 then deliveries readOp.reqCtx readOp.complete else []) ++ [.callback ret]

/-! ## What a caller expects -/

/-- The outputs of call `i` are filled with its own result. -/
def Filled (writes : List Effect) (i : ℕ) : Call → Prop
  | .read valid result =>
    valid = true → .buffer i result.data ∈ writes ∧ .bytesRead i result.data.length ∈ writes
  | .readBl c =>
    c.bl.isSome → ∃ after, .bl i (some after) ∈ writes ∧ c.result.data <+: chainBytes after
  | .getXattr _ result => .val i result ∈ writes
  | .getXattrs result => .iterBegin i result ∈ writes
  | .checkSum valid checkSumLen result =>
    valid = true → .pCheckSum i (some (result.take checkSumLen)) ∈ writes
  | .exec result => .outBuf i result ∈ writes ∧ .outLen i result.length ∈ writes

/-- All outputs are filled before the user's callback is called. -/
def Delivers (calls : List Call) : Prop :=
  ∃ writes, readCallback 0 (build calls) = writes ++ [.callback 0] ∧
    ∀ i c, calls[i]? = some c → Filled writes i c

/-! ## The slots and the objects -/

def readSlot : Call → Option Unit
  | .read true _ => some ()
  | _ => none

def readBlSlot : Call → Option ReadBlSlot
  | .readBl c => some ⟨c.bl, c.len, c.isRelease⟩
  | _ => none

def xattrSlot : Call → Option Bytes
  | .getXattr name _ => some name
  | _ => none

def xattrsSlot : Call → Option Unit
  | .getXattrs _ => some ()
  | _ => none

def checkSumSlot : Call → Option CheckSumSlot
  | .checkSum valid checkSumLen _ => some ⟨valid, checkSumLen⟩
  | _ => none

/-- What a call leaves in `results`. -/
def resultOf : Call → Option BufferList
  | .read true result => some result
  | .readBl c => some c.result
  | _ => none

def xattrOf (name : Bytes) : Call → Option Bytes
  | .getXattr n result => if n = name then some result else none
  | _ => none

def checkSumOf : Call → Option Bytes
  | .checkSum _ _ result => some result
  | _ => none

theorem build_concat (calls : List Call) (c : Call) :
    build (calls ++ [c]) = addCall (build calls) c := by
  rw [build, List.foldl_append]
  rfl

theorem build_calls (calls : List Call) : (build calls).calls = calls.length := by
  induction calls using List.reverseRecOn with
  | nil => rfl
  | append_singleton calls c ih =>
    rw [build_concat, List.length_append, List.length_singleton, ← ih]
    cases c with
    | read valid result => cases valid <;> rfl
    | readBl c => rfl
    | getXattr name result => rfl
    | getXattrs result => rfl
    | checkSum valid checkSumLen result => rfl
    | exec result => rfl

/-- **Every slot holds the last call of its kind.** -/
theorem build_reqCtx (calls : List Call) :
    (build calls).reqCtx.read = (lastOf readSlot calls).map (·.1) ∧
    (build calls).reqCtx.readbl = lastOf readBlSlot calls ∧
    (build calls).reqCtx.xattr = lastOf xattrSlot calls ∧
    (build calls).reqCtx.xattrs = (lastOf xattrsSlot calls).map (·.1) ∧
    (build calls).reqCtx.checksum = lastOf checkSumSlot calls := by
  induction calls using List.reverseRecOn with
  | nil => exact ⟨rfl, rfl, rfl, rfl, rfl⟩
  | append_singleton calls c ih =>
    obtain ⟨hread, hreadbl, hxattr, hxattrs, hchecksum⟩ := ih
    simp only [build_concat, lastOf_concat, ← build_calls]
    cases c with
    | read valid result =>
      cases valid <;>
      simp [addCall, readSlot, readBlSlot, xattrSlot, xattrsSlot, checkSumSlot, hread, hreadbl,
        hxattr, hxattrs, hchecksum]
    | _ =>
      simp [addCall, readSlot, readBlSlot, xattrSlot, xattrsSlot, checkSumSlot, hread, hreadbl,
        hxattr, hxattrs, hchecksum]

/-- **Every object holds the result of the last sub-op it was given to.** -/
theorem build_complete (calls : List Call) :
    (build calls).complete.results = ((lastOf resultOf calls).map (·.2)).getD default ∧
    (∀ name, (build calls).complete.xattrs name =
      ((lastOf (xattrOf name) calls).map (·.2)).getD []) ∧
    (build calls).complete.checksums = ((lastOf checkSumOf calls).map (·.2)).getD [] := by
  induction calls using List.reverseRecOn with
  | nil => exact ⟨rfl, fun _ => rfl, rfl⟩
  | append_singleton calls c ih =>
    obtain ⟨hresults, hxattrs, hchecksums⟩ := ih
    simp only [build_concat, lastOf_concat]
    cases c with
    | read valid result =>
      cases valid <;>
      simp_all [addCall, RadosObjectReadOp.complete, SubOp.fill, resultOf, xattrOf, checkSumOf]
    | getXattr name result =>
      refine ⟨?_, ?_, ?_⟩
      · simp_all [addCall, RadosObjectReadOp.complete, SubOp.fill, resultOf]
      · intro n
        by_cases hn : n = name <;>
        simp_all [addCall, RadosObjectReadOp.complete, SubOp.fill, xattrOf, eq_comm]
      · simp_all [addCall, RadosObjectReadOp.complete, SubOp.fill, checkSumOf]
    | _ =>
      simp_all [addCall, RadosObjectReadOp.complete, SubOp.fill, resultOf, xattrOf, checkSumOf]

/-- The iterators keep their own maps. -/
theorem build_attrsets {calls : List Call} {i : ℕ} {result : List (Bytes × Bytes)}
    (h : calls[i]? = some (.getXattrs result)) : (build calls).complete.attrsets i = result := by
  induction calls using List.reverseRecOn with
  | nil => simp at h
  | append_singleton calls c ih =>
    rw [build_concat]
    rcases getElem?_concat_iff.mp h with h | ⟨rfl, rfl⟩
    · have hlt := (List.getElem?_eq_some_iff.mp h).1
      have hold := ih h
      cases c with
      | read valid result =>
        cases valid <;> simp_all [addCall, RadosObjectReadOp.complete, SubOp.fill]
      | getXattrs result' =>
        have hne : i ≠ (build calls).calls := by
          rw [build_calls]
          omega
        simp_all [addCall, RadosObjectReadOp.complete, SubOp.fill]
      | _ => simp_all [addCall, RadosObjectReadOp.complete, SubOp.fill]
    · simp [addCall, RadosObjectReadOp.complete, SubOp.fill, build_calls]

/-! ## What is delivered -/

section Delivered

variable {ctx : ReqContext} {objs : Objects} {e : Effect}

theorem mem_deliverRead : e ∈ deliverRead ctx objs ↔
    (∃ k, ctx.read = some k ∧ e = .buffer k objs.results.data) ∨
    ctx.read = none ∧ ∃ k bl len buildType, ctx.readbl = some (k, ⟨some bl, len, buildType⟩) ∧
      e = .bl k (BufferChain.readCallback buildType len objs.results bl) := by
  unfold deliverRead
  cases ctx.read with
  | some k => simp
  | none =>
    rcases ctx.readbl with _ | ⟨k, ⟨_ | bl, len, buildType⟩⟩
    · simp
    · simp
    · constructor
      · intro h
        exact .inr ⟨rfl, k, bl, len, buildType, rfl, List.mem_singleton.mp h⟩
      · rintro (⟨k', h, -⟩ | ⟨-, k', bl', len', buildType', h, rfl⟩)
        · cases h
        · cases h
          exact List.mem_singleton.mpr rfl

theorem mem_deliverXattr : e ∈ deliverXattr ctx objs ↔
    ∃ k name, ctx.xattr = some (k, name) ∧ e = .val k (objs.xattrs name) := by
  unfold deliverXattr
  rcases ctx.xattr with _ | ⟨k, name⟩
  · simp
  · constructor
    · intro h
      exact ⟨k, name, rfl, List.mem_singleton.mp h⟩
    · rintro ⟨k', name', h, rfl⟩
      cases h
      exact List.mem_singleton.mpr rfl

theorem mem_deliverXattrs : e ∈ deliverXattrs ctx objs ↔
    ∃ k, ctx.xattrs = some k ∧ e = .iterBegin k (objs.attrsets k) := by
  unfold deliverXattrs
  cases ctx.xattrs <;> simp

theorem mem_deliverChecksum : e ∈ deliverChecksum ctx objs ↔
    ∃ k chunkSumLen, ctx.checksum = some (k, ⟨true, chunkSumLen⟩) ∧
      e = .pCheckSum k (if chunkSumLen ≤ objs.checksums.length then
        some (objs.checksums.take chunkSumLen) else none) := by
  unfold deliverChecksum
  rcases ctx.checksum with _ | ⟨k, ⟨_ | _, chunkSumLen⟩⟩
  · simp
  · simp
  · constructor
    · intro h
      exact ⟨k, chunkSumLen, rfl, List.mem_singleton.mp h⟩
    · rintro ⟨k', len', h, rfl⟩
      cases h
      exact List.mem_singleton.mpr rfl

theorem mem_deliveries : e ∈ deliveries ctx objs ↔
    e ∈ deliverRead ctx objs ∨ e ∈ deliverXattr ctx objs ∨ e ∈ deliverXattrs ctx objs ∨
      e ∈ deliverChecksum ctx objs := by
  simp only [deliveries, List.mem_append, or_assoc]

end Delivered

/-! ## Which calls get their outputs -/

section Deliverable

variable {calls : List Call} {i : ℕ}

/-- What is written before the callback. -/
def writes (calls : List Call) : List Effect :=
  deliveries (build calls).reqCtx (build calls).complete

theorem delivers_iff_filled :
    Delivers calls ↔ ∀ i c, calls[i]? = some c → Filled (writes calls) i c := by
  have hcallback : readCallback 0 (build calls) = writes calls ++ [.callback 0] := by
    rw [readCallback, if_pos rfl, writes]
  constructor
  · rintro ⟨ws, hws, hfilled⟩
    obtain rfl : writes calls = ws := List.append_cancel_right (hcallback.symm.trans hws)
    exact hfilled
  · intro hfilled
    exact ⟨writes calls, hcallback, hfilled⟩

theorem filled_getXattr_iff {name result : Bytes} (h : calls[i]? = some (.getXattr name result)) :
    Filled (writes calls) i (.getXattr name result) ↔ IsLast xattrSlot calls i := by
  obtain ⟨-, -, hslot, -, -⟩ := build_reqCtx calls
  obtain ⟨-, hobject, -⟩ := build_complete calls
  simp only [Filled, writes, mem_deliveries, mem_deliverRead, mem_deliverXattr, mem_deliverXattrs,
    mem_deliverChecksum, hslot, hobject, lastOf_eq_some_iff, Effect.val.injEq, reduceCtorEq,
    and_false, exists_false, false_or, or_false]
  constructor
  · rintro ⟨k, n, ⟨-, hlast⟩, rfl, -⟩
    exact hlast
  · intro hlast
    refine ⟨i, name, ⟨⟨_, h, rfl⟩, hlast⟩, rfl, ?_⟩
    have hown : lastOf (xattrOf name) calls = some (i, result) := by
      refine lastOf_eq_some_iff.mpr ⟨⟨_, h, if_pos rfl⟩, hlast.mono ?_⟩
      intro c hc
      cases c <;> first | rfl | cases hc
    rw [hown]
    rfl

theorem filled_getXattrs_iff {result : List (Bytes × Bytes)}
    (h : calls[i]? = some (.getXattrs result)) :
    Filled (writes calls) i (.getXattrs result) ↔ IsLast xattrsSlot calls i := by
  obtain ⟨-, -, -, hslot, -⟩ := build_reqCtx calls
  simp only [Filled, writes, mem_deliveries, mem_deliverRead, mem_deliverXattr, mem_deliverXattrs,
    mem_deliverChecksum, hslot, Option.map_eq_some_iff, Prod.exists, exists_and_right,
    exists_eq_right, lastOf_eq_some_iff, Effect.iterBegin.injEq, reduceCtorEq, and_false,
    exists_false, false_or, or_false]
  constructor
  · rintro ⟨k, ⟨-, hlast⟩, rfl, -⟩
    exact hlast
  · intro hlast
    exact ⟨i, ⟨⟨(), _, h, rfl⟩, hlast⟩, rfl, (build_attrsets h).symm⟩

theorem filled_checkSum_iff {valid : Bool} {checkSumLen : ℕ} {result : Bytes}
    (h : calls[i]? = some (.checkSum valid checkSumLen result)) :
    Filled (writes calls) i (.checkSum valid checkSumLen result) ↔
      (valid = true → IsLast checkSumSlot calls i ∧ checkSumLen ≤ result.length) := by
  obtain ⟨-, -, -, -, hslot⟩ := build_reqCtx calls
  obtain ⟨-, -, hobject⟩ := build_complete calls
  have hown (hlast : IsLast checkSumSlot calls i) : lastOf checkSumOf calls = some (i, result) := by
    refine lastOf_eq_some_iff.mpr ⟨⟨_, h, rfl⟩, hlast.mono ?_⟩
    intro c hc
    cases c <;> first | rfl | cases hc
  simp only [Filled, writes, mem_deliveries, mem_deliverRead, mem_deliverXattr, mem_deliverXattrs,
    mem_deliverChecksum, hslot, hobject, lastOf_eq_some_iff, Effect.pCheckSum.injEq, reduceCtorEq,
    and_false, exists_false, false_or, or_false]
  refine imp_congr_right ?_
  rintro rfl
  constructor
  · rintro ⟨k, len, ⟨⟨c, hc, hlen⟩, hlast⟩, rfl, hcopy⟩
    obtain rfl := Option.some.inj (h.symm.trans hc)
    cases hlen
    refine ⟨hlast, ?_⟩
    by_contra hshort
    rw [hown hlast] at hcopy
    simp [hshort] at hcopy
  · rintro ⟨hlast, hlen⟩
    refine ⟨i, checkSumLen, ⟨⟨_, h, rfl⟩, hlast⟩, rfl, ?_⟩
    rw [hown hlast]
    simp [hlen]

/-- Without a plain read `results` is that of the last chain read. -/
theorem filled_readBl_iff {c : ReadBlCall} (h : calls[i]? = some (.readBl c))
    (hread : lastOf readSlot calls = none) :
    Filled (writes calls) i (.readBl c) ↔
      ∀ bl, c.bl = some bl →
        IsLast readBlSlot calls i ∧ PassesOnlyFull c.result.data.length bl := by
  obtain ⟨hslot, hslotbl, -, -, -⟩ := build_reqCtx calls
  obtain ⟨hobject, -, -⟩ := build_complete calls
  -- `results` is one bufferlist for all reads: the last call of either kind has it
  have hown (hlast : IsLast readBlSlot calls i) :
      (build calls).complete.results = c.result := by
    have hlast' : lastOf resultOf calls = some (i, c.result) := by
      refine lastOf_eq_some_iff.mpr ⟨⟨_, h, rfl⟩, ?_⟩
      intro j x hj hx
      have hno := lastOf_eq_none_iff.mp hread x (List.mem_of_getElem? hx)
      have hnobl := hlast j x hj hx
      cases x with
      | read valid result => cases valid <;> first | rfl | cases hno
      | readBl c' => cases hnobl
      | _ => rfl
    rw [hobject, hlast']
    rfl
  have hmem (after : Option (List GcBufferList)) (bl : List GcBufferList) (hbl : c.bl = some bl) :
      .bl i after ∈ writes calls ↔ IsLast readBlSlot calls i ∧
        after = BufferChain.readCallback c.isRelease c.len c.result bl := by
    simp only [writes, mem_deliveries, mem_deliverRead, mem_deliverXattr, mem_deliverXattrs,
      mem_deliverChecksum, hslot, hslotbl, hread, Option.map_none, lastOf_eq_some_iff,
      Effect.bl.injEq, reduceCtorEq, and_false, exists_false, false_or, or_false, true_and]
    constructor
    · rintro ⟨k, bl', len, buildType, ⟨⟨x, hx, hval⟩, hlast⟩, rfl, rfl⟩
      obtain rfl := Option.some.inj (h.symm.trans hx)
      simp only [readBlSlot, hbl, Option.some.injEq, ReadBlSlot.mk.injEq] at hval
      obtain ⟨rfl, rfl, rfl⟩ := hval
      exact ⟨hlast, by rw [hown hlast]⟩
    · rintro ⟨hlast, rfl⟩
      refine ⟨i, bl, c.len, c.isRelease, ⟨⟨_, h, ?_⟩, hlast⟩, rfl, ?_⟩
      · rw [readBlSlot, hbl]
      · rw [hown hlast]
  -- a call without a chain asks for nothing
  cases hbl : c.bl with
  | none => simp [Filled, hbl]
  | some bl =>
    have hpaged := c.paged bl hbl
    have hiff := @readCallback_isSome_iff _ c.len _ _ hpaged (c.room bl hbl)
    simp only [Filled, hbl, Option.isSome_some, true_imp_iff, hmem _ bl hbl, Option.some.injEq,
      forall_eq']
    constructor
    · rintro ⟨after, ⟨hlast, hafter⟩, -⟩
      exact ⟨hlast, hiff.mp ⟨after, hafter.symm⟩⟩
    · rintro ⟨hlast, hfull⟩
      obtain ⟨after, hafter⟩ := hiff.mpr hfull
      refine ⟨after, ⟨hlast, hafter.symm⟩, ?_⟩
      rw [chainBytes_readCallback hpaged hafter]
      exact List.prefix_append _ _

/-- No write is made to `*bytesRead` or to the output of an exec. -/
theorem not_filled_read (result : BufferList) : ¬ Filled (writes calls) i (.read true result) := by
  intro h
  have hwrite := (h rfl).2
  simp [writes, mem_deliveries, mem_deliverRead, mem_deliverXattr, mem_deliverXattrs,
    mem_deliverChecksum] at hwrite

theorem not_filled_exec (result : Bytes) : ¬ Filled (writes calls) i (.exec result) := by
  intro h
  have hwrite := h.1
  simp [writes, mem_deliveries, mem_deliverRead, mem_deliverXattr, mem_deliverXattrs,
    mem_deliverChecksum] at hwrite

/-- Call `i` is no plain read that is carried out and no exec; if it wants an output it is the
last call of its kind. A chain has full lists wherever the result goes past one, and checksums
are at least as many bytes as are asked for. -/
def Deliverable (calls : List Call) (i : ℕ) : Call → Prop
  | .read valid _ => valid = false
  | .readBl c => ∀ bl, c.bl = some bl →
    IsLast readBlSlot calls i ∧ PassesOnlyFull c.result.data.length bl
  | .getXattr _ _ => IsLast xattrSlot calls i
  | .getXattrs _ => IsLast xattrsSlot calls i
  | .checkSum valid checkSumLen result =>
    valid = true → IsLast checkSumSlot calls i ∧ checkSumLen ≤ result.length
  | .exec _ => False

theorem filled_iff_deliverable (hread : lastOf readSlot calls = none) {c : Call}
    (h : calls[i]? = some c) : Filled (writes calls) i c ↔ Deliverable calls i c := by
  cases c with
  | read valid result =>
    have hno := lastOf_eq_none_iff.mp hread _ (List.mem_of_getElem? h)
    cases valid with
    | true => cases hno
    | false => simp [Filled, Deliverable]
  | readBl c => exact filled_readBl_iff h hread
  | getXattr name result => exact filled_getXattr_iff h
  | getXattrs result => exact filled_getXattrs_iff h
  | checkSum valid checkSumLen result => exact filled_checkSum_iff h
  | exec result => exact iff_of_false (not_filled_exec result) id

/-- **Outputs of a read operation.** For every sequence of calls, all outputs are filled with
their own results when the operation completes with 0, exactly if every call is deliverable. -/
theorem readOp_delivers_iff (calls : List Call) :
    Delivers calls ↔ ∀ i c, calls[i]? = some c → Deliverable calls i c := by
  rw [delivers_iff_filled]
  cases hread : lastOf readSlot calls with
  | none =>
    refine forall_congr' fun i => forall_congr' fun c => ?_
    exact imp_congr_right fun h => filled_iff_deliverable hread h
  | some slot =>
    -- a plain read: its count is missing, and no condition admits it
    obtain ⟨⟨c, hc, hslot⟩, -⟩ := lastOf_eq_some_iff.mp hread
    cases c with
    | read valid result =>
      cases valid with
      | true =>
        refine iff_of_false ?_ ?_
        · intro h
          exact not_filled_read result (h slot.1 _ hc)
        · intro h
          exact absurd (h slot.1 _ hc) (by simp [Deliverable])
      | false => cases hslot
    | _ => cases hslot

end Deliverable

/-- The count of a plain read is not written, the output of an exec is not copied, and of two
xattrs only the second one is. -/
theorem readOp_loses_outputs :
    ¬ Delivers [.read true ⟨[7], by decide⟩] ∧ ¬ Delivers [.exec [7]] ∧
      ¬ Delivers [.getXattr [97] [1], .getXattr [98] [2]] := by
  simp only [delivers_iff_filled]
  refine ⟨?_, ?_, ?_⟩
  · intro h
    exact not_filled_read _ (h 0 _ rfl)
  · intro h
    exact not_filled_exec _ (h 0 _ rfl)
  · intro h
    have hlast := (filled_getXattr_iff rfl).mp (h 0 _ rfl)
    cases hlast 1 _ (by decide) rfl

end GcAdaptor.ReadOp
