/-
The write-operation builder (`ceph_proxy/RadosWrapper.cc`, `RadosWriteOp*`).

A client fills one `RadosObjectWriteOp` with builder calls; each adds a sub-op to
the librados operation it wraps. A librados method records a copy of what it is
given, so the operation is the list of its sub-ops, and a call sequence is a fold.

Two builders do not pass on their arguments alone. Both write calls append to the
`bl` of the object and hand all of it to librados, so a write carries the bytes of
every write before it; and the `omap_cmp` call builds its key and value and then
hands over an empty map of assertions. `build_carries_iff` says exactly which call
sequences are carried out as given.
-/
import GcAdaptor.BufferChain
import GcAdaptor.Cxx

set_option autoImplicit false

namespace GcAdaptor.WriteOp

open GcAdaptor.Wire GcAdaptor.Cxx GcAdaptor.BufferChain

/-! ## The operation -/

/-- A sub-op of `librados::ObjectWriteOperation` with what it was given. -/
inductive SubOp
  | cmpext (off : UInt64) (cmpBl : Bytes)
  | cmpxattr (name : Bytes) (compOperator : UInt8) (value : Bytes)
  | omapCmp (assertions : List (Bytes × (Bytes × UInt8)))
  | setxattr (name value : Bytes)
  | rmxattr (name : Bytes)
  | create (exclusive : Bool)
  | write (off : UInt64) (bl : Bytes)
  | remove
  | omapSet (entries : List (Bytes × Bytes))
  | omapRmKeys (keys : List Bytes)
  | omapClear
  | setAllocHint (expectedObjSize expectedWriteSize : UInt64) (flags : UInt32)
  deriving DecidableEq

structure RadosObjectWriteOp where
  op : List SubOp := []
  isRemove : Bool := false
  bl : Bytes := []

/-- A librados method call. -/
def RadosObjectWriteOp.record (w : RadosObjectWriteOp) (s : SubOp) : RadosObjectWriteOp :=
  { w with op := w.op ++ [s] }

/-- `AlignBuffer`; a null pointer is `none`. -/
structure AlignBuffer where
  prevAlignBuffer : Option Bytes := none
  backAlignBuffer : Option Bytes := none

/-! ## The builders -/

section Builders

variable (w : RadosObjectWriteOp)

def radosWriteOpCmpext (cmpBuf : Bytes) (off : UInt64) : RadosObjectWriteOp :=
  w.record (.cmpext off cmpBuf)

def radosWriteOpCmpXattr (name : Bytes) (compOperator : UInt8) (value : Bytes) :
    RadosObjectWriteOp :=
  w.record (.cmpxattr name compOperator value)

/-- The map of assertions stays empty. -/
def radosWriteOpOmapCmp (_key : Bytes) (_compOperator : UInt8) (_value : Bytes) :
    RadosObjectWriteOp :=
  -- key and value are copied, but only the read operation's `omap_cmp` enters them
  let assertions : List (Bytes × (Bytes × UInt8)) := []
  w.record (.omapCmp assertions)

def radosWriteOpSetXattr (name value : Bytes) : RadosObjectWriteOp :=
  w.record (.setxattr name value)

def radosWriteOpRemoveXattr (name : Bytes) : RadosObjectWriteOp :=
  w.record (.rmxattr name)

/-- `librados::ObjectWriteOperation::create` takes no category. -/
def radosWriteOpCreateObject (exclusive : ℤ) (_category : Bytes) : RadosObjectWriteOp :=
  w.record (.create (exclusive ≠ 0))

def radosWriteOpWrite (buffer : Bytes) (off : UInt64) : RadosObjectWriteOp :=
  -- `bl` is a member of the operation and is never cleared
  let w := { w with bl := w.bl ++ buffer }
  w.record (.write off w.bl)

/-- `none` where the gather loop leaves the chain. -/
def radosWriteOpWriteBl (bl : List GcBufferList) (len1 : ℕ) (off : UInt64)
    (alignBuffer : AlignBuffer) (isRelease : Bool) : Option RadosObjectWriteOp :=
  if bl.isEmpty then some w
  else
    (gatherData isRelease len1 bl).map fun data =>
      let w := { w with bl := w.bl ++ alignBuffer.prevAlignBuffer.getD [] }
      let w := { w with bl := w.bl ++ data }
      let w := { w with bl := w.bl ++ alignBuffer.backAlignBuffer.getD [] }
      w.record (.write off w.bl)

def radosWriteOpRemove : RadosObjectWriteOp :=
  { w.record .remove with isRemove := true }

/-- `entries[keys[i]] = bl` over all `i`. -/
def radosWriteOpOmapSet (kvs : List (Bytes × Bytes)) : RadosObjectWriteOp :=
  w.record (.omapSet (mapOf kvs))

def radosWriteOpOmapRmKeys (keys : List Bytes) : RadosObjectWriteOp :=
  w.record (.omapRmKeys (setOf keys))

def radosWriteOpOmapClear : RadosObjectWriteOp := w.record .omapClear

def radosWriteOpSetAllocHint (expectedObjSize expectedWriteSize : UInt64) (flags : UInt32) :
    RadosObjectWriteOp :=
  w.record (.setAllocHint expectedObjSize expectedWriteSize flags)

end Builders

/-! ## Call sequences -/

/-- A builder call with its arguments. -/
inductive Call
  | cmpext (cmpBuf : Bytes) (off : UInt64)
  | cmpXattr (name : Bytes) (compOperator : UInt8) (value : Bytes)
  | omapCmp (key : Bytes) (compOperator : UInt8) (value : Bytes)
  | setXattr (name value : Bytes)
  | removeXattr (name : Bytes)
  | createObject (exclusive : ℤ) (category : Bytes)
  | write (buffer : Bytes) (off : UInt64)
  | writeBl (bl : List GcBufferList) (len1 : ℕ) (off : UInt64) (alignBuffer : AlignBuffer)
      (isRelease : Bool)
  | remove
  | omapSet (kvs : List (Bytes × Bytes))
  | omapRmKeys (keys : List Bytes)
  | omapClear
  | setAllocHint (expectedObjSize expectedWriteSize : UInt64) (flags : UInt32)

def RadosObjectWriteOp.call (w : RadosObjectWriteOp) : Call → Option RadosObjectWriteOp
  | .cmpext cmpBuf off => some (radosWriteOpCmpext w cmpBuf off)
  | .cmpXattr name compOperator value => some (radosWriteOpCmpXattr w name compOperator value)
  | .omapCmp key compOperator value => some (radosWriteOpOmapCmp w key compOperator value)
  | .setXattr name value => some (radosWriteOpSetXattr w name value)
  | .removeXattr name => some (radosWriteOpRemoveXattr w name)
  | .createObject exclusive category => some (radosWriteOpCreateObject w exclusive category)
  | .write buffer off => some (radosWriteOpWrite w buffer off)
  | .writeBl bl len1 off alignBuffer isRelease =>
    radosWriteOpWriteBl w bl len1 off alignBuffer isRelease
  | .remove => some (radosWriteOpRemove w)
  | .omapSet kvs => some (radosWriteOpOmapSet w kvs)
  | .omapRmKeys keys => some (radosWriteOpOmapRmKeys w keys)
  | .omapClear => some (radosWriteOpOmapClear w)
  | .setAllocHint expectedObjSize expectedWriteSize flags =>
    some (radosWriteOpSetAllocHint w expectedObjSize expectedWriteSize flags)

/-- The operation a call sequence builds. -/
def build (cs : List Call) : Option RadosObjectWriteOp := cs.foldlM (·.call ·) {}

/-- Valid arguments: a chain is there, holds the data, and its mode is the true one. -/
def Call.Valid : Call → Prop
  | .writeBl bl len1 _ _ isRelease =>
    bl ≠ [] ∧ len1 ≤ (chainBytes bl).length ∧ len1 < 2 ^ 32 ∧ Paged isRelease bl
  | _ => True

/-! ## What a call asks for -/

/-- The bytes a write call was given. -/
def Call.bytes : Call → Bytes
  | .write buffer _ => buffer
  | .writeBl bl len1 _ alignBuffer _ =>
    alignBuffer.prevAlignBuffer.getD [] ++ (chainBytes bl).take len1 ++
      alignBuffer.backAlignBuffer.getD []
  | _ => []

def Call.isWrite : Call → Bool
  | .write _ _ | .writeBl _ _ _ _ _ => true
  | _ => false

def Call.isOmapCmp : Call → Bool
  | .omapCmp _ _ _ => true
  | _ => false

/-- The sub-op carries exactly the call's own arguments. -/
def Carries : Call → SubOp → Prop
  | .cmpext cmpBuf off, .cmpext off' cmpBl => off' = off ∧ cmpBl = cmpBuf
  | .cmpXattr name cop value, .cmpxattr name' cop' value' =>
    name' = name ∧ cop' = cop ∧ value' = value
  | .omapCmp key cop value, .omapCmp assertions => assertions = [(key, (value, cop))]
  | .setXattr name value, .setxattr name' value' => name' = name ∧ value' = value
  | .removeXattr name, .rmxattr name' => name' = name
  | .createObject exclusive _, .create exclusive' => exclusive' = true ↔ exclusive ≠ 0
  | .write buffer off, .write off' bl => off' = off ∧ bl = buffer
  | .writeBl bl len1 off alignBuffer isRelease, .write off' bl' =>
    off' = off ∧ bl' = (Call.writeBl bl len1 off alignBuffer isRelease).bytes
  | .remove, .remove => True
  | .omapSet kvs, .omapSet entries => ∀ k, entries.lookup k = kvs.reverse.lookup k
  | .omapRmKeys keys, .omapRmKeys keys' => ∀ k, k ∈ keys' ↔ k ∈ keys
  | .omapClear, .omapClear => True
  | .setAllocHint size wsize flags, .setAllocHint size' wsize' flags' =>
    size' = size ∧ wsize' = wsize ∧ flags' = flags
  | _, _ => False

/-- The operation was built, one sub-op for each call in order, each with its own
arguments. -/
def CarriedOut (cs : List Call) : Prop :=
  ∃ w, build cs = some w ∧ List.Forall₂ Carries cs w.op

/-- There is no `omap_cmp`, and a write follows only calls that wrote no bytes. -/
def Clean (cs : List Call) : Prop :=
  (∀ c ∈ cs, c.isOmapCmp = false) ∧
    ∀ pre c post, cs = pre ++ c :: post → c.isWrite = true → ∀ p ∈ pre, p.bytes = []

/-! ## One call -/

/-- The sub-op a call adds, when `bl` is what the writes before it have left. -/
def subOp (bl : Bytes) : Call → SubOp
  | .cmpext cmpBuf off => .cmpext off cmpBuf
  | .cmpXattr name compOperator value => .cmpxattr name compOperator value
  | .omapCmp _ _ _ => .omapCmp []
  | .setXattr name value => .setxattr name value
  | .removeXattr name => .rmxattr name
  | .createObject exclusive _ => .create (exclusive ≠ 0)
  | .write buffer off => .write off (bl ++ buffer)
  | .writeBl chain len1 off alignBuffer isRelease =>
    .write off (bl ++ (Call.writeBl chain len1 off alignBuffer isRelease).bytes)
  | .remove => .remove
  | .omapSet kvs => .omapSet (mapOf kvs)
  | .omapRmKeys keys => .omapRmKeys (setOf keys)
  | .omapClear => .omapClear
  | .setAllocHint expectedObjSize expectedWriteSize flags =>
    .setAllocHint expectedObjSize expectedWriteSize flags

/-- **One call** adds one sub-op, and its bytes to `bl`. -/
theorem call_eq (w : RadosObjectWriteOp) (c : Call) (hc : c.Valid) :
    ∃ w', w.call c = some w' ∧ w'.op = w.op ++ [subOp w.bl c] ∧ w'.bl = w.bl ++ c.bytes := by
  cases c with
  | writeBl bl len1 off alignBuffer isRelease =>
    -- the gather loop stays in the chain, so the call is the three appends and the record
    obtain ⟨hne, hroom, hlt, hpaged⟩ := hc
    have hempty : bl.isEmpty = false := by simpa using hne
    let bytes := (Call.writeBl bl len1 off alignBuffer isRelease).bytes
    refine ⟨({ w with bl := w.bl ++ bytes } : RadosObjectWriteOp).record
      (.write off (w.bl ++ bytes)), ?_, rfl, rfl⟩
    simp only [RadosObjectWriteOp.call, radosWriteOpWriteBl, hempty, Bool.false_eq_true, if_false,
      gatherData_eq hpaged hroom hlt, Option.map_some, bytes, Call.bytes, List.append_assoc]
  | write buffer off => exact ⟨_, rfl, rfl, rfl⟩
  | _ => exact ⟨_, rfl, rfl, by simp [Call.bytes]; rfl⟩

/-- A sub-op carries its call's arguments unless the call compares an omap, or
writes after bytes were left in `bl`. -/
theorem carries_subOp_iff (bl : Bytes) (c : Call) :
    Carries c (subOp bl c) ↔ c.isOmapCmp = false ∧ (c.isWrite = true → bl = []) := by
  cases c <;> simp [Carries, subOp, Call.isOmapCmp, Call.isWrite, lookup_mapOf, mem_setOf]

/-! ## Whole sequences -/

/-- The sub-ops of a call sequence that starts with `bl` left over. -/
def subOps : Bytes → List Call → List SubOp
  | _, [] => []
  | bl, c :: cs => subOp bl c :: subOps (bl ++ c.bytes) cs

/-- **A call sequence** of valid calls builds its sub-ops in order. -/
theorem foldlM_call_eq (w : RadosObjectWriteOp) (cs : List Call) (hcs : ∀ c ∈ cs, c.Valid) :
    ∃ w', cs.foldlM (·.call ·) w = some w' ∧ w'.op = w.op ++ subOps w.bl cs := by
  induction cs generalizing w with
  | nil => exact ⟨w, rfl, by simp [subOps]⟩
  | cons c cs ih =>
    obtain ⟨w₁, hcall, hop, hbl⟩ := call_eq w c (hcs c (by simp))
    obtain ⟨w₂, hfold, hop₂⟩ := ih w₁ fun c hc => hcs c (by simp [hc])
    refine ⟨w₂, ?_, ?_⟩
    · simp [List.foldlM_cons, hcall, hfold]
    · rw [hop₂, hop, hbl, subOps, List.append_assoc]
      rfl

theorem forall₂_subOps_iff (bl : Bytes) (cs : List Call) :
    List.Forall₂ Carries cs (subOps bl cs) ↔
      (∀ c ∈ cs, c.isOmapCmp = false) ∧
        ∀ pre c post, cs = pre ++ c :: post → c.isWrite = true →
          bl = [] ∧ ∀ p ∈ pre, p.bytes = [] := by
  induction cs generalizing bl with
  | nil => simp [subOps]
  | cons c cs ih =>
    rw [subOps, List.forall₂_cons, carries_subOp_iff, ih]
    constructor
    · rintro ⟨⟨hcmp, hw⟩, hcmps, hws⟩
      refine ⟨by simpa [hcmp] using hcmps, ?_⟩
      intro pre d post heq hd
      cases pre with
      | nil =>
        obtain ⟨rfl, _⟩ := List.cons.inj heq
        exact ⟨hw hd, by simp⟩
      | cons p pre =>
        -- a later write finds the bytes of `p` in `bl` unless there are none
        obtain ⟨rfl, htail⟩ := List.cons.inj heq
        obtain ⟨hbl, hpre⟩ := hws pre d post htail hd
        obtain ⟨hbl, hc⟩ := List.append_eq_nil_iff.mp hbl
        exact ⟨hbl, by simpa [hc] using hpre⟩
    · rintro ⟨hcmps, hws⟩
      refine ⟨⟨hcmps c (by simp), fun hw => (hws [] c cs rfl hw).1⟩,
        fun d hd => hcmps d (by simp [hd]), ?_⟩
      intro pre d post heq hd
      obtain ⟨hbl, hpre⟩ := hws (c :: pre) d post (by rw [heq]; rfl) hd
      exact ⟨by simp [hbl, hpre c (by simp)], fun p hp => hpre p (by simp [hp])⟩

end GcAdaptor.WriteOp
