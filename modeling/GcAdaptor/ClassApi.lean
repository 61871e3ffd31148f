/-
Replies between the cache core and the class methods.

A class method reaches the cache core through `cls_cxx_*` (`server_adaptor/class_api.cc`): the
function fills one sub-op, swaps a fresh one-element `ops` under the request, calls `cbFunc`
and decodes what the core left in `ops[0].outdata`. The core writes those bytes with the
`Encode*` functions of `server_adaptor/network_module.cpp`, which are written by hand, entry
by entry.

The decoders read the generic Ceph formats, so each pair is a statement about `Wire` codecs:
what the encoder appends is the writing of the batch. It is for every encoder but one:
`EncodeOmapGetvals` writes no length for an empty key or value while the count in front
still counts the pair.
-/
import Mathlib.Algebra.Order.BigOperators.Group.List
import GcAdaptor.NetworkModule

set_option autoImplicit false

namespace GcAdaptor.ClassApi

open GcAdaptor.Wire GcAdaptor.Cxx GcAdaptor.MsgModule GcAdaptor.NetworkModule
open GcAdaptor.Wire.Codec (le leEnc str pair many)

def EIO : ℤ := 5
def ENOENT : ℤ := 2

/-! ## Batches -/

/-- `SaStr`: a length and a pointer, which may be null. The length is that of the buffer. -/
structure SaStr where
  buf : Option Bytes
  fits : (buf.getD []).length < 2 ^ 32

/-- `std::string_view(buf, len)` -/
def SaStr.view (s : SaStr) : Bytes := s.buf.getD []

def SaStr.len (s : SaStr) : ℕ := s.view.length

/-- `SaBatchKv`: two arrays of `kvNum` strings. -/
structure SaBatchKv where
  keys : List SaStr
  values : List SaStr
  kvNum : UInt32
  keys_length : keys.length = kvNum.toNat
  values_length : values.length = kvNum.toNat

/-- `SaBatchKeys` -/
structure SaBatchKeys where
  keys : List SaStr
  nums : UInt32
  keys_length : keys.length = nums.toNat

/-- The pairs `keys[j]`, `values[j]`. -/
def SaBatchKv.entries (kv : SaBatchKv) : List (Bytes × Bytes) :=
  (kv.keys.zip kv.values).map fun p => (p.1.view, p.2.view)

/-! ## The encoders -/

/-- What the encoders share: nothing happens for a null argument or an index past the end,
otherwise `f` rewrites `ops[i].outdata`. -/
def onOutdata {α : Type} (arg : Option α) (i : ℕ) (f : α → Bytes → Bytes) :
    Option (List OSDOp) → Option (List OSDOp)
  | none => none
  | some ops =>
    match arg with
    | none => some ops
    | some a =>
      if ops.length ≤ i then some ops
      else some (ops.modify i fun op => { op with outdata := f a op.outdata })

/-- What `EncodeOmapGetkeys` appends: the count, `bl`, and `false`. -/
def getkeysBytes (b : SaBatchKeys) : Bytes :=
  leEnc 4 b.nums.toNat ++ b.keys.flatMap (fun k => str.enc k.view) ++ leEnc 1 0

def encodeOmapGetkeys (batchKeys : Option SaBatchKeys) (i : ℕ) :
    Option (List OSDOp) → Option (List OSDOp) :=
  onOutdata batchKeys i fun b outdata => outdata ++ getkeysBytes b

/-- `if (s.buf && s.len) encode(string_view(s.buf, s.len), bl)` -/
def encodeNonEmpty (s : SaStr) : Bytes :=
  if s.buf.isSome ∧ s.len ≠ 0 then str.enc s.view else []

/-- What `EncodeOmapGetvals` appends: the count, `bl`, and `false`. -/
def getvalsBytes (kv : SaBatchKv) : Bytes :=
  leEnc 4 kv.kvNum.toNat ++
    (kv.keys.zip kv.values).flatMap (fun p => encodeNonEmpty p.1 ++ encodeNonEmpty p.2) ++ leEnc 1 0

def encodeOmapGetvals (kvs : Option SaBatchKv) (i : ℕ) :
    Option (List OSDOp) → Option (List OSDOp) :=
  onOutdata kvs i fun kv outdata => outdata ++ getvalsBytes kv

/-- `encode` of the map that the pairs are inserted into. -/
def appendMap (kv : SaBatchKv) (outdata : Bytes) : Bytes :=
  outdata ++ kvCodec.enc (mapOfInserts kv.entries)

def encodeOmapGetvalsbykeys (keyValue : Option SaBatchKv) (i : ℕ) :
    Option (List OSDOp) → Option (List OSDOp) :=
  onOutdata keyValue i appendMap

def encodeXattrGetXattrs (keyValue : Option SaBatchKv) (i : ℕ) :
    Option (List OSDOp) → Option (List OSDOp) :=
  onOutdata keyValue i appendMap

/-- `time_t` is a signed word of 64 bits. -/
def encodeGetOpstat (psize : UInt64) (ptime : Int64) (i : ℕ) :
    Option (List OSDOp) → Option (List OSDOp) :=
  onOutdata (some ()) i fun _ outdata =>
    outdata ++ leEnc 8 psize.toNat ++ leEnc 8 ptime.toUInt64.toNat

/-! ## The class API -/

/-- `SaOpContext`. `cbFunc` returns its result and what it leaves in `ptrMosdop->ops`. -/
structure SaOpContext where
  opReq : SaOpReq
  opId : ℕ
  cbFunc : SaOpReq → ℤ × List OSDOp

/-- One call of the cache core: the request with `op` as its only sub-op and a fresh `OSDOp`
for the answer. -/
def SaOpContext.call (pctx : SaOpContext) (op : OpRequestOps) : ℤ × Bytes :=
  let ptr := pctx.opReq.ptrMosdop
  let (r, ops) := pctx.cbFunc { pctx.opReq with
    vecOps := [op]
    ptrMosdop := { ptr with ops := [{ op := { op := .other 0 } }] } }
  (r, (ops.head?.map (·.outdata)).getD [])

/-- The call, its early return, and the decoding under `catch (buffer::error &)`. With the
decoded values stand the bytes that were not read. -/
def clsDecode {α : Type} (pctx : SaOpContext) (op : OpRequestOps)
    (dec : Bytes → Option (α × Bytes)) (ret : α → ℤ) : ℤ × Option (α × Bytes) :=
  let (r, outdata) := pctx.call op
  if r < 0 then (r, none)
  else
    match dec outdata with
    | none => (- EIO, none)
    | some (a, rest) => (ret a, some (a, rest))

def startAfter : Bytes := ascii ['s','t','a','r','t','_','a','f','t','e','r']
def maxReturn : Bytes := ascii ['m','a','x','_','r','e','t','u','r','n']
def filterPrefix : Bytes := ascii ['f','i','l','t','e','r','_','p','r','e','f','i','x']

/-- `decode(*vals, iter); decode(*more, iter)` -/
def decodeVals (bs : Bytes) : Option ((List (Bytes × Bytes) × Bool) × Bytes) := do
  let (kvs, bs) ← kvCodec.dec bs
  let (more, bs) ← (le 1).dec bs
  some ((mapOf kvs, more ≠ 0), bs)

/-- `decode(*keys, iter); decode(*more, iter)` -/
def decodeKeys (bs : Bytes) : Option ((List Bytes × Bool) × Bytes) := do
  let (ks, bs) ← (many str).dec bs
  let (more, bs) ← (le 1).dec bs
  some ((setOf ks, more ≠ 0), bs)

/-- `decode(s, iter); decode(ut, iter)`, with `utime_t` in two words. -/
def decodeStat (bs : Bytes) : Option ((ℕ × ℤ) × Bytes) := do
  let (s, bs) ← (le 8).dec bs
  let (sec, bs) ← (le 4).dec bs
  let (_, bs) ← (le 4).dec bs
  some ((s, (sec : ℤ)), bs)

def clsCxxMapGetAllVals (pctx : SaOpContext) :
    ℤ × Option ((List (Bytes × Bytes) × Bool) × Bytes) :=
  clsDecode pctx
    { opSubType := .omapgetvals
      objName := pctx.opReq.ptrMosdop.name
      keys := [startAfter, maxReturn, filterPrefix]
      values := [[], toDecimal (2 ^ 64 - 1), []] }
    decodeVals fun v => int32 v.1.length

def clsCxxMapGetKeys (pctx : SaOpContext) (startObj : Bytes) (maxToGet : UInt64) :
    ℤ × Option ((List Bytes × Bool) × Bytes) :=
  clsDecode pctx
    { opSubType := .omapgetkeys
      objName := pctx.opReq.ptrMosdop.name
      keys := [startAfter, maxReturn]
      values := [startObj, toDecimal maxToGet.toNat] }
    decodeKeys fun v => int32 v.1.length

def clsCxxMapGetVals (pctx : SaOpContext) (startObj prefixObj : Bytes) (maxToGet : UInt64) :
    ℤ × Option ((List (Bytes × Bytes) × Bool) × Bytes) :=
  clsDecode pctx
    { opSubType := .omapgetvals
      objName := pctx.opReq.ptrMosdop.name
      keys := [startAfter, maxReturn, filterPrefix]
      values := [startObj, toDecimal maxToGet.toNat, prefixObj] }
    decodeVals fun v => int32 v.1.length

/-- The return value and `*outbl`: the value of the first entry, whatever its key. -/
def clsCxxMapGetVal (pctx : SaOpContext) (key : Bytes) : ℤ × Option Bytes :=
  let (r, outdata) := pctx.call
    { opSubType := .omapgetvalsbykeys
      objName := pctx.opReq.ptrMosdop.name
      keys := [key] }
  if r < 0 then (r, none)
  else
    match kvCodec.dec outdata with
    | none => (- EIO, none)
    | some (kvs, _) =>
      match mapOf kvs with
      | [] => (-ENOENT, none)
      | (_, v) :: _ => (0, some v)

def clsCxxGetxattrs (pctx : SaOpContext) : ℤ × Option (List (Bytes × Bytes) × Bytes) :=
  clsDecode pctx { opSubType := .getxattrs, objName := pctx.opReq.ptrMosdop.name }
    (fun bs => (kvCodec.dec bs).map fun p => (mapOf p.1, p.2)) fun _ => 0

/-- The return value with `*size` and `*mtime`. -/
def clsCxxStat (pctx : SaOpContext) : ℤ × Option ((ℕ × ℤ) × Bytes) :=
  clsDecode pctx { opSubType := .stat, objName := pctx.opReq.ptrMosdop.name } decodeStat fun _ => 0

/-! ## Replies -/

/-- A context in which the cache core answers with result `r` and what `enc` leaves in
`ops[0].outdata`. -/
def answered (opReq : SaOpReq) (opId r : ℕ)
    (enc : ℕ → Option (List OSDOp) → Option (List OSDOp)) : SaOpContext :=
  { opReq := opReq
    opId := opId
    cbFunc := fun opreq => (r, (enc 0 (some opreq.ptrMosdop.ops)).getD []) }

section Replies

variable {α β : Type} {opReq : SaOpReq} {opId r : ℕ} {op : OpRequestOps}

theorem call_answered (a : α) (f : α → Bytes → Bytes) :
    (answered opReq opId r fun i => onOutdata (some a) i f).call op = ((r : ℤ), f a []) := rfl

section Decode

variable {a : α} {f : α → Bytes → Bytes} {dec : Bytes → Option (β × Bytes)} {ret : β → ℤ} {b : β}
variable {rest : Bytes}

/-- A decoding class function on such an answer. -/
theorem clsDecode_of_some (h : dec (f a []) = some (b, rest)) :
    clsDecode (answered opReq opId r fun i => onOutdata (some a) i f) op dec ret =
      (ret b, some (b, rest)) := by
  have hr : ¬ (r : ℤ) < 0 := by omega
  simp only [clsDecode, call_answered, h]
  exact if_neg hr

theorem some_of_clsDecode {z : ℤ}
    (h : clsDecode (answered opReq opId r fun i => onOutdata (some a) i f) op dec ret =
      (z, some (b, rest))) : dec (f a []) = some (b, rest) ∧ z = ret b := by
  cases hdec : dec (f a []) with
  | none =>
    simp only [clsDecode, call_answered, hdec] at h
    split_ifs at h <;> simp at h
  | some p =>
    obtain ⟨b', rest'⟩ := p
    rw [clsDecode_of_some hdec] at h
    simp only [Prod.mk.injEq, Option.some.injEq] at h
    obtain ⟨rfl, rfl, rfl⟩ := h
    exact ⟨rfl, rfl⟩

end Decode

theorem length_entries (kv : SaBatchKv) : kv.entries.length = kv.kvNum.toNat := by
  simp [SaBatchKv.entries, kv.keys_length, kv.values_length]

theorem keys_entries (kv : SaBatchKv) : kv.entries.map (·.1) = kv.keys.map SaStr.view := by
  have hlen : kv.keys.length ≤ kv.values.length := by rw [kv.keys_length, kv.values_length]
  have hzip := List.map_fst_zip hlen
  calc kv.entries.map (·.1) = (kv.keys.zip kv.values).map fun p => p.1.view := by
        rw [SaBatchKv.entries, List.map_map]
        rfl
    _ = ((kv.keys.zip kv.values).map Prod.fst).map SaStr.view := by
        rw [List.map_map]
        rfl
    _ = kv.keys.map SaStr.view := by rw [hzip]

theorem str_ok (s : SaStr) : str.Ok s.view := s.fits

/-- The format can hold every batch. -/
theorem kvCodec_ok {kvs : List (Bytes × Bytes)} (kv : SaBatchKv) (h : kvs.Perm kv.entries) :
    kvCodec.Ok kvs := by
  constructor
  · rw [h.length_eq, length_entries]
    exact kv.kvNum.toNat_lt
  · intro p hp
    obtain ⟨q, -, rfl⟩ := List.mem_map.mp (h.mem_iff.mp hp)
    exact ⟨str_ok q.1, str_ok q.2⟩

/-! ## Maps, sets and times -/

theorem decodeVals_enc {kvs : List (Bytes × Bytes)} (h : kvCodec.Ok kvs) :
    decodeVals (kvCodec.enc kvs ++ leEnc 1 0) = some ((mapOf kvs, false), []) := by
  rw [decodeVals, kvCodec.dec_enc h]
  rfl

theorem decodeKeys_enc {ks : List Bytes} (h : (many str).Ok ks) :
    decodeKeys ((many str).enc ks ++ leEnc 1 0) = some ((setOf ks, false), []) := by
  rw [decodeKeys, (many str).dec_enc h]
  rfl

/-- A reply with keys is the writing of the keys. -/
theorem getkeysBytes_eq (b : SaBatchKeys) :
    getkeysBytes b = (many str).enc (b.keys.map SaStr.view) ++ leEnc 1 0 := by
  simp only [getkeysBytes, many, List.length_map, b.keys_length, List.flatMap_map]

theorem many_str_ok (b : SaBatchKeys) : (many str).Ok (b.keys.map SaStr.view) := by
  constructor
  · rw [List.length_map, b.keys_length]
    exact b.nums.toNat_lt
  · intro bs hbs
    obtain ⟨s, -, rfl⟩ := List.mem_map.mp hbs
    exact str_ok s

/-- A map that was encoded from distinct pairs is read back as these pairs. -/
theorem appendMap_dec (kv : SaBatchKv) (hd : (kv.keys.map SaStr.view).Nodup) :
    ∃ m, kvCodec.dec (appendMap kv []) = some (m, []) ∧ (mapOf m).Perm kv.entries := by
  rw [← keys_entries] at hd
  have hperm := mapOf_perm hd
  have hkeys : ((mapOf kv.entries).map (·.1)).Nodup := (hperm.map _).nodup_iff.mpr hd
  refine ⟨mapOf kv.entries, ?_, (mapOf_perm hkeys).trans hperm⟩
  have hdec := kvCodec.dec_enc (kvCodec_ok kv hperm) []
  rw [List.append_nil] at hdec
  rw [appendMap, List.nil_append, mapOfInserts_eq hd]
  exact hdec

/-- `cls_cxx_map_get_val` on an answer: the first entry of the map decides. -/
theorem clsCxxMapGetVal_answered {kv : SaBatchKv} {m : List (Bytes × Bytes)} (key : Bytes)
    (hdec : kvCodec.dec (appendMap kv []) = some (m, [])) :
    clsCxxMapGetVal (answered opReq opId r (encodeOmapGetvalsbykeys (some kv))) key =
      match mapOf m with
      | [] => (-ENOENT, none)
      | (_, v) :: _ => (0, some v) := by
  have hcall : ∀ op, (answered opReq opId r (encodeOmapGetvalsbykeys (some kv))).call op =
      ((r : ℤ), appendMap kv []) := fun _ => rfl
  have hr : ¬ (r : ℤ) < 0 := by omega
  simp only [clsCxxMapGetVal, hcall, hdec]
  exact if_neg hr

/-- An 8-byte word is two 4-byte words. -/
theorem leEnc_eight {n : ℕ} (h : n < 2 ^ 32) : leEnc 8 n = leEnc 4 n ++ leEnc 4 0 := by
  have hzero : n / 256 / 256 / 256 / 256 = 0 := by omega
  simp only [leEnc, hzero, List.cons_append, List.nil_append]

theorem decodeStat_enc (psize : UInt64) {sec : ℕ} (h : sec < 2 ^ 32) :
    decodeStat (leEnc 8 psize.toNat ++ leEnc 8 sec) = some ((psize.toNat, (sec : ℤ)), []) := by
  have hsize : (le 8).Ok psize.toNat := psize.toNat_lt
  have hsec : (le 4).Ok sec := h
  have hs : (le 8).dec (leEnc 8 psize.toNat ++ (leEnc 4 sec ++ leEnc 4 0)) =
      some (psize.toNat, leEnc 4 sec ++ leEnc 4 0) := (le 8).dec_enc hsize _
  have ht : (le 4).dec (leEnc 4 sec ++ leEnc 4 0) = some (sec, leEnc 4 0) :=
    (le 4).dec_enc hsec _
  rw [leEnc_eight h, decodeStat, hs]
  simp only [Option.bind_eq_bind, Option.bind_some, ht]
  rfl

end Replies

/-- The agreement of the other four pairs of an encoder and a class function. -/
structure RepliesAgree (opReq : SaOpReq) (opId r : ℕ) : Prop where
  getkeys : ∀ (b : SaBatchKeys) (startObj : Bytes) (maxToGet : UInt64),
    (b.keys.map SaStr.view).Nodup → ∃ ks,
      clsCxxMapGetKeys (answered opReq opId r (encodeOmapGetkeys (some b))) startObj maxToGet =
        (int32 b.nums.toNat, some ((ks, false), [])) ∧ ks.Perm (b.keys.map SaStr.view)
  getval : ∀ (kv : SaBatchKv) (key value : SaStr), kv.keys = [key] → kv.values = [value] →
    clsCxxMapGetVal (answered opReq opId r (encodeOmapGetvalsbykeys (some kv))) key.view =
      (0, some value.view)
  getval_absent : ∀ (kv : SaBatchKv) (key : Bytes), kv.kvNum = 0 →
    clsCxxMapGetVal (answered opReq opId r (encodeOmapGetvalsbykeys (some kv))) key =
      (-ENOENT, none)
  getxattrs : ∀ kv : SaBatchKv, (kv.keys.map SaStr.view).Nodup → ∃ m,
    clsCxxGetxattrs (answered opReq opId r (encodeXattrGetXattrs (some kv))) =
      (0, some (m, [])) ∧ m.Perm kv.entries
  stat : ∀ (psize : UInt64) (ptime : Int64), 0 ≤ ptime.toInt → ptime.toInt < 2 ^ 32 →
    clsCxxStat (answered opReq opId r (encodeGetOpstat psize ptime)) =
      (0, some ((psize.toNat, ptime.toInt), []))

/-- **The replies agree**, whatever the request and the result of the cache core. -/
theorem replies_agree (opReq : SaOpReq) (opId r : ℕ) : RepliesAgree opReq opId r where
  getkeys b startObj maxToGet hd := by
    have hperm := setOf_perm hd
    have hdec := decodeKeys_enc (many_str_ok b)
    rw [← getkeysBytes_eq] at hdec
    refine ⟨setOf (b.keys.map SaStr.view), ?_, hperm⟩
    rw [clsCxxMapGetKeys]
    refine (clsDecode_of_some hdec).trans ?_
    rw [hperm.length_eq, List.length_map, b.keys_length]
  getval kv key value hkeys hvalues := by
    obtain ⟨m, hdec, hperm⟩ := appendMap_dec kv (by simp [hkeys])
    have hone : mapOf m = [(key.view, value.view)] := by
      simpa [SaBatchKv.entries, hkeys, hvalues] using hperm
    rw [clsCxxMapGetVal_answered _ hdec, hone]
  getval_absent kv key hzero := by
    -- an empty batch comes back as an empty map, and the key is not in it
    have hnil : kv.entries = [] := by
      apply List.length_eq_zero_iff.mp
      rw [length_entries, hzero]
      rfl
    have hkeys : kv.keys.map SaStr.view = [] := by rw [← keys_entries, hnil, List.map_nil]
    obtain ⟨m, hdec, hperm⟩ := appendMap_dec kv (by simp [hkeys])
    have hnone : mapOf m = [] := by simpa [hnil] using hperm
    rw [clsCxxMapGetVal_answered _ hdec, hnone]
  getxattrs kv hd := by
    obtain ⟨m, hdec, hperm⟩ := appendMap_dec kv hd
    refine ⟨mapOf m, ?_, hperm⟩
    rw [clsCxxGetxattrs]
    apply clsDecode_of_some
    rw [hdec]
    rfl
  stat psize ptime hlo hhi := by
    -- the seconds are written as 32 bits
    have hsec : ptime.toUInt64.toNat = ptime.toInt.toNat :=
      Int64.toNat_toUInt64_of_le (Int64.le_iff_toInt_le.mpr hlo)
    have hlt : ptime.toInt.toNat < 2 ^ 32 := by omega
    have hdec := decodeStat_enc psize hlt
    rw [← hsec] at hdec
    rw [clsCxxStat]
    refine (clsDecode_of_some hdec).trans ?_
    rw [hsec, Int.toNat_of_nonneg hlo]

/-! ## `EncodeOmapGetvals` -/

section Getvals

variable {kv : SaBatchKv} {s : SaStr}

theorem encodeNonEmpty_of_ne (h : s.len ≠ 0) : encodeNonEmpty s = str.enc s.view := by
  apply if_pos
  refine ⟨?_, h⟩
  by_contra hnull
  rw [Bool.not_eq_true, Option.isSome_eq_false_iff, Option.isNone_iff_eq_none] at hnull
  simp [SaStr.len, SaStr.view, hnull] at h

theorem length_encodeNonEmpty_le (s : SaStr) :
    (encodeNonEmpty s).length ≤ (str.enc s.view).length := by
  by_cases h : s.len = 0
  · simp [encodeNonEmpty, h]
  · rw [encodeNonEmpty_of_ne h]

/-- The length prefix that is not written. -/
theorem length_encodeNonEmpty_lt (h : s.len = 0) :
    (encodeNonEmpty s).length < (str.enc s.view).length := by
  simp [encodeNonEmpty, h, str]

/-- With no empty string the reply is the writing of the batch. -/
theorem getvalsBytes_of_ne (h : ∀ s ∈ kv.keys ++ kv.values, s.len ≠ 0) :
    getvalsBytes kv = kvCodec.enc kv.entries ++ leEnc 1 0 := by
  have hbody : (kv.keys.zip kv.values).flatMap (fun p => encodeNonEmpty p.1 ++ encodeNonEmpty p.2) =
      kv.entries.flatMap (pair str str).enc := by
    rw [SaBatchKv.entries, List.flatMap_map]
    apply List.flatMap_congr
    intro p hp
    obtain ⟨hkey, hvalue⟩ := List.of_mem_zip hp
    rw [encodeNonEmpty_of_ne (h _ (List.mem_append_left _ hkey)),
      encodeNonEmpty_of_ne (h _ (List.mem_append_right _ hvalue))]
    rfl
  rw [getvalsBytes, hbody, ← length_entries]
  rfl

/-- How long the writing of an entry is. -/
def entrySize (p : Bytes × Bytes) : ℕ := ((pair str str).enc p).length

theorem length_kvCodec (kvs : List (Bytes × Bytes)) :
    (kvCodec.enc kvs).length = 4 + (kvs.map entrySize).sum := by
  simp only [kvCodec, many, List.length_append, Codec.leEnc_length, List.length_flatMap]
  rfl

theorem length_getvalsBytes (kv : SaBatchKv) :
    (getvalsBytes kv).length = 4 + ((kv.keys.zip kv.values).map fun p =>
      (encodeNonEmpty p.1).length + (encodeNonEmpty p.2).length).sum + 1 := by
  simp only [getvalsBytes, List.length_append, Codec.leEnc_length, List.length_flatMap]

/-- A map keeps at most what was assigned. -/
theorem sum_mapOf_le (kvs : List (Bytes × Bytes)) :
    ((mapOf kvs).map entrySize).sum ≤ (kvs.map entrySize).sum := by
  obtain ⟨l, hperm, hsub⟩ := mapOf_subperm kvs
  calc ((mapOf kvs).map entrySize).sum = (l.map entrySize).sum := (hperm.map _).sum_eq.symm
    _ ≤ (kvs.map entrySize).sum := (hsub.map _).sum_le_sum fun _ _ => Nat.zero_le _

/-- **What a complete decoding takes.** The entries read are as long as their writing, and the
map keeps no more than what was read, so no prefix can be missing. -/
theorem ne_of_decodeVals {vals : List (Bytes × Bytes)} {more : Bool}
    (h : decodeVals (getvalsBytes kv) = some ((vals, more), [])) (hperm : vals.Perm kv.entries) :
    ∀ p ∈ kv.keys.zip kv.values, p.1.len ≠ 0 ∧ p.2.len ≠ 0 := by
  simp only [decodeVals, Option.bind_eq_bind, Option.bind_eq_some_iff, Prod.exists,
    Option.some.injEq, Prod.mk.injEq] at h
  obtain ⟨kvs, rest, hkvs, n, rest', hmore, ⟨rfl, -⟩, rfl⟩ := h
  obtain ⟨-, hbytes⟩ := (kvCodec.dec_iff _ _ _).mp hkvs
  obtain ⟨-, hrest⟩ := ((le 1).dec_iff _ _ _).mp hmore
  have hone : rest.length = 1 := by
    rw [hrest, List.append_nil]
    exact Codec.leEnc_length 1 n
  have hlen := congrArg List.length hbytes
  rw [length_getvalsBytes, List.length_append, length_kvCodec, hone] at hlen
  have hread := sum_mapOf_le kvs
  rw [(hperm.map entrySize).sum_eq, SaBatchKv.entries, List.map_map] at hread
  -- a string without its prefix makes the reply shorter than the writing of the batch
  by_contra hex
  push Not at hex
  obtain ⟨p, hp, hempty⟩ := hex
  have hlt : ((kv.keys.zip kv.values).map fun p =>
      (encodeNonEmpty p.1).length + (encodeNonEmpty p.2).length).sum <
      ((kv.keys.zip kv.values).map (entrySize ∘ fun p => (p.1.view, p.2.view))).sum := by
    have hsize : ∀ p : SaStr × SaStr, (entrySize ∘ fun p => (p.1.view, p.2.view)) p =
        (str.enc p.1.view).length + (str.enc p.2.view).length := by
      intro p
      simp [entrySize, pair]
    apply List.sum_lt_sum
    · intro q _
      rw [hsize]
      exact Nat.add_le_add (length_encodeNonEmpty_le q.1) (length_encodeNonEmpty_le q.2)
    · refine ⟨p, hp, ?_⟩
      rw [hsize]
      have hkey := length_encodeNonEmpty_le p.1
      have hvalue := length_encodeNonEmpty_le p.2
      by_cases hk : p.1.len = 0
      · have := length_encodeNonEmpty_lt hk
        omega
      · have := length_encodeNonEmpty_lt (hempty hk)
        omega
  omega

/-- The result carries the whole batch: as many as there are, no more to come, every pair
in the map, and no byte unread. -/
def IsWhole (kv : SaBatchKv) (res : ℤ × Option ((List (Bytes × Bytes) × Bool) × Bytes)) : Prop :=
  ∃ vals, res = ((kv.kvNum.toNat : ℤ), some ((vals, false), [])) ∧ vals.Perm kv.entries

/-- Both class functions that read values return the batch the cache core was given. -/
def GetvalsRoundTrip (kv : SaBatchKv) : Prop :=
  ∀ (opReq : SaOpReq) (opId r : ℕ),
    (∀ (startObj prefixObj : Bytes) (maxToGet : UInt64),
      IsWhole kv (clsCxxMapGetVals (answered opReq opId r (encodeOmapGetvals (some kv)))
        startObj prefixObj maxToGet)) ∧
    IsWhole kv (clsCxxMapGetAllVals (answered opReq opId r (encodeOmapGetvals (some kv))))

theorem isWhole_of_ne (hd : (kv.keys.map SaStr.view).Nodup)
    (hne : ∀ s ∈ kv.keys ++ kv.values, s.len ≠ 0) (hnum : kv.kvNum.toNat < 2 ^ 31)
    (opReq : SaOpReq) (opId r : ℕ) (op : OpRequestOps) :
    IsWhole kv (clsDecode (answered opReq opId r (encodeOmapGetvals (some kv))) op decodeVals
      fun v => int32 v.1.length) := by
  rw [← keys_entries] at hd
  have hperm := mapOf_perm hd
  have hdec := decodeVals_enc (kvCodec_ok kv (.refl _))
  rw [← getvalsBytes_of_ne hne] at hdec
  refine ⟨mapOf kv.entries, (clsDecode_of_some hdec).trans ?_, hperm⟩
  rw [hperm.length_eq, length_entries, int32_of_mem (by omega) (by exact_mod_cast hnum)]

theorem ne_of_isWhole {opReq : SaOpReq} {opId r : ℕ} {op : OpRequestOps}
    (h : IsWhole kv (clsDecode (answered opReq opId r (encodeOmapGetvals (some kv))) op decodeVals
      fun v => int32 v.1.length)) :
    (∀ s ∈ kv.keys ++ kv.values, s.len ≠ 0) ∧ kv.kvNum.toNat < 2 ^ 31 := by
  obtain ⟨vals, hres, hperm⟩ := h
  obtain ⟨hdec, hret⟩ :=
    some_of_clsDecode (a := kv) (f := fun kv outdata => outdata ++ getvalsBytes kv) hres
  constructor
  · have hpairs := ne_of_decodeVals hdec hperm
    have hle : kv.keys.length ≤ kv.values.length := by rw [kv.keys_length, kv.values_length]
    have hge : kv.values.length ≤ kv.keys.length := by rw [kv.keys_length, kv.values_length]
    intro s hs
    rcases List.mem_append.mp hs with hs | hs
    · rw [← List.map_fst_zip hle] at hs
      obtain ⟨p, hp, rfl⟩ := List.mem_map.mp hs
      exact (hpairs p hp).1
    · rw [← List.map_snd_zip hge] at hs
      obtain ⟨p, hp, rfl⟩ := List.mem_map.mp hs
      exact (hpairs p hp).2
  · -- the count comes back as an `int`
    rw [hperm.length_eq, length_entries, int32] at hret
    have := kv.kvNum.toNat_lt
    omega

end Getvals

/-- **The values reply round-trips exactly when no key and no value is empty**, and the number
of pairs fits the `int` it is returned in. -/
theorem getvals_roundTrip_iff (kv : SaBatchKv) (hd : (kv.keys.map SaStr.view).Nodup) :
    GetvalsRoundTrip kv ↔
      (∀ s ∈ kv.keys ++ kv.values, s.len ≠ 0) ∧ kv.kvNum.toNat < 2 ^ 31 := by
  constructor
  · intro h
    exact ne_of_isWhole (h { ptrMosdop := { name := [], ops := [] } } 0 0).2
  · rintro ⟨hne, hnum⟩ opReq opId r
    refine ⟨?_, isWhole_of_ne hd hne hnum opReq opId r _⟩
    intro startObj prefixObj maxToGet
    exact isWhole_of_ne hd hne hnum opReq opId r _

/-- A string of one byte. -/
def oneByte (c : Char) : SaStr := ⟨some (ascii [c]), by simp [ascii]⟩

/-- The null string. -/
def nullStr : SaStr := ⟨none, by simp⟩

/-- One pair. -/
def onePair (key value : SaStr) : SaBatchKv := ⟨[key], [value], 1, rfl, rfl⟩

theorem getvals_roundTrip_one_pair :
    ((onePair (oneByte 'k') (oneByte 'v')).keys.map SaStr.view).Nodup ∧
      GetvalsRoundTrip (onePair (oneByte 'k') (oneByte 'v')) := by
  have hd : ((onePair (oneByte 'k') (oneByte 'v')).keys.map SaStr.view).Nodup := by decide
  exact ⟨hd, (getvals_roundTrip_iff _ hd).mpr ⟨by simp [onePair, oneByte, SaStr.len, SaStr.view,
    ascii], by decide⟩⟩

/-- One key with an empty value: the reply ends where the length of the value should be. -/
theorem getvals_empty_value_lost :
    ¬ ∀ kv : SaBatchKv, (kv.keys.map SaStr.view).Nodup → GetvalsRoundTrip kv := by
  intro h
  obtain ⟨-, vals, hres, -⟩ := h (onePair (oneByte 'k') nullStr) (by decide)
    { ptrMosdop := { name := [], ops := [] } } 0 0
  have hret : (clsCxxMapGetAllVals (answered { ptrMosdop := { name := [], ops := [] } } 0 0
      (encodeOmapGetvals (some (onePair (oneByte 'k') nullStr))))).1 = - EIO := by decide
  rw [hres] at hret
  have hone : (1 : ℤ) = - EIO := hret
  exact absurd hone (by decide)

end GcAdaptor.ClassApi
