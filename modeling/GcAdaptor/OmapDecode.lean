/-
The omap payloads of `ConvertOmapOp` (`server_adaptor/msg_module.cpp`).

Four op codes carry a map or a set in Ceph's encoding: a count, then the entries in ascending
order of their keys. `OMAPSETVALS` is parsed twice, first by `decode_str_str_map_to_bl`, which
walks over the entries to find where the map ends and copies that much, and then by the
decoder from the copy; the others are decoded in place.

`omap_decodes` says that the sub-op then holds the map as it was written, that the walk stops
where the map does, and that a payload cut anywhere throws before anything is pushed.
-/
import GcAdaptor.MsgModule

set_option autoImplicit false

namespace GcAdaptor.OmapDecode

open GcAdaptor.Wire GcAdaptor.Cxx GcAdaptor.MsgModule
open GcAdaptor.Wire.Codec (le str pair many copy)

/-! ## Maps and sets of byte strings -/

/-- A `std::map` with string keys, in the order it is walked. -/
structure StrMap (β : Type) where
  entries : List (Bytes × β)
  ascending : entries.Pairwise fun p q => p.1 < q.1

/-- A `std::set` of strings. -/
structure StrSet where
  elems : List Bytes
  ascending : elems.Pairwise (· < ·)

/-- What the four op codes carry. -/
inductive Payload
  | omapsetvals (m : StrMap Bytes)
  | omaprmkeys (s : StrSet)
  | omapgetvalsbykeys (s : StrSet)
  /-- values with their comparison operators -/
  | omapCmp (m : StrMap (Bytes × Int32))

namespace Payload

def code : Payload → OpCode
  | omapsetvals _ => .omapsetvals
  | omaprmkeys _ => .omaprmkeys
  | omapgetvalsbykeys _ => .omapgetvalsbykeys
  | omapCmp _ => .omapCmp

/-- The entries of a comparison as they are written. -/
def assertions (m : StrMap (Bytes × Int32)) : List (Bytes × Bytes × ℕ) :=
  m.entries.map fun p => (p.1, p.2.1, p.2.2.toUInt32.toNat)

def encode : Payload → Bytes
  | omapsetvals m => kvCodec.enc m.entries
  | omaprmkeys s | omapgetvalsbykeys s => (many str).enc s.elems
  | omapCmp m => cmpCodec.enc (assertions m)

def keys : Payload → List Bytes
  | omapsetvals m => m.entries.map (·.1)
  | omaprmkeys s | omapgetvalsbykeys s => s.elems
  | omapCmp m => m.entries.map (·.1)

def values : Payload → List Bytes
  | omapsetvals m => m.entries.map (·.2)
  | omaprmkeys _ | omapgetvalsbykeys _ => []
  | omapCmp m => m.entries.map (·.2.1)

def subops : Payload → List ℤ
  | omapCmp m => m.entries.map (·.2.2.toInt)
  | _ => []

theorem keys_ascending (payload : Payload) : payload.keys.Pairwise (· < ·) := by
  cases payload with
  | omapsetvals m => exact List.pairwise_map.mpr m.ascending
  | omaprmkeys s => exact s.ascending
  | omapgetvalsbykeys s => exact s.ascending
  | omapCmp m => exact List.pairwise_map.mpr m.ascending

end Payload

/-! ## Payloads that fit a buffer list -/

/-- A sequence of less than 4 GiB is representable if its elements are. -/
theorem many_ok {α : Type} (c : Codec α) (as : List α)
    (hc : ∀ a ∈ as, 0 < (c.enc a).length ∧ ((c.enc a).length < 256 ^ 4 → c.Ok a))
    (hlen : ((many c).enc as).length < 256 ^ 4) : (many c).Ok as := by
  obtain ⟨hcount, hmem⟩ := Codec.length_le_of_many c as fun a ha => (hc a ha).1
  exact ⟨hcount.trans_lt hlen, fun a ha => (hc a ha).2 ((hmem a ha).trans_lt hlen)⟩

theorem length_str (s : Bytes) : (str.enc s).length = 4 + s.length := by
  simp [str]

theorem kv_ok {kvs : List (Bytes × Bytes)} (h : (kvCodec.enc kvs).length < 2 ^ 32) :
    kvCodec.Ok kvs := by
  refine many_ok _ kvs ?_ h
  intro a ha
  have hlen : ((pair str str).enc a).length = 4 + a.1.length + (4 + a.2.length) := by
    rw [← length_str, ← length_str]
    exact List.length_append
  rw [hlen]
  refine ⟨by omega, ?_⟩
  intro hlt
  exact ⟨show a.1.length < 256 ^ 4 by omega, show a.2.length < 256 ^ 4 by omega⟩

theorem keys_ok {ks : List Bytes} (h : ((many str).enc ks).length < 2 ^ 32) : (many str).Ok ks := by
  refine many_ok _ ks ?_ h
  intro s _
  rw [length_str]
  refine ⟨by omega, ?_⟩
  intro hlt
  exact show s.length < 256 ^ 4 by omega

theorem assertions_ok {m : StrMap (Bytes × Int32)}
    (h : (cmpCodec.enc (Payload.assertions m)).length < 2 ^ 32) :
    cmpCodec.Ok (Payload.assertions m) := by
  refine many_ok _ _ ?_ h
  intro a ha
  obtain ⟨p, -, rfl⟩ := List.mem_map.mp ha
  have hop : p.2.2.toUInt32.toNat < 256 ^ 4 := p.2.2.toUInt32.toNat_lt
  have hlen : ((pair str (pair str (le 4))).enc (p.1, p.2.1, p.2.2.toUInt32.toNat)).length =
      4 + p.1.length + (4 + p.2.1.length + 4) := by
    simp [pair, str, le]
    omega
  rw [hlen]
  refine ⟨by omega, ?_⟩
  intro hlt
  exact ⟨show p.1.length < 256 ^ 4 by omega, show p.2.1.length < 256 ^ 4 by omega, hop⟩

/-! ## Where the walk stops -/

/-- The walk of `decode_str_str_map_to_bl` again: what is left behind `n` entries. -/
def walkEnd : ℕ → Bytes → Option Bytes
  | 0, p => some p
  | n + 1, p => do
    let (l, p) ← (le 4).dec p
    let (_, p) ← copy l p
    let (l, p) ← (le 4).dec p
    let (_, p) ← copy l p
    walkEnd n p

/-- Where the iterator stands after `decode_str_str_map_to_bl`. -/
def strStrMapEnd (p : Bytes) : Option Bytes := do
  let (n, q) ← (le 4).dec p
  walkEnd n q

/-- Two reads make a string. -/
theorem read_str (s r : Bytes) (hs : s.length < 256 ^ 4) :
    (le 4).dec (str.enc s ++ r) = some (s.length, s ++ r) ∧
      copy s.length (s ++ r) = some (s, r) := by
  refine ⟨?_, (Codec.copy_iff _ _ _ _).mpr ⟨rfl, rfl⟩⟩
  refine ((le 4).dec_iff _ _ _).mpr ⟨hs, ?_⟩
  rw [str, List.append_assoc]
  rfl

theorem walkEnd_eq (kvs : List (Bytes × Bytes)) (r : Bytes)
    (h : ∀ a ∈ kvs, (pair str str).Ok a) :
    walkEnd kvs.length (kvs.flatMap (pair str str).enc ++ r) = some r := by
  induction kvs with
  | nil => rfl
  | cons a kvs ih =>
    obtain ⟨hkey, hvalue⟩ := h a (by simp)
    have hrest := ih fun b hb => h b (by simp [hb])
    have hsplit : (a :: kvs).flatMap (pair str str).enc ++ r =
        str.enc a.1 ++ (str.enc a.2 ++ (kvs.flatMap (pair str str).enc ++ r)) := by
      simp [pair]
    rw [hsplit, List.length_cons, walkEnd]
    simp only [(read_str a.1 _ hkey).1, (read_str a.1 _ hkey).2, (read_str a.2 _ hvalue).1,
      (read_str a.2 _ hvalue).2, Option.bind_eq_bind, Option.bind_some]
    exact hrest

theorem strStrMapEnd_eq {kvs : List (Bytes × Bytes)} (h : kvCodec.Ok kvs) (r : Bytes) :
    strStrMapEnd (kvCodec.enc kvs ++ r) = some r := by
  have hcount : (le 4).dec (kvCodec.enc kvs ++ r) =
      some (kvs.length, kvs.flatMap (pair str str).enc ++ r) := by
    refine ((le 4).dec_iff _ _ _).mpr ⟨h.1, ?_⟩
    rw [kvCodec, many, List.append_assoc]
    rfl
  rw [strStrMapEnd, hcount]
  exact walkEnd_eq kvs r h.2

/-- The copy of a complete map is the map, and both parses end behind it. -/
theorem decodeStrStrMapToBl_of_complete {bl : BufferList} {kvs : List (Bytes × Bytes)}
    {rest : Bytes} (hdata : bl.data = kvCodec.enc kvs ++ rest) :
    kvCodec.Ok kvs ∧ decodeStrStrMapToBl bl.data = some (kvCodec.enc kvs) ∧
      strStrMapEnd bl.data = some rest := by
  have hfits := bl.fits
  rw [hdata, List.length_append] at hfits
  have hok : kvCodec.Ok kvs := kv_ok (by omega)
  rw [decodeStrStrMapToBl_eq, hdata, kvCodec.dec_enc hok]
  exact ⟨hok, rfl, strStrMapEnd_eq hok rest⟩

/-! ## The conversion of a payload -/

/-- A 32-bit operator comes back from its unsigned word. -/
theorem int32_toUInt32 (x : Int32) : int32 (x.toUInt32.toNat : ℤ) = x.toInt := by
  have hword := BitVec.toInt_eq_toNat_cond x.toBitVec
  rw [Int32.toInt_toBitVec, Int32.toNat_toBitVec] at hword
  have hlt := x.toUInt32.toNat_lt
  rw [int32, hword]
  split <;> omega

/-- A sub-op with the keys, values and operators of a payload appended. -/
def Payload.pushTo (payload : Payload) (oneOp : OpRequestOps) : OpRequestOps :=
  { oneOp with
    keys := oneOp.keys ++ payload.keys
    values := oneOp.values ++ payload.values
    subops := oneOp.subops ++ payload.subops }

section Convert

variable {payload : Payload} {clientop : OSDOp} {oneOp : OpRequestOps}

/-- The assertions decode to the values and operators that were written. -/
theorem assertions_map (m : StrMap (Bytes × Int32)) :
    mapOf (Payload.assertions m) = Payload.assertions m ∧
      (Payload.assertions m).map (·.1) = m.entries.map (·.1) ∧
      (Payload.assertions m).map (·.2.1) = m.entries.map (·.2.1) ∧
      ((Payload.assertions m).map fun a => int32 a.2.2) = m.entries.map (·.2.2.toInt) := by
  refine ⟨mapOf_of_ascending ?_, ?_, ?_, ?_⟩
  · exact List.pairwise_map.mpr m.ascending
  all_goals rw [Payload.assertions, List.map_map]
  · rfl
  · rfl
  · refine List.map_congr_left ?_
    intro p _
    rw [Function.comp_apply, int32_toUInt32]

/-- Behind a complete payload anything may follow. -/
theorem convertOmapOp_of_complete {rest : Bytes} (hop : clientop.op.op = payload.code)
    (hdata : clientop.indata.data = payload.encode ++ rest) :
    convertOmapOp clientop oneOp = .ok (payload.pushTo oneOp) := by
  have hfits := clientop.indata.fits
  rw [hdata, List.length_append] at hfits
  cases payload with
  | omapsetvals m =>
    obtain ⟨hok, hcopy, -⟩ := decodeStrStrMapToBl_of_complete hdata
    have hdec := kvCodec.dec_enc hok []
    rw [List.append_nil] at hdec
    simp only [convertOmapOp, hop, Payload.code, hcopy, hdec, orThrow, bind, Except.bind,
      mapOf_of_ascending m.ascending]
    simp [Payload.pushTo, Payload.keys, Payload.values, Payload.subops, pure, Except.pure]
  | omaprmkeys s | omapgetvalsbykeys s =>
    have hok : (many str).Ok s.elems := keys_ok (by rw [Payload.encode] at hfits; omega)
    have hdec := (many str).dec_enc hok rest
    simp only [convertOmapOp, hop, Payload.code, hdata, Payload.encode, hdec, orThrow, bind,
      Except.bind, setOf_of_ascending s.ascending]
    simp [Payload.pushTo, Payload.keys, Payload.values, Payload.subops, pure, Except.pure]
  | omapCmp m =>
    have hok : cmpCodec.Ok (Payload.assertions m) :=
      assertions_ok (by rw [Payload.encode] at hfits; omega)
    have hdec := cmpCodec.dec_enc hok rest
    obtain ⟨hmap, hkeys, hvalues, hsubops⟩ := assertions_map m
    simp only [convertOmapOp, hop, Payload.code, hdata, Payload.encode, hdec, orThrow, bind,
      Except.bind, hmap, hkeys, hvalues, hsubops]
    rfl

/-- A payload that is cut short throws with the sub-op as it was. -/
theorem convertOmapOp_of_cut {full : BufferList} {s : Bytes}
    (hop : clientop.op.op = payload.code) (hfull : full.data = payload.encode)
    (hcut : full.data = clientop.indata.data ++ s) (hs : s ≠ []) :
    convertOmapOp clientop oneOp = .error oneOp := by
  have hfits := full.fits
  rw [hfull] at hfits hcut
  cases payload with
  | omapsetvals m =>
    have hdec := kvCodec.dec_eq_none_of_cut (kv_ok hfits) hcut hs
    have hcopy : decodeStrStrMapToBl clientop.indata.data = none := by
      rw [decodeStrStrMapToBl_eq, hdec]
      rfl
    simp only [convertOmapOp, hop, Payload.code, hcopy, orThrow, bind, Except.bind]
  | omaprmkeys ks | omapgetvalsbykeys ks =>
    have hdec := (many str).dec_eq_none_of_cut (keys_ok hfits) hcut hs
    simp only [convertOmapOp, hop, Payload.code, hdec, orThrow, bind, Except.bind]
  | omapCmp m =>
    have hdec := cmpCodec.dec_eq_none_of_cut (assertions_ok hfits) hcut hs
    simp only [convertOmapOp, hop, Payload.code, hdec, orThrow, bind, Except.bind]

end Convert

/-- **Omap requests.** A complete payload with anything behind it gives the sub-op the keys in
ascending order and, index by index, their values and operators; the copy of `OMAPSETVALS` is
the encoded map and the iterator stands behind it. A payload that is cut anywhere throws with
nothing pushed. -/
theorem omap_decodes (payload : Payload) (clientop : OSDOp) (oneOp : OpRequestOps)
    (hop : clientop.op.op = payload.code) :
    payload.keys.Pairwise (· < ·) ∧
    (∀ rest, clientop.indata.data = payload.encode ++ rest →
      convertOmapOp clientop oneOp = .ok (payload.pushTo oneOp) ∧
      (payload.code = .omapsetvals →
        decodeStrStrMapToBl clientop.indata.data = some payload.encode ∧
          strStrMapEnd clientop.indata.data = some rest)) ∧
    ∀ (full : BufferList) (s : Bytes), full.data = payload.encode →
      full.data = clientop.indata.data ++ s → s ≠ [] →
      convertOmapOp clientop oneOp = .error oneOp := by
  refine ⟨payload.keys_ascending, ?_, ?_⟩
  · intro rest hdata
    refine ⟨convertOmapOp_of_complete hop hdata, ?_⟩
    intro hcode
    cases payload with
    | omapsetvals m => exact (decodeStrStrMapToBl_of_complete hdata).2
    | omaprmkeys s | omapgetvalsbykeys s => cases hcode
    | omapCmp m => cases hcode
  · intro full s hfull hcut hs
    exact convertOmapOp_of_cut hop hfull hcut hs

/-- Two entries, the second one empty, and a byte behind them. -/
theorem omap_decodes_two_entries :
    let m : StrMap Bytes := ⟨[([97], [120]), ([98], [])], by decide⟩
    let clientop : OSDOp :=
      { op := { op := .omapsetvals }
        indata := ⟨(Payload.omapsetvals m).encode ++ [7], by decide⟩ }
    convertOmapOp clientop {} = .ok { keys := [[97], [98]], values := [[120], []] } ∧
      strStrMapEnd clientop.indata.data = some [7] := by
  intro m clientop
  obtain ⟨hok, hcopy⟩ := (omap_decodes (.omapsetvals m) clientop {} rfl).2.1 [7] rfl
  exact ⟨hok, (hcopy rfl).2⟩

end GcAdaptor.OmapDecode
