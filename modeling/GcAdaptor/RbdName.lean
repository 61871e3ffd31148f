/-
The names of RBD data objects, on both sides.

`rbd_data.<image>.<index>`, with the data pool's id before the image where the image has a
data pool of its own. The client decides by the length of the name and its first eight bytes
(`filter_msg`). The server takes the name apart (`ProcessOpReq`): it splits it at dots, counts
the sections, and builds the object's identity from the last three.

The two do not agree. The client also picks names whose first section only begins with
`rbd_data`, names of two sections, and names with a pool id above 32 bits:
`filterMsg_agrees_iff` says which names it should have picked. On the names librbd makes, the
identity is right: `rbdObjId_eq_iff`, names of different objects get different ids.
-/
import GcAdaptor.ClientAdaptorMsg
import GcAdaptor.NetworkModule

set_option autoImplicit false

namespace GcAdaptor.RbdName

open GcAdaptor.Wire GcAdaptor.Cxx GcAdaptor.MsgModule GcAdaptor.NetworkModule
open GcAdaptor.ClientAdaptorMsg

/-! ## A conversion keeps the object -/

/-- Both are about the same object. -/
def SameObject (a b : OpRequestOps) : Prop := a.isRbd = b.isRbd ∧ a.rbdObjId = b.rbdObjId

theorem SameObject.trans {a b c : OpRequestOps} (h : SameObject a b) (h' : SameObject b c) :
    SameObject a c :=
  ⟨h.1.trans h'.1, h.2.trans h'.2⟩

/-- What a converter returns is about the object of `oneOp`. -/
def Keeps (oneOp : OpRequestOps) (x : Except OpRequestOps OpRequestOps) : Prop :=
  ∀ r, x = .ok r → SameObject r oneOp

section Convert

variable {oneOp r : OpRequestOps}

theorem Keeps.ok (h : SameObject r oneOp) : Keeps oneOp (.ok r) := by
  intro r' hr
  cases hr
  exact h

theorem Keeps.read {α : Type} {e : OpRequestOps} {o : Option α}
    {f : α → Except OpRequestOps OpRequestOps} (h : ∀ a, Keeps oneOp (f a)) :
    Keeps oneOp (orThrow e o >>= f) := by
  intro r hr
  cases o with
  | none => cases hr
  | some a => exact h a r hr

theorem convertObjRw_same (clientop : OSDOp) (oneOp : OpRequestOps) :
    SameObject (convertObjRw clientop oneOp) oneOp := by
  unfold convertObjRw
  split <;> exact ⟨rfl, rfl⟩

theorem convertOmapOp_keeps (clientop : OSDOp) (oneOp : OpRequestOps) :
    Keeps oneOp (convertOmapOp clientop oneOp) := by
  have hsame : ∀ {oneOp r : OpRequestOps}, r.isRbd = oneOp.isRbd → r.rbdObjId = oneOp.rbdObjId →
      Keeps oneOp (.ok r) := fun h h' => .ok ⟨h, h'⟩
  unfold convertOmapOp
  split
  · exact .read fun _ => .read fun _ => .read fun _ => hsame rfl rfl
  · exact .read fun _ => .read fun _ => hsame rfl rfl
  · exact .read fun _ => .read fun _ => hsame rfl rfl
  · exact .read fun _ => hsame rfl rfl
  · exact .read fun _ => hsame rfl rfl
  · exact hsame rfl rfl
  · exact .read fun _ => hsame rfl rfl
  · exact hsame rfl rfl

theorem convertAttrOp_keeps (clientop : OSDOp) (oneOp : OpRequestOps) :
    Keeps oneOp (convertAttrOp clientop oneOp) := by
  unfold convertAttrOp
  refine .read fun _ => ?_
  dsimp only
  split
  · exact .read fun _ => .ok ⟨rfl, rfl⟩
  · split
    · exact .read fun _ => .ok ⟨rfl, rfl⟩
    · exact .read fun _ => .ok ⟨rfl, rfl⟩
    · exact .ok ⟨rfl, rfl⟩
  · exact .ok ⟨rfl, rfl⟩

/-- A converter that only fills the sub-op. -/
theorem same_of_bind {x : Except OpRequestOps OpRequestOps} {optionType : OptionsType}
    {optionLength : OptionsLength} {c : Converted} (hx : Keeps oneOp x)
    (h : (do let oneOp ← x; return ⟨false, oneOp, optionType, optionLength⟩) =
      (.ok c : Except OpRequestOps Converted)) : SameObject c.oneOp oneOp := by
  cases x with
  | error e => cases h
  | ok r =>
    cases h
    exact hx r rfl

theorem convertClientopToOpreq_same {readStatFlag : Bool} {clientop : OSDOp}
    {optionType : OptionsType} {optionLength : OptionsLength} {c : Converted}
    (h : convertClientopToOpreq readStatFlag clientop oneOp optionType optionLength = .ok c) :
    SameObject c.oneOp oneOp := by
  unfold convertClientopToOpreq at h
  -- the branches of the switch: reads, writes, attributes, omaps, and the ones left as they are
  cases hop : clientop.op.op with
  | cmpext | sparseRead | syncRead | read =>
    simp only [hop, Except.ok.injEq] at h
    subst h
    have hrw := convertObjRw_same clientop { oneOp with
      opSubType := clientop.op.op
      objOffset := clientop.op.extentOffset.toUInt32
      objLength := clientop.op.extentLength.toUInt32 }
    rw [hop] at hrw
    dsimp only
    split_ifs
    · exact SameObject.trans ⟨rfl, rfl⟩ (hrw.trans ⟨rfl, rfl⟩)
    · exact hrw.trans ⟨rfl, rfl⟩
  | zero | truncate | writefull | write | writesame =>
    simp only [hop, Except.ok.injEq] at h
    subst h
    exact (convertObjRw_same clientop _).trans ⟨rfl, rfl⟩
  | getxattr | rmxattr | cmpxattr | setxattr =>
    simp only [hop] at h
    exact (same_of_bind (convertAttrOp_keeps clientop _) h).trans ⟨rfl, rfl⟩
  | omapgetvals | omapsetvals | omapgetkeys | omaprmkeys | omapclear | omapgetvalsbykeys
  | omapCmp | omapsetheader | omapgetheader =>
    simp only [hop] at h
    exact (same_of_bind (convertOmapOp_keeps clientop _) h).trans ⟨rfl, rfl⟩
  | _ =>
    simp only [hop, Except.ok.injEq] at h
    subst h
    exact ⟨rfl, rfl⟩

end Convert

/-- **The sub-op loop** makes one sub-op of each, all about the object of the name. -/
theorem convertOps_vecOps {readStatFlag : Bool} {op : MOSDOp} {ops : List OSDOp}
    {st st' : LoopState} (h : convertOps readStatFlag op ops st = .finished st') :
    ∃ new, st'.vecOps = st.vecOps ++ new ∧ new.length = ops.length ∧
      ∀ o ∈ new, ∃ fresh, freshOp op = some fresh ∧ SameObject o fresh := by
  induction ops generalizing st with
  | nil =>
    cases h
    exact ⟨[], by simp, rfl, by simp⟩
  | cons clientop ops ih =>
    obtain ⟨oneOp, c, hfresh, hc, hrest⟩ := convertOps_cons_finished h
    obtain ⟨new, hnew, hlen, hobj⟩ := ih hrest
    refine ⟨c.oneOp :: new, by rw [hnew]; simp, by simp [hlen], ?_⟩
    intro o ho
    rcases List.mem_cons.mp ho with rfl | ho
    · exact ⟨oneOp, hfresh, convertClientopToOpreq_same hc⟩
    · exact hobj o ho

/-- **What an accepted request holds.** -/
theorem processOpReq_vecOps {readStatFlag : Bool} {op : MOSDOp} {opreq : SaOpReq}
    (h : processOpReq readStatFlag op = .accepted opreq) :
    badRbdName op = false ∧ opreq.vecOps.length = op.ops.length ∧
      ∀ o ∈ opreq.vecOps, ∃ fresh, freshOp op = some fresh ∧ SameObject o fresh := by
  obtain ⟨hbad, st, hst, -, hvec, -⟩ := processOpReq_accepted h
  obtain ⟨new, hnew, hlen, hobj⟩ := convertOps_vecOps hst
  have hnew' : opreq.vecOps = new := by
    rw [hvec, hnew]
    simp
  rw [hnew']
  exact ⟨hbad, hlen, hobj⟩

/-- A request on a good name with complete payloads is accepted. -/
theorem processOpReq_isAccepted {readStatFlag : Bool} {op : MOSDOp} (hbad : badRbdName op = false)
    (hpool : poolIdOverflow op = false) (hdec : ∀ o ∈ op.ops, Decodable o) :
    ∃ opreq, processOpReq readStatFlag op = .accepted opreq := by
  obtain ⟨st, hst⟩ := (convertOps_finished_iff readStatFlag op op.ops {}).mpr ⟨.inr hpool, hdec⟩
  unfold processOpReq
  simp only [hbad, Bool.false_eq_true, if_false, hst]
  exact ⟨_, rfl⟩

/-! ## Which names the client should pick -/

/-- The sections of a name, as the server counts them: empty ones do not count, and the name
ends at a NUL. -/
def sections (name : Bytes) : List Bytes := strtok 46 (cStr name)

/-- A name the server takes for an RBD data object. -/
structure RbdShaped (name : Bytes) : Prop where
  first : (sections name).head? = some RBD_DATA_OBJECT_NAME
  three : 3 ≤ (sections name).length
  pool : 3 < (sections name).length → strtoul 10 (fromEnd (sections name) 3) < 2 ^ 32

theorem RbdShaped.of_op {op : MOSDOp} (h : RbdShaped op.name) :
    isRbdName op = true ∧ badRbdName op = false ∧ poolIdOverflow op = false := by
  have hfirst : isRbdName op = true := decide_eq_true h.first
  have hthree : 3 ≤ (vecObj op).length := h.three
  refine ⟨hfirst, ?_, ?_⟩
  · rw [badRbdName, Bool.and_eq_false_iff]
    right
    rw [decide_eq_false_iff_not]
    omega
  · rw [poolIdOverflow, hfirst, Bool.true_and, Bool.and_eq_false_iff]
    by_cases hlen : 3 < (vecObj op).length
    · right
      rw [decide_eq_false_iff_not, not_le]
      exact h.pool hlen
    · left
      simpa using hlen

/-- The sub-op before its conversion is one of an RBD object exactly on an `rbd_data` name. -/
theorem freshOp_isRbd {op : MOSDOp} {fresh : OpRequestOps} (h : freshOp op = some fresh) :
    fresh.isRbd = isRbdName op := by
  unfold freshOp at h
  split_ifs at h with hname
  · obtain ⟨id, -, rfl⟩ := Option.map_eq_some_iff.mp h
    exact hname.symm
  · cases h
    simpa using hname

/-- Every request on an object the client picks, with complete payloads, is accepted, and each
of its sub-ops is one of an RBD object. -/
def AgreesOn (name : Bytes) : Prop :=
  filterMsg name = true → ∀ (readStatFlag : Bool) (op : MOSDOp), op.name = name →
    (∀ o ∈ op.ops, Decodable o) →
      ∃ opreq, processOpReq readStatFlag op = .accepted opreq ∧
        ∀ o ∈ opreq.vecOps, o.isRbd = true

theorem agreesOn_of_rbdShaped {name : Bytes} (h : RbdShaped name) : AgreesOn name := by
  rintro - readStatFlag op rfl hdec
  obtain ⟨hname, hbad, hpool⟩ := h.of_op
  obtain ⟨opreq, hacc⟩ := @processOpReq_isAccepted readStatFlag _ hbad hpool hdec
  refine ⟨opreq, hacc, ?_⟩
  intro o ho
  obtain ⟨fresh, hfresh, hsame⟩ := (processOpReq_vecOps hacc).2.2 o ho
  rw [hsame.1, freshOp_isRbd hfresh, hname]

/-- One read is enough to find out. -/
theorem rbdShaped_of_agreesOn {name : Bytes} (hfilter : filterMsg name = true)
    (h : AgreesOn name) : RbdShaped name := by
  obtain ⟨opreq, hacc, hrbd⟩ := h hfilter false { name := name, ops := [{ op := { op := .read } }] }
    rfl (by simp [Decodable])
  obtain ⟨hbad, hlen, hobj⟩ := processOpReq_vecOps hacc
  obtain ⟨o, ho⟩ := List.length_pos_iff_exists_mem.mp (by rw [hlen]; simp : 0 < opreq.vecOps.length)
  obtain ⟨fresh, hfresh, hsame⟩ := hobj o ho
  have hname : isRbdName { name := name, ops := [{ op := { op := .read } }] } = true := by
    rw [← freshOp_isRbd hfresh, ← hsame.1]
    exact hrbd o ho
  have hpool := (freshOp_eq_none_iff _).not.mp (by rw [hfresh]; simp)
  rw [badRbdName, hname, Bool.true_and, decide_eq_false_iff_not, not_lt] at hbad
  rw [poolIdOverflow, hname, Bool.true_and, Bool.and_eq_true, not_and, decide_eq_true_eq,
    decide_eq_true_eq, not_le] at hpool
  exact ⟨of_decide_eq_true hname, hbad, hpool⟩

/-- **Where client and server agree.** A name the client picks is served as an RBD object
exactly when its first section is `rbd_data`, it has three sections, and the third from the
end, where there are more, is a number of 32 bits. -/
theorem filterMsg_agrees_iff (name : Bytes) :
    AgreesOn name ↔ (filterMsg name = true → RbdShaped name) := by
  constructor
  · intro h hfilter
    exact rbdShaped_of_agreesOn hfilter h
  · intro h hfilter
    exact agreesOn_of_rbdShaped (h hfilter) hfilter

/-- `rbd_data_backup.0123456789ab.0`: the first section is another word. -/
def otherWord : Bytes :=
  ascii ['r','b','d','_','d','a','t','a','_','b','a','c','k','u','p','.',
    '0','1','2','3','4','5','6','7','8','9','a','b','.','0']

/-- `rbd_data.0123456789abcdef01`: two sections. -/
def twoSections : Bytes :=
  ascii ['r','b','d','_','d','a','t','a','.',
    '0','1','2','3','4','5','6','7','8','9','a','b','c','d','e','f','0','1']

/-- `rbd_data.4294967296.10.0000000000000000`: a pool id of 33 bits, within the 19 bytes that
the comment on `filter_msg` allows for it. -/
def largePool : Bytes :=
  ascii ['r','b','d','_','d','a','t','a','.','4','2','9','4','9','6','7','2','9','6','.','1','0','.',
    '0','0','0','0','0','0','0','0','0','0','0','0','0','0','0','0']

theorem filterMsg_disagrees :
    (filterMsg otherWord = true ∧ ¬ AgreesOn otherWord) ∧
      (filterMsg twoSections = true ∧ ¬ AgreesOn twoSections) ∧
      filterMsg largePool = true ∧ ¬ AgreesOn largePool := by
  refine ⟨⟨by decide, ?_⟩, ⟨by decide, ?_⟩, by decide, ?_⟩
  · intro h
    exact absurd (rbdShaped_of_agreesOn (by decide) h).first (by decide)
  · intro h
    exact absurd (rbdShaped_of_agreesOn (by decide) h).three (by decide)
  · intro h
    exact absurd ((rbdShaped_of_agreesOn (by decide) h).pool (by decide)) (by decide)

/-! ## The names librbd makes -/

/-- `tolower` -/
def toLower (c : UInt8) : UInt8 := if 65 ≤ c ∧ c ≤ 90 then c + 32 else c

/-- The lower-case digit of a value below 16. -/
def hexChar (d : ℕ) : UInt8 := UInt8.ofNat (if d < 10 then 48 + d else 87 + d)

/-- A digit's value determines it up to its case. -/
theorem hexChar_digitVal {c : UInt8} (h : digitVal c < 16) : hexChar (digitVal c) = toLower c := by
  have hc := c.toNat_lt
  apply UInt8.toNat_inj.mp
  simp only [digitVal, toLower, hexChar, UInt8.le_iff_toNat_le, UInt8.reduceToNat] at h ⊢
  split_ifs at h ⊢ <;> simp [UInt8.toNat_ofNat'] <;> omega

theorem digitVal_toLower {c : UInt8} (h : digitVal c < 16) : digitVal (toLower c) = digitVal c := by
  have hc := c.toNat_lt
  simp only [digitVal, toLower, UInt8.le_iff_toNat_le, UInt8.reduceToNat] at h ⊢
  split_ifs at h ⊢ <;> simp_all <;> omega

theorem toLower_of_decimal {c : UInt8} (h : digitVal c < 10) : toLower c = c := by
  simp only [digitVal, toLower, UInt8.le_iff_toNat_le, UInt8.reduceToNat] at h ⊢
  split_ifs at h ⊢ <;> first | rfl | omega

/-- Texts of digits with the same values are the same up to case. -/
theorem map_toLower_eq {s t : Bytes} (hs : ∀ c ∈ s, digitVal c < 16) (ht : ∀ c ∈ t, digitVal c < 16)
    (h : s.map digitVal = t.map digitVal) : s.map toLower = t.map toLower := by
  have hchars : ∀ {u : Bytes}, (∀ c ∈ u, digitVal c < 16) →
      u.map toLower = (u.map digitVal).map hexChar := by
    intro u hu
    rw [List.map_map]
    exact List.map_congr_left fun c hc => (hexChar_digitVal (hu c hc)).symm
  rw [hchars hs, hchars ht, h]

/-- A decimal number without leading zeros, of 32 bits. -/
structure PoolNumber (p : Bytes) : Prop where
  nonempty : p ≠ []
  decimal : ∀ c ∈ p, digitVal c < 10
  noLeadingZero : p.head? = some 48 → p = [48]
  fits : ofDigits 10 (p.map digitVal) < 2 ^ 32

/-- `rbd_data.[<pool>.]<image>.<index>` -/
structure DataName where
  pool : Option Bytes
  image : Bytes
  index : Bytes
  pool_ok : ∀ p ∈ pool, PoolNumber p
  image_nonempty : image ≠ []
  image_le : image.length ≤ 14
  image_hex : ∀ c ∈ image, digitVal c < 16
  image_lower : image.map toLower = image
  index_length : index.length = 16
  index_hex : ∀ c ∈ index, digitVal c < 16
  index_lt : ofDigits 16 (index.map digitVal) < 2 ^ 40

namespace DataName

variable (n n' : DataName)

/-- The name with the given spelling of its index. -/
def spell (index : Bytes) : List Bytes :=
  [RBD_DATA_OBJECT_NAME] ++ n.pool.toList ++ [n.image, index]

def text : Bytes := [46].intercalate (n.spell n.index)

/-- The name with the letters of its index in lower case. -/
def foldedText : Bytes := [46].intercalate (n.spell (n.index.map toLower))

/-- Neither a dot nor a NUL is a digit. -/
theorem digit_ne {c : UInt8} (h : digitVal c < 16) : c ≠ 46 ∧ c ≠ 0 := by
  constructor <;>
  · rintro rfl
    exact absurd h (by decide)

/-- Every section has a byte, and none has a dot or a NUL. -/
theorem spell_clean {index : Bytes} (hne : index ≠ []) (hhex : ∀ c ∈ index, digitVal c < 16) :
    ∀ s ∈ n.spell index, s ≠ [] ∧ 46 ∉ s ∧ 0 ∉ s := by
  have hclean : ∀ {s : Bytes}, s ≠ [] → (∀ c ∈ s, digitVal c < 16) → s ≠ [] ∧ 46 ∉ s ∧ 0 ∉ s := by
    intro s hs hdigits
    exact ⟨hs, fun h => (digit_ne (hdigits _ h)).1 rfl, fun h => (digit_ne (hdigits _ h)).2 rfl⟩
  intro s hs
  rw [spell, List.mem_append, List.mem_append] at hs
  rcases hs with (hs | hs) | hs
  · rw [List.mem_singleton.mp hs]
    decide
  · have hp := n.pool_ok s (Option.mem_toList.mp hs)
    exact hclean hp.nonempty fun c hc => (hp.decimal c hc).trans (by decide)
  · rcases List.mem_pair.mp hs with rfl | rfl
    · exact hclean n.image_nonempty n.image_hex
    · exact hclean hne hhex

theorem index_nonempty : n.index ≠ [] := by
  intro h
  have := n.index_length
  rw [h] at this
  cases this

/-- The server finds the sections the name is made of. -/
theorem sections_text : sections n.text = n.spell n.index := by
  have hclean := n.spell_clean n.index_nonempty n.index_hex
  have hstr : cStr n.text = n.text := by
    refine cStr_of_not_mem fun hnul => ?_
    rcases mem_intercalate hnul with hdot | ⟨l, hl, hmem⟩
    · exact absurd hdot (by decide)
    · exact (hclean l hl).2.2 hmem
  rw [sections, hstr, text]
  exact strtok_intercalate (by simp [spell]) fun l hl => ⟨(hclean l hl).1, (hclean l hl).2.1⟩

/-! The numbers of a name. -/

def poolValue (p : Bytes) : ℕ := ofDigits 10 (p.map digitVal)
def headValue : ℕ := ofDigits 16 ((ascii ['1'] ++ n.image).map digitVal)
def seqValue : ℕ := ofDigits 16 (n.index.map digitVal)

theorem head_digits : ∀ c ∈ ascii ['1'] ++ n.image, digitVal c < 16 := by
  intro c hc
  rcases List.mem_append.mp hc with hc | hc
  · rw [List.mem_singleton.mp hc]
    decide
  · exact n.image_hex c hc

/-- At most 15 digits. -/
theorem headValue_lt : n.headValue < 2 ^ 64 := by
  have hlen := n.image_le
  have hlt := @ofDigits_lt 16 _ (by norm_num)
    (fun d hd => by
      obtain ⟨c, hc, rfl⟩ := List.mem_map.mp hd
      exact n.head_digits c hc)
  refine hlt.trans_le ?_
  rw [List.length_map, List.length_append]
  calc 16 ^ ((ascii ['1']).length + n.image.length) ≤ 16 ^ 15 :=
        Nat.pow_le_pow_right (by norm_num) (by simp [ascii]; omega)
    _ ≤ 2 ^ 64 := by norm_num

theorem seqValue_lt : n.seqValue < 2 ^ 40 := n.index_lt

/-- The identity of the object. -/
def objid : RbdObjid where
  poolId := UInt32.ofNat ((n.pool.map poolValue).getD 0)
  head := UInt64.ofNat n.headValue
  seq := BitVec.ofNat 40 n.seqValue
  format := if n.pool.isSome then FORMAT_SPECIFY_MD_DATE_POOL else FORMAT_UNSPECIFY_MD_DATE_POOL
  version := SA_VERSION

theorem strtoul_head : strtoul 16 (ascii ['1'] ++ n.image) = n.headValue :=
  strtoul_of_digits le_rfl n.head_digits n.headValue_lt

theorem strtoul_index : strtoul 16 n.index = n.seqValue :=
  strtoul_of_digits le_rfl n.index_hex (n.index_lt.trans (by norm_num))

theorem strtoul_pool {p : Bytes} (h : PoolNumber p) : strtoul 10 p = poolValue p :=
  strtoul_of_digits (by norm_num) h.decimal (h.fits.trans (by norm_num))

theorem fromEnd_pool {p : Bytes} (h : n.pool = some p) : fromEnd (n.spell n.index) 3 = p := by
  simp [fromEnd, spell, h]

/-- **The server's identity of a name.** -/
theorem rbdObjId_text {op : MOSDOp} (h : op.name = n.text) : rbdObjId op = some n.objid := by
  have hvec : vecObj op = n.spell n.index := by
    rw [← n.sections_text, ← h]
    rfl
  have hindex : fromEnd (n.spell n.index) 1 = n.index := by simp [fromEnd, spell]
  have himage : fromEnd (n.spell n.index) 2 = n.image := by simp [fromEnd, spell]
  simp only [rbdObjId, dataPoolId, hvec, hindex, himage, n.strtoul_head, n.strtoul_index]
  cases hp : n.pool with
  | none =>
    have hlen : ¬ 3 < (n.spell n.index).length := by simp [spell, hp]
    simp only [if_neg hlen, objid, hp]
    rfl
  | some p =>
    have hlen : 3 < (n.spell n.index).length := by simp [spell, hp]
    have hok := n.pool_ok p hp
    have hfits : ¬ 2 ^ 32 ≤ poolValue p := not_le.mpr hok.fits
    simp only [if_pos hlen, n.fromEnd_pool hp, strtoul_pool hok, if_neg hfits, objid, hp]
    rfl

theorem rbdShaped : RbdShaped n.text := by
  constructor
  · rw [sections_text]
    rfl
  · rw [sections_text]
    simp [spell]
  · rw [sections_text]
    intro hlen
    cases hp : n.pool with
    | none => simp [spell, hp] at hlen
    | some p =>
      rw [n.fromEnd_pool hp, strtoul_pool (n.pool_ok p hp)]
      exact (n.pool_ok p hp).fits

/-! ## Different objects, different ids -/

/-- Digits of a number without a leading zero are those of its value. -/
theorem pool_eq_of_value {p p' : Bytes} (h : PoolNumber p) (h' : PoolNumber p')
    (heq : poolValue p = poolValue p') : p = p' := by
  -- a number that does not begin with a zero has digits, so its value is not that of `0`
  have hdigits : ∀ {q : Bytes}, PoolNumber q → q.head? ≠ some 48 →
      Nat.digits 10 (poolValue q) = (q.map digitVal).reverse := by
    intro q hq hhead
    obtain ⟨c, cs, rfl⟩ := List.exists_cons_of_ne_nil hq.nonempty
    refine Cxx.digits_ofDigits (by norm_num) ?_ ?_
    · intro hzero
      have hlower := toLower_of_decimal (hq.decimal c (by simp))
      have hchar := hexChar_digitVal ((hq.decimal c (by simp)).trans (by decide))
      rw [hzero, hlower] at hchar
      exact hhead (by rw [← hchar]; rfl)
    · intro x hx
      rw [← List.map_cons] at hx
      obtain ⟨y, hy, rfl⟩ := List.mem_map.mp hx
      exact hq.decimal y hy
  have hzero : ∀ {q : Bytes}, PoolNumber q → q.head? = some 48 →
      Nat.digits 10 (poolValue q) = [] := by
    intro q hq hhead
    rw [hq.noLeadingZero hhead]
    rfl
  by_cases hhead : p.head? = some 48
  · by_cases hhead' : p'.head? = some 48
    · rw [h.noLeadingZero hhead, h'.noLeadingZero hhead']
    · have hnil := hzero h hhead
      rw [heq, hdigits h' hhead'] at hnil
      exact absurd (by simpa using hnil) h'.nonempty
  · by_cases hhead' : p'.head? = some 48
    · have hnil := hzero h' hhead'
      rw [← heq, hdigits h hhead] at hnil
      exact absurd (by simpa using hnil) h.nonempty
    · have hmap : p.map digitVal = p'.map digitVal := by
        apply List.reverse_injective
        rw [← hdigits h hhead, ← hdigits h' hhead', heq]
      have hfold := map_toLower_eq (fun c hc => (h.decimal c hc).trans (by decide))
        (fun c hc => (h'.decimal c hc).trans (by decide)) hmap
      have hself : ∀ {q : Bytes}, PoolNumber q → q.map toLower = q := by
        intro q hq
        exact (List.map_congr_left fun c hc => toLower_of_decimal (hq.decimal c hc)).trans
          (List.map_id q)
      rwa [hself h, hself h'] at hfold

theorem image_eq_of_headValue (h : n.headValue = n'.headValue) : n.image = n'.image := by
  have hdigits : ∀ m : DataName, ∀ x ∈ digitVal 49 :: m.image.map digitVal, x < 16 := by
    intro m x hx
    rw [← List.map_cons] at hx
    obtain ⟨c, hc, rfl⟩ := List.mem_map.mp hx
    exact m.head_digits c hc
  -- the leading 1 keeps the zeros behind it
  have hcons :=
    ofDigits_inj_of_head (by norm_num) (by decide) (by decide) (hdigits n) (hdigits n') h
  have hfold := map_toLower_eq n.image_hex n'.image_hex (List.cons.inj hcons).2
  rwa [n.image_lower, n'.image_lower] at hfold

theorem index_eq_of_seqValue (h : n.seqValue = n'.seqValue) :
    n.index.map toLower = n'.index.map toLower := by
  have hdigits : ∀ m : DataName, ∀ x ∈ m.index.map digitVal, x < 16 := by
    intro m x hx
    obtain ⟨c, hc, rfl⟩ := List.mem_map.mp hx
    exact m.index_hex c hc
  refine map_toLower_eq n.index_hex n'.index_hex ?_
  exact ofDigits_inj_of_length (by norm_num) (by simp [n.index_length, n'.index_length])
    (hdigits n) (hdigits n') h

/-- Two names that differ at most in the case of their index have the same parts. -/
theorem foldedText_eq_iff : n.foldedText = n'.foldedText ↔
    n.pool = n'.pool ∧ n.image = n'.image ∧ n.index.map toLower = n'.index.map toLower := by
  constructor
  · intro h
    have hsections : ∀ m : DataName,
        strtok 46 m.foldedText = m.spell (m.index.map toLower) := by
      intro m
      have hclean := @spell_clean m (m.index.map toLower) (by simp [m.index_nonempty])
        (fun c hc => by
          obtain ⟨x, hx, rfl⟩ := List.mem_map.mp hc
          rw [digitVal_toLower (m.index_hex x hx)]
          exact m.index_hex x hx)
      exact strtok_intercalate (by simp [spell]) fun l hl => ⟨(hclean l hl).1, (hclean l hl).2.1⟩
    have hspell := hsections n
    rw [h, hsections n'] at hspell
    -- as lists of sections they have the same length, so both have a pool or neither
    cases hp : n.pool <;> cases hp' : n'.pool <;> simp_all [spell]
  · rintro ⟨hpool, himage, hindex⟩
    rw [foldedText, foldedText, spell, spell, hpool, himage, hindex]

theorem seqValue_eq_of_index (h : n.index.map toLower = n'.index.map toLower) :
    n.seqValue = n'.seqValue := by
  have hdigits : ∀ m : DataName, (m.index.map toLower).map digitVal = m.index.map digitVal := by
    intro m
    rw [List.map_map]
    exact List.map_congr_left fun c hc => digitVal_toLower (m.index_hex c hc)
  rw [seqValue, seqValue, ← hdigits n, ← hdigits n', h]

end DataName

/-- What tells two ids apart: the data pool, the head, the sequence number and the format. -/
def idKey (id : RbdObjid) : UInt32 × UInt64 × BitVec 40 × UInt8 :=
  (id.poolId, id.head, id.seq, id.format)

section Key

variable (n n' : DataName)

theorem poolValue_lt (n : DataName) : (n.pool.map DataName.poolValue).getD 0 < 2 ^ 32 := by
  cases hp : n.pool with
  | none => norm_num
  | some p => exact (n.pool_ok p hp).fits

theorem pool_eq_of_key (hid : n.objid.poolId = n'.objid.poolId)
    (hformat : n.objid.format = n'.objid.format) : n.pool = n'.pool := by
  have hvalue := congrArg UInt32.toNat hid
  simp only [DataName.objid, UInt32.toNat_ofNat'] at hvalue
  rw [Nat.mod_eq_of_lt (poolValue_lt n), Nat.mod_eq_of_lt (poolValue_lt n')] at hvalue
  simp only [DataName.objid] at hformat
  -- the format says whether there is a pool at all
  cases hp : n.pool with
  | none =>
    cases hp' : n'.pool with
    | none => rfl
    | some p' =>
      rw [hp, hp'] at hformat
      have : FORMAT_UNSPECIFY_MD_DATE_POOL = FORMAT_SPECIFY_MD_DATE_POOL := hformat
      exact absurd this (by decide)
  | some p =>
    cases hp' : n'.pool with
    | none =>
      rw [hp, hp'] at hformat
      have : FORMAT_SPECIFY_MD_DATE_POOL = FORMAT_UNSPECIFY_MD_DATE_POOL := hformat
      exact absurd this (by decide)
    | some p' =>
      rw [hp, hp'] at hvalue
      rw [DataName.pool_eq_of_value (n.pool_ok p hp) (n'.pool_ok p' hp') hvalue]

theorem headValue_eq_of_key (h : n.objid.head = n'.objid.head) : n.headValue = n'.headValue := by
  have hvalue := congrArg UInt64.toNat h
  simp only [DataName.objid, UInt64.toNat_ofNat'] at hvalue
  rwa [Nat.mod_eq_of_lt n.headValue_lt, Nat.mod_eq_of_lt n'.headValue_lt] at hvalue

theorem seqValue_eq_of_key (h : n.objid.seq = n'.objid.seq) : n.seqValue = n'.seqValue := by
  have hvalue := congrArg BitVec.toNat h
  simp only [DataName.objid, BitVec.toNat_ofNat] at hvalue
  rwa [Nat.mod_eq_of_lt n.seqValue_lt, Nat.mod_eq_of_lt n'.seqValue_lt] at hvalue

theorem idKey_eq_iff : idKey n.objid = idKey n'.objid ↔ n.foldedText = n'.foldedText := by
  rw [DataName.foldedText_eq_iff]
  constructor
  · intro h
    simp only [idKey, Prod.mk.injEq] at h
    obtain ⟨hpool, hhead, hseq, hformat⟩ := h
    refine ⟨pool_eq_of_key n n' hpool hformat, ?_, ?_⟩
    · exact n.image_eq_of_headValue n' (headValue_eq_of_key n n' hhead)
    · exact n.index_eq_of_seqValue n' (seqValue_eq_of_key n n' hseq)
  · rintro ⟨hpool, himage, hindex⟩
    have hseq := n.seqValue_eq_of_index n' hindex
    simp only [idKey, DataName.objid, DataName.headValue, hpool, himage, hseq]

end Key

/-- Every request on the name is taken for one on an RBD object: it is not rejected, it is
accepted if its payloads are complete, and then each of its sub-ops carries `id`. -/
def ServedAs (name : Bytes) (id : RbdObjid) : Prop :=
  ∀ (readStatFlag : Bool) (op : MOSDOp), op.name = name →
    (∀ ret sent, processOpReq readStatFlag op ≠ .rejected ret sent) ∧
    ((∀ o ∈ op.ops, Decodable o) → ∃ opreq, processOpReq readStatFlag op = .accepted opreq) ∧
    ∀ opreq, processOpReq readStatFlag op = .accepted opreq →
      opreq.vecOps.length = op.ops.length ∧
        ∀ o ∈ opreq.vecOps, o.isRbd = true ∧ o.rbdObjId = id

theorem convertOps_ne_overflow {readStatFlag : Bool} {op : MOSDOp} {ops : List OSDOp}
    {st : LoopState} (hpool : poolIdOverflow op = false) :
    convertOps readStatFlag op ops st ≠ .overflow := by
  induction ops generalizing st with
  | nil => simp [convertOps]
  | cons clientop ops ih =>
    rw [convertOps]
    cases hfresh : freshOp op with
    | none =>
      rw [(freshOp_eq_none_iff op).mp hfresh] at hpool
      cases hpool
    | some oneOp =>
      cases hc : convertClientopToOpreq readStatFlag clientop oneOp st.optionType
          st.optionLength with
      | error e => simp [hc]
      | ok c => simpa only [hc] using ih

theorem servedAs (n : DataName) : ServedAs n.text n.objid := by
  intro readStatFlag op hop
  obtain ⟨hname, hbad, hpool⟩ := @RbdShaped.of_op op (by rw [hop]; exact n.rbdShaped)
  refine ⟨?_, processOpReq_isAccepted hbad hpool, ?_⟩
  · intro ret sent h
    rcases processOpReq_rejected h with ⟨hbad', -⟩ | ⟨hover, -⟩
    · rw [hbad] at hbad'
      cases hbad'
    · exact convertOps_ne_overflow hpool hover
  · intro opreq h
    obtain ⟨-, hlen, hobj⟩ := processOpReq_vecOps h
    refine ⟨hlen, ?_⟩
    intro o ho
    obtain ⟨fresh, hfresh, hsame⟩ := hobj o ho
    have hid : fresh = { objName := cStr op.name, isRbd := true, rbdObjId := n.objid } := by
      simp only [freshOp, hname, if_true, n.rbdObjId_text hop, Option.map_some,
        Option.some.injEq] at hfresh
      exact hfresh.symm
    rw [hsame.1, hsame.2, hid]
    exact ⟨rfl, rfl⟩

/-- **An object and its id.** Names of this form are served as RBD objects, and two of them
get the same id exactly when they differ at most in the case of the index digits. -/
theorem rbdObjId_eq_iff (n n' : DataName) :
    ∃ id id', ServedAs n.text id ∧ ServedAs n'.text id' ∧
      (idKey id = idKey id' ↔ n.foldedText = n'.foldedText) :=
  ⟨n.objid, n'.objid, servedAs n, servedAs n', idKey_eq_iff n n'⟩

/-- `rbd_data.7.0a.00000000000000fF` -/
def pooledName : DataName where
  pool := some (ascii ['7'])
  image := ascii ['0','a']
  index := ascii ['0','0','0','0','0','0','0','0','0','0','0','0','0','0','f','F']
  pool_ok := by
    rintro p ⟨⟩
    exact ⟨by decide, by simp [ascii]; decide, by decide, by decide⟩
  image_nonempty := by decide
  image_le := by decide
  image_hex := by simp [ascii]; decide
  image_lower := by decide
  index_length := by decide
  index_hex := by simp [ascii]; decide
  index_lt := by decide

example : idKey pooledName.objid = (7, 0x10a, 0xff, 1) := by decide

end GcAdaptor.RbdName
