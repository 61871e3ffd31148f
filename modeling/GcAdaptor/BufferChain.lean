/-
Chains of `GcBufferList` (`ceph_proxy/Gcbufferlist.h`) and the two loops over
them: `ReadCallback` scatters a read result into a chain, `RadosWriteOpWriteBl`
gathers the data of a write from one (`ceph_proxy/RadosWrapper.cc`).

A list has room for `ENTRY_PER_BUFFLIST` entries and says in `entrySumList` how
many it has; `entrys` here holds exactly those. Touching an entry at or past
`entrySumList`, following a null `nextBufferList` and copying past the end of a
buffer all read or write memory the chain does not own: the loops return `none`.

The gather loop steps to the next list at the list's own entry count, the
scatter loop at the fixed 64. `readCallback_roundTrips_iff` is what follows: what
was scattered is gathered again exactly when every list the data goes past is
full.
-/
import GcAdaptor.Wire

set_option autoImplicit false

namespace GcAdaptor.BufferChain

open GcAdaptor.Wire

def ENTRY_PER_BUFFLIST : ℕ := 64

def DEFAULT_BL_PAGE : ℕ := 4096

/-! ## Chains -/

/-- `ListEntry`: a buffer and its length, which is positive and fits `uint32_t`. -/
structure ListEntry where
  buf : Bytes
  pos : 0 < buf.length
  fits : buf.length < 2 ^ 32

def ListEntry.len (e : ListEntry) : ℕ := e.buf.length

/-- `GcBufferList`, with the entries up to `entrySumList`. -/
structure GcBufferList where
  entrys : List ListEntry
  nonempty : 0 < entrys.length
  entrySum_le : entrys.length ≤ ENTRY_PER_BUFFLIST

def GcBufferList.bytes (g : GcBufferList) : Bytes := g.entrys.flatMap (·.buf)

def GcBufferList.setEntry (g : GcBufferList) (i : ℕ) (e : ListEntry) : GcBufferList where
  entrys := g.entrys.set i e
  nonempty := by simpa using g.nonempty
  entrySum_le := by simpa using g.entrySum_le

/-- The bytes of a chain, list after list. -/
def chainBytes (bl : List GcBufferList) : Bytes := bl.flatMap (·.bytes)

/-- In page mode every entry is one page. -/
def Paged (buildType : Bool) (bl : List GcBufferList) : Prop :=
  buildType = true → ∀ g ∈ bl, ∀ e ∈ g.entrys, e.len = DEFAULT_BL_PAGE

/-! ## The loops -/

/-- `memcpy` to the start of an entry's buffer, of at most its length. -/
def ListEntry.memcpy (e : ListEntry) (src : Bytes) : ListEntry where
  buf := (src ++ e.buf.drop src.length).take e.buf.length
  pos := by
    have := e.pos
    simp
    omega
  fits := by
    have := e.fits
    simp
    omega

/-- `memset(buf, 0, len)`. -/
def ListEntry.zero (e : ListEntry) : ListEntry where
  buf := List.replicate e.buf.length 0
  pos := by simpa using e.pos
  fits := by simpa using e.fits

def GcBufferList.zero (g : GcBufferList) : GcBufferList where
  entrys := g.entrys.map .zero
  nonempty := by simpa using g.nonempty
  entrySum_le := by simpa using g.entrySum_le

/-- How much one pass of either loop copies. -/
def copySize (buildType : Bool) (e : ListEntry) (leftLen : ℕ) : ℕ :=
  if buildType then min DEFAULT_BL_PAGE leftLen else min e.len leftLen

/-- The scatter loop: `left` still to be copied, at entry `i` of the first list. A
pass copies at least one byte, so the length of `left` is fuel enough. -/
def scatter (buildType : Bool) : ℕ → Bytes → ℕ → List GcBufferList → Option (List GcBufferList)
  | _, [], _, bl => some bl
  | 0, _ :: _, _, _ => none
  | _ + 1, _ :: _, _, [] => none
  | fuel + 1, b :: left, i, g :: rest =>
    match g.entrys[i]? with
    | none => none
    | some e =>
      let size := copySize buildType e (b :: left).length
      if size ≤ e.len then
        let g' := g.setEntry i (e.memcpy ((b :: left).take size))
        -- the next list begins at 64, whatever `entrySumList` says
        if ENTRY_PER_BUFFLIST ≤ i + 1 then
          (scatter buildType fuel ((b :: left).drop size) 0 rest).map (g' :: ·)
        else scatter buildType fuel ((b :: left).drop size) (i + 1) (g' :: rest)
      else none

/-- The `readbl` branch of `ReadCallback`: the chain after it. A result of another
length than the one asked for clears the chain first. -/
def readCallback (buildType : Bool) (len : ℕ) (results : BufferList) (bl : List GcBufferList) :
    Option (List GcBufferList) :=
  let bl := if results.data.length ≠ len then bl.map .zero else bl
  scatter buildType results.data.length results.data 0 bl

/-- The gather loop of `RadosWriteOpWriteBl`. -/
def gather (isRelease : Bool) : ℕ → ℕ → ℕ → List GcBufferList → Option Bytes
  | _, 0, _, _ => some []
  | 0, _ + 1, _, _ => none
  | _ + 1, _ + 1, _, [] => none
  | fuel + 1, leftLen + 1, i, g :: rest =>
    match g.entrys[i]? with
    | none => none
    | some e =>
      let size := copySize isRelease e (leftLen + 1)
      if size ≤ e.len then
        -- here it begins at `entrySumList`
        (if g.entrys.length ≤ i + 1 then gather isRelease fuel (leftLen + 1 - size) 0 rest
          else gather isRelease fuel (leftLen + 1 - size) (i + 1) (g :: rest)).map
          (e.buf.take size ++ ·)
      else none

/-- The real data of a write: `len1` is kept in a `uint32_t`. -/
def gatherData (isRelease : Bool) (len1 : ℕ) (bl : List GcBufferList) : Option Bytes :=
  gather isRelease (len1 % 2 ^ 32) (len1 % 2 ^ 32) 0 bl

/-! ## Where a loop stands

A loop that stands at entry `i` of the first list has `upTo i` behind it and
`fromEntry i` ahead. -/

def upTo (i : ℕ) : List GcBufferList → Bytes
  | [] => []
  | g :: _ => (g.entrys.take i).flatMap (·.buf)

def fromEntry (i : ℕ) : List GcBufferList → Bytes
  | [] => []
  | g :: rest => (g.entrys.drop i).flatMap (·.buf) ++ chainBytes rest

section Position

variable {g : GcBufferList} {rest bl : List GcBufferList} {e : ListEntry} {i : ℕ}

theorem fromEntry_zero (bl : List GcBufferList) : fromEntry 0 bl = chainBytes bl := by
  cases bl with
  | nil => rfl
  | cons g rest => simp [fromEntry, chainBytes, GcBufferList.bytes]

theorem upTo_zero (bl : List GcBufferList) : upTo 0 bl = [] := by
  cases bl <;> simp [upTo]

theorem drop_entry (h : g.entrys[i]? = some e) : g.entrys.drop i = e :: g.entrys.drop (i + 1) := by
  obtain ⟨hi, rfl⟩ := List.getElem?_eq_some_iff.mp h
  exact List.drop_eq_getElem_cons hi

theorem fromEntry_succ (h : g.entrys[i]? = some e) :
    fromEntry i (g :: rest) = e.buf ++ fromEntry (i + 1) (g :: rest) := by
  simp [fromEntry, drop_entry h]

/-- Past the last entry of a list the next one begins. -/
theorem fromEntry_end (h : g.entrys.length ≤ i) : fromEntry i (g :: rest) = chainBytes rest := by
  simp [fromEntry, List.drop_eq_nil_of_le h]

theorem fromEntry_setEntry (e' : ListEntry) :
    fromEntry (i + 1) (g.setEntry i e' :: rest) = fromEntry (i + 1) (g :: rest) := by
  simp [fromEntry, GcBufferList.setEntry, List.drop_set]

theorem upTo_setEntry (rest : List GcBufferList) (h : g.entrys[i]? = some e) (e' : ListEntry) :
    upTo (i + 1) (g.setEntry i e' :: rest) = upTo i (g :: rest) ++ e'.buf := by
  obtain ⟨hi, _⟩ := List.getElem?_eq_some_iff.mp h
  have htake : (g.entrys.set i e').take (i + 1) = g.entrys.take i ++ [e'] := by
    rw [List.take_succ_eq_append_getElem (by simpa using hi), List.take_set_of_le le_rfl]
    simp
  simp [upTo, GcBufferList.setEntry, htake]

theorem bytes_setEntry (rest : List GcBufferList) (h : g.entrys[i]? = some e)
    (hlast : g.entrys.length ≤ i + 1) (e' : ListEntry) :
    (g.setEntry i e').bytes = upTo i (g :: rest) ++ e'.buf := by
  rw [← upTo_setEntry rest h e', upTo, GcBufferList.bytes, List.take_of_length_le]
  simpa [GcBufferList.setEntry] using hlast

end Position

/-- In page mode an entry is a page, so a pass always copies what fits the entry. -/
theorem copySize_eq {buildType : Bool} {g : GcBufferList} {rest : List GcBufferList} {i : ℕ}
    {e : ListEntry} (hp : Paged buildType (g :: rest)) (h : g.entrys[i]? = some e) (n : ℕ) :
    copySize buildType e n = min e.len n := by
  cases buildType with
  | false => rfl
  | true => simp [copySize, hp rfl g (by simp) e (List.mem_of_getElem? h)]

theorem memcpy_buf {e : ListEntry} {src : Bytes} (h : src.length ≤ e.len) :
    (e.memcpy src).buf = src ++ e.buf.drop src.length := by
  unfold ListEntry.len at h
  refine List.take_of_length_le ?_
  simp
  omega

theorem memcpy_len (e : ListEntry) (src : Bytes) : (e.memcpy src).len = e.len := by
  simp only [ListEntry.memcpy, ListEntry.len, List.length_take, List.length_append,
    List.length_drop]
  omega

theorem Paged.tail {buildType : Bool} {g : GcBufferList} {rest : List GcBufferList}
    (h : Paged buildType (g :: rest)) : Paged buildType rest :=
  fun hb g' hg' => h hb g' (List.mem_cons_of_mem _ hg')

theorem Paged.setEntry {buildType : Bool} {g : GcBufferList} {rest : List GcBufferList} {i : ℕ}
    {e e' : ListEntry} (h : Paged buildType (g :: rest)) (hi : g.entrys[i]? = some e)
    (hlen : e'.len = e.len) : Paged buildType (g.setEntry i e' :: rest) := by
  intro hb g' hg' x hx
  rcases List.mem_cons.mp hg' with rfl | hg'
  · rcases List.mem_or_eq_of_mem_set hx with hx | rfl
    · exact h hb g (by simp) x hx
    · rw [hlen]
      exact h hb g (by simp) e (List.mem_of_getElem? hi)
  · exact h.tail hb g' hg' x hx

/-! ## The scatter loop -/

/-- Copying the head of `left` into one buffer and the rest behind it, as one copy. -/
theorem splice_eq (left buf after : Bytes) (size : ℕ) (h : size = min buf.length left.length) :
    left.take size ++ buf.drop size ++ (left.drop size ++ after.drop (left.length - size)) =
      left ++ (buf ++ after).drop left.length := by
  rcases Nat.le_total left.length buf.length with hle | hle
  · obtain rfl : size = left.length := by omega
    simp [List.drop_append_of_le_length hle]
  · obtain rfl : size = buf.length := by omega
    rw [List.drop_append, List.drop_eq_nil_of_le hle, List.drop_length]
    simp only [List.append_nil, List.nil_append]
    rw [← List.append_assoc, List.take_append_drop]

section Scatter

variable {buildType : Bool} {fuel i : ℕ} {left : Bytes} {g : GcBufferList}
  {rest bl bl' : List GcBufferList} {e : ListEntry}

/-- The head of `left` in place of entry `i`. -/
def GcBufferList.fill (g : GcBufferList) (i : ℕ) (e : ListEntry) (left : Bytes) : GcBufferList :=
  g.setEntry i (e.memcpy (left.take (min e.len left.length)))

/-- One pass of the loop. -/
theorem scatter_pass (hp : Paged buildType (g :: rest)) (he : g.entrys[i]? = some e)
    (hleft : left ≠ []) :
    scatter buildType (fuel + 1) left i (g :: rest) =
      if ENTRY_PER_BUFFLIST ≤ i + 1 then
        (scatter buildType fuel (left.drop (min e.len left.length)) 0 rest).map
          (g.fill i e left :: ·)
      else
        scatter buildType fuel (left.drop (min e.len left.length)) (i + 1)
          (g.fill i e left :: rest) := by
  obtain ⟨b, left, rfl⟩ := List.exists_cons_of_ne_nil hleft
  rw [scatter, he]
  simp only [copySize_eq hp he, Nat.min_le_left, if_true]
  rfl

theorem scatter_pass_none (he : g.entrys[i]? = none) (hleft : left ≠ []) :
    scatter buildType (fuel + 1) left i (g :: rest) = none := by
  obtain ⟨b, left, rfl⟩ := List.exists_cons_of_ne_nil hleft
  rw [scatter, he]

theorem fill_buf (e : ListEntry) (left : Bytes) :
    (e.memcpy (left.take (min e.len left.length))).buf =
      left.take (min e.len left.length) ++ e.buf.drop (min e.len left.length) := by
  have hlen : (left.take (min e.len left.length)).length = min e.len left.length := by
    simp
  rw [memcpy_buf (by rw [hlen]; exact Nat.min_le_left _ _), hlen]

theorem chainBytes_eq (i : ℕ) (bl : List GcBufferList) :
    chainBytes bl = upTo i bl ++ fromEntry i bl := by
  cases bl with
  | nil => rfl
  | cons g rest =>
    rw [upTo, fromEntry, ← List.append_assoc, ← List.flatMap_append, List.take_append_drop]
    rfl

/-- **What the scatter loop writes**: `left` from where it stands on, and nothing
else. -/
theorem scatter_bytes (hp : Paged buildType bl)
    (h : scatter buildType fuel left i bl = some bl') :
    chainBytes bl' = upTo i bl ++ (left ++ (fromEntry i bl).drop left.length) := by
  induction fuel generalizing left i bl bl' with
  | zero =>
    cases left with
    | nil =>
      obtain rfl : bl = bl' := by simpa [scatter] using h
      simp [← chainBytes_eq]
    | cons b left => simp [scatter] at h
  | succ fuel ih =>
    by_cases hleft : left = []
    · subst hleft
      obtain rfl : bl = bl' := by simpa [scatter] using h
      simp [← chainBytes_eq]
    cases bl with
    | nil =>
      obtain ⟨b, left, rfl⟩ := List.exists_cons_of_ne_nil hleft
      simp [scatter] at h
    | cons g rest =>
      cases he : g.entrys[i]? with
      | none => simp [scatter_pass_none he hleft] at h
      | some e =>
        rw [scatter_pass hp he hleft] at h
        have hsplice := splice_eq left e.buf (fromEntry (i + 1) (g :: rest))
          (min e.len left.length) rfl
        have hdrop : (left.drop (min e.len left.length)).length =
            left.length - min e.len left.length := List.length_drop
        rw [fromEntry_succ he, ← hsplice, ← fill_buf]
        split_ifs at h with hlast
        · -- entry 63 was the last: the loop goes on at the start of the next list
          obtain ⟨rest', hrest, rfl⟩ := Option.map_eq_some_iff.mp h
          have hend : g.entrys.length ≤ i + 1 := g.entrySum_le.trans hlast
          have hbytes := ih hp.tail hrest
          rw [upTo_zero, fromEntry_zero, hdrop, List.nil_append] at hbytes
          rw [fromEntry_end hend, ← hbytes, ← List.append_assoc,
            ← bytes_setEntry rest he hend]
          rfl
        · -- what is behind the loop has grown by the entry just filled
          have hbytes := ih (hp.setEntry he (memcpy_len _ _)) h
          rw [upTo_setEntry rest he, fromEntry_setEntry, hdrop] at hbytes
          rw [hbytes, List.append_assoc]

/-- The loop changes no length. -/
theorem scatter_paged (hp : Paged buildType bl)
    (h : scatter buildType fuel left i bl = some bl') : Paged buildType bl' := by
  induction fuel generalizing left i bl bl' with
  | zero =>
    cases left with
    | nil => exact Option.some.inj h ▸ hp
    | cons b left => simp [scatter] at h
  | succ fuel ih =>
    by_cases hleft : left = []
    · subst hleft
      obtain rfl : bl = bl' := by simpa [scatter] using h
      exact hp
    cases bl with
    | nil =>
      obtain ⟨b, left, rfl⟩ := List.exists_cons_of_ne_nil hleft
      simp [scatter] at h
    | cons g rest =>
      cases he : g.entrys[i]? with
      | none => simp [scatter_pass_none he hleft] at h
      | some e =>
        have hfill : Paged buildType (g.fill i e left :: rest) :=
          hp.setEntry he (memcpy_len _ _)
        rw [scatter_pass hp he hleft] at h
        split_ifs at h with hlast
        · obtain ⟨rest', hrest, rfl⟩ := Option.map_eq_some_iff.mp h
          have hrest' := ih hp.tail hrest
          intro hb g' hg'
          rcases List.mem_cons.mp hg' with rfl | hg'
          · exact hfill hb _ (by simp)
          · exact hrest' hb g' hg'
        · exact ih hfill h

end Scatter

/-! ## When the scatter loop stays inside -/

/-- Every list that `n` bytes go past has all its entries. -/
def PassesOnlyFull : ℕ → List GcBufferList → Prop
  | _, [] => True
  | n, g :: rest => g.bytes.length < n →
      g.entrys.length = ENTRY_PER_BUFFLIST ∧ PassesOnlyFull (n - g.bytes.length) rest

/-- The same from entry `i` of the first list on. -/
def PassesFrom (i n : ℕ) : List GcBufferList → Prop
  | [] => True
  | g :: rest => ((g.entrys.drop i).flatMap (·.buf)).length < n →
      g.entrys.length = ENTRY_PER_BUFFLIST ∧
        PassesOnlyFull (n - ((g.entrys.drop i).flatMap (·.buf)).length) rest

theorem passesOnlyFull_zero (bl : List GcBufferList) : PassesOnlyFull 0 bl := by
  cases bl <;> simp [PassesOnlyFull]

theorem passesFrom_zero_entry (n : ℕ) (bl : List GcBufferList) :
    PassesFrom 0 n bl ↔ PassesOnlyFull n bl := by
  cases bl <;> simp [PassesFrom, PassesOnlyFull, GcBufferList.bytes]

section Inside

variable {buildType : Bool} {fuel i n : ℕ} {left : Bytes} {g : GcBufferList}
  {rest bl : List GcBufferList} {e : ListEntry}

/-- The condition after one pass that stays in the list. -/
theorem passesFrom_succ (he : g.entrys[i]? = some e) :
    PassesFrom i n (g :: rest) ↔ PassesFrom (i + 1) (n - min e.len n) (g :: rest) := by
  simp only [PassesFrom, drop_entry he, List.flatMap_cons, List.length_append, ListEntry.len]
  -- whether the bytes go past the list does not depend on how many entries are done
  generalize ((g.entrys.drop (i + 1)).flatMap (·.buf)).length = ahead
  rcases Nat.lt_or_ge (e.buf.length + ahead) n with hlt | hge
  · have hlt' : ahead < n - min e.buf.length n := by omega
    have hsub : n - min e.buf.length n - ahead = n - (e.buf.length + ahead) := by omega
    simp only [hlt, hlt', hsub]
  · have hge' : ¬ ahead < n - min e.buf.length n := by omega
    simp only [Nat.not_lt.mpr hge, hge', false_imp_iff]

/-- The condition after the pass that fills entry 63. -/
theorem passesFrom_last (he : g.entrys[i]? = some e) (hlast : ENTRY_PER_BUFFLIST ≤ i + 1) :
    PassesFrom i n (g :: rest) ↔ PassesOnlyFull (n - min e.len n) rest := by
  obtain ⟨hi, _⟩ := List.getElem?_eq_some_iff.mp he
  have hle := g.entrySum_le
  have hfull : g.entrys.length = ENTRY_PER_BUFFLIST := by omega
  have hdrop : g.entrys.drop (i + 1) = [] := List.drop_eq_nil_of_le (by omega)
  rw [passesFrom_succ he]
  simp only [PassesFrom, hdrop, List.flatMap_nil, List.length_nil, Nat.sub_zero, hfull, true_and]
  rcases Nat.eq_zero_or_pos (n - min e.len n) with hz | hpos
  · simp [hz, passesOnlyFull_zero]
  · simp [hpos]

theorem passesFrom_setEntry (e' : ListEntry) :
    PassesFrom (i + 1) n (g.setEntry i e' :: rest) ↔ PassesFrom (i + 1) n (g :: rest) := by
  simp [PassesFrom, GcBufferList.setEntry, List.drop_set]

/-- **When the scatter loop stays inside the chain.** -/
theorem scatter_isSome_iff (left : Bytes) (i : ℕ) (hp : Paged buildType bl)
    (hi : i < ENTRY_PER_BUFFLIST) (hfuel : left.length ≤ fuel)
    (hroom : left.length ≤ (fromEntry i bl).length) :
    (∃ bl', scatter buildType fuel left i bl = some bl') ↔ PassesFrom i left.length bl := by
  induction fuel generalizing left i bl with
  | zero =>
    obtain rfl : left = [] := List.eq_nil_of_length_eq_zero (by omega)
    cases bl <;> simp [scatter, PassesFrom]
  | succ fuel ih =>
    by_cases hleft : left = []
    · subst hleft
      cases bl <;> simp [scatter, PassesFrom]
    have hpos : 0 < left.length := List.length_pos_iff.mpr hleft
    cases bl with
    | nil => simp [fromEntry, hleft] at hroom
    | cons g rest =>
      cases he : g.entrys[i]? with
      | none =>
        -- the list ends before entry 64: the code indexes past `entrySumList`
        have hend : g.entrys.length ≤ i := List.getElem?_eq_none_iff.mp he
        have hnot : g.entrys.length ≠ ENTRY_PER_BUFFLIST := by omega
        simp [scatter_pass_none he hleft, PassesFrom, List.drop_eq_nil_of_le hend, hpos, hnot]
      | some e =>
        have hepos : 0 < e.len := e.pos
        have hdrop : (left.drop (min e.len left.length)).length =
            left.length - min e.len left.length := List.length_drop
        rw [fromEntry_succ he, List.length_append] at hroom
        have hmin : e.buf.length = e.len := rfl
        rw [scatter_pass hp he hleft]
        by_cases hlast : ENTRY_PER_BUFFLIST ≤ i + 1
        · have hend : g.entrys.length ≤ i + 1 := g.entrySum_le.trans hlast
          rw [fromEntry_end hend] at hroom
          have hih := ih (left.drop (min e.len left.length)) 0 hp.tail (by decide)
            (by omega) (by rw [fromEntry_zero]; omega)
          rw [hdrop, passesFrom_zero_entry] at hih
          rw [if_pos hlast, passesFrom_last he hlast, ← hih]
          simp
        · have hih := ih (left.drop (min e.len left.length)) (i + 1)
            (hp.setEntry he (memcpy_len e (left.take (min e.len left.length)))) (by omega)
            (by omega) (by rw [fromEntry_setEntry]; omega)
          rw [hdrop, passesFrom_setEntry, ← passesFrom_succ he] at hih
          rw [if_neg hlast]
          exact hih

end Inside

/-! ## The gather loop -/

/-- **What the gather loop reads**: the bytes from where it stands on. -/
theorem gather_eq {isRelease : Bool} {fuel n i : ℕ} {bl : List GcBufferList}
    (hp : Paged isRelease bl) (hi : ∀ g ∈ bl.head?, i < g.entrys.length) (hfuel : n ≤ fuel)
    (hroom : n ≤ (fromEntry i bl).length) :
    gather isRelease fuel n i bl = some ((fromEntry i bl).take n) := by
  induction fuel generalizing n i bl with
  | zero =>
    obtain rfl : n = 0 := by omega
    simp [gather]
  | succ fuel ih =>
    cases n with
    | zero => simp [gather]
    | succ n =>
      cases bl with
      | nil => simp [fromEntry] at hroom
      | cons g rest =>
        have hlt : i < g.entrys.length := hi g (by simp)
        have he : g.entrys[i]? = some g.entrys[i] := List.getElem?_eq_getElem hlt
        generalize g.entrys[i] = e at he
        have hepos : 0 < e.len := e.pos
        have hmin : e.buf.length = e.len := rfl
        rw [fromEntry_succ he, List.length_append] at hroom
        rw [gather, he]
        simp only [copySize_eq hp he, Nat.min_le_left, if_true]
        -- one pass gives the part of the first `n + 1` bytes that this entry holds
        have htake : e.buf.take (min e.len (n + 1)) = e.buf.take (n + 1) :=
          List.take_eq_take_iff.mpr (by omega)
        have hsub : n + 1 - min e.len (n + 1) = n + 1 - e.buf.length := by omega
        rw [fromEntry_succ he, List.take_append, htake, hsub]
        by_cases hlast : g.entrys.length ≤ i + 1
        · rw [fromEntry_end hlast] at hroom ⊢
          have hih := ih (n := n + 1 - e.buf.length) (i := 0) hp.tail
            (fun g' _ => g'.nonempty) (by omega) (by rw [fromEntry_zero]; omega)
          rw [if_pos hlast, hih, fromEntry_zero]
          rfl
        · have hih := ih (n := n + 1 - e.buf.length) (i := i + 1) hp
            (fun g' hg' => by simp at hg'; subst hg'; omega) (by omega) (by omega)
          rw [if_neg hlast, hih]
          rfl

/-- The real data of a write is the start of the chain, for every length that fits
both the chain and `uint32_t`. -/
theorem gatherData_eq {isRelease : Bool} {n : ℕ} {bl : List GcBufferList}
    (hp : Paged isRelease bl) (hroom : n ≤ (chainBytes bl).length) (hn : n < 2 ^ 32) :
    gatherData isRelease n bl = some ((chainBytes bl).take n) := by
  rw [gatherData, Nat.mod_eq_of_lt hn, gather_eq hp (fun g _ => g.nonempty) le_rfl
    (by rwa [fromEntry_zero]), fromEntry_zero]

/-! ## Scatter, then gather -/

theorem zero_bytes (g : GcBufferList) : g.zero.bytes = List.replicate g.bytes.length 0 := by
  show (g.entrys.map ListEntry.zero).flatMap ListEntry.buf =
    List.replicate (g.entrys.flatMap ListEntry.buf).length 0
  induction g.entrys with
  | nil => rfl
  | cons e es ih =>
    simp only [List.map_cons, List.flatMap_cons, List.length_append, ih, ListEntry.zero,
      List.replicate_append_replicate]

theorem zero_chainBytes (bl : List GcBufferList) :
    chainBytes (bl.map .zero) = List.replicate (chainBytes bl).length 0 := by
  unfold chainBytes
  induction bl with
  | nil => rfl
  | cons g rest ih =>
    simp only [List.map_cons, List.flatMap_cons, List.length_append, ih, zero_bytes,
      List.replicate_append_replicate]

theorem zero_paged {buildType : Bool} {bl : List GcBufferList} (hp : Paged buildType bl) :
    Paged buildType (bl.map .zero) := by
  intro hb g hg e he
  obtain ⟨g', hg', rfl⟩ := List.mem_map.mp hg
  obtain ⟨e', he', rfl⟩ := List.mem_map.mp he
  have := hp hb g' hg' e' he'
  simpa [ListEntry.zero, ListEntry.len] using this

theorem zero_passesOnlyFull (n : ℕ) (bl : List GcBufferList) :
    PassesOnlyFull n (bl.map .zero) ↔ PassesOnlyFull n bl := by
  induction bl generalizing n with
  | nil => rfl
  | cons g rest ih =>
    simp only [List.map_cons, PassesOnlyFull, zero_bytes, List.length_replicate, ih]
    simp [GcBufferList.zero]

/-- `ReadCallback` stays inside the chain, the gather loop gives the result back,
and a short result is followed by zeros only. -/
def RoundTrips (buildType : Bool) (len : ℕ) (results : BufferList) (bl : List GcBufferList) :
    Prop :=
  ∃ bl', readCallback buildType len results bl = some bl' ∧
    gatherData buildType results.data.length bl' = some results.data ∧
    (results.data.length < len → ∀ b ∈ (chainBytes bl').drop results.data.length, b = 0)

/-- The chain the scatter loop starts on, cleared or not. -/
def chainAtStart (len : ℕ) (results : BufferList) (bl : List GcBufferList) : List GcBufferList :=
  if results.data.length ≠ len then bl.map .zero else bl

section Start

variable {buildType : Bool} {len : ℕ} {results : BufferList} {bl bl' : List GcBufferList}

theorem chainAtStart_paged (hp : Paged buildType bl) :
    Paged buildType (chainAtStart len results bl) := by
  unfold chainAtStart
  split_ifs
  · exact zero_paged hp
  · exact hp

theorem length_chainAtStart :
    (chainBytes (chainAtStart len results bl)).length = (chainBytes bl).length := by
  unfold chainAtStart
  split_ifs
  · simp [zero_chainBytes]
  · rfl

/-- `ReadCallback` stays inside the chain exactly when every list the result goes past has all
its 64 entries. -/
theorem readCallback_isSome_iff (hp : Paged buildType bl)
    (hroom : results.data.length ≤ (chainBytes bl).length) :
    (∃ bl', readCallback buildType len results bl = some bl') ↔
      PassesOnlyFull results.data.length bl := by
  have hpass : PassesOnlyFull results.data.length (chainAtStart len results bl) ↔
      PassesOnlyFull results.data.length bl := by
    unfold chainAtStart
    split_ifs
    · exact zero_passesOnlyFull _ bl
    · rfl
  have hp' : Paged buildType (chainAtStart len results bl) := chainAtStart_paged hp
  have hsome := scatter_isSome_iff results.data 0 hp' (by decide) le_rfl
    (by rw [fromEntry_zero, length_chainAtStart]; exact hroom)
  rw [passesFrom_zero_entry, hpass] at hsome
  exact hsome

/-- The result, and behind it what the chain held when the loop began. -/
theorem chainBytes_readCallback (hp : Paged buildType bl)
    (h : readCallback buildType len results bl = some bl') :
    chainBytes bl' = results.data ++
      (chainBytes (chainAtStart len results bl)).drop results.data.length := by
  have hbytes := scatter_bytes (chainAtStart_paged hp) h
  rwa [upTo_zero, fromEntry_zero, List.nil_append] at hbytes

end Start

/-- **Scatter and gather agree exactly when** every list the result goes past has
all its 64 entries. -/
theorem readCallback_roundTrips_iff (buildType : Bool) (len : ℕ) (results : BufferList)
    (bl : List GcBufferList) (hp : Paged buildType bl)
    (hroom : results.data.length ≤ (chainBytes bl).length) :
    RoundTrips buildType len results bl ↔ PassesOnlyFull results.data.length bl := by
  rw [← @readCallback_isSome_iff _ len _ _ hp hroom]
  constructor
  · rintro ⟨bl', hbl', _⟩
    exact ⟨bl', hbl'⟩
  · rintro ⟨bl', hbl'⟩
    have hbytes := chainBytes_readCallback hp hbl'
    refine ⟨bl', hbl', ?_, ?_⟩
    · rw [gatherData_eq (scatter_paged (chainAtStart_paged hp) hbl') (by rw [hbytes]; simp)
        results.fits, hbytes, List.take_left]
    · intro hshort b hb
      rw [hbytes, List.drop_left, chainAtStart, if_pos (by omega), zero_chainBytes,
        List.drop_replicate] at hb
      exact List.eq_of_mem_replicate hb

/-- A list with one entry of one byte. -/
def oneByteList : GcBufferList :=
  ⟨[⟨[0], by decide, by decide⟩], by decide, by decide⟩

/-- One byte in a chain of two such lists stays in the first. -/
theorem readCallback_roundTrips_one_byte :
    RoundTrips false 1 ⟨[7], by decide⟩ [oneByteList, oneByteList] :=
  (readCallback_roundTrips_iff false 1 ⟨[7], by decide⟩ [oneByteList, oneByteList]
    (by intro h; simp at h) (by decide)).mpr (by
      intro h
      exact absurd h (by decide))

/-- Two bytes go past the first list, which has one entry: the scatter loop takes
entry 1 of it. -/
theorem readCallback_leaves_chain :
    readCallback false 2 ⟨[7, 8], by decide⟩ [oneByteList, oneByteList] = none ∧
      ¬ RoundTrips false 2 ⟨[7, 8], by decide⟩ [oneByteList, oneByteList] := by
  have hnone : readCallback false 2 ⟨[7, 8], by decide⟩ [oneByteList, oneByteList] = none := by
    rfl
  refine ⟨hnone, ?_⟩
  rintro ⟨bl', hbl', _⟩
  simp [hnone] at hbl'

end GcAdaptor.BufferChain
