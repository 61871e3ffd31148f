/-
Sending over TLS: `TlsPosixConnectedSocketImpl::try_handShaked`, `do_sendmsg` and `send`
(`patch/globalcache-ceph-adaptor-server.patch`).

`send` hands the buffers of a list to `do_sendmsg` in groups of `IOV_MAX`. A group is copied
into one block and written by `SSL_write` until all of it is accepted or a write fails; then
`send` drops from the list as many bytes as it has counted. The results of `SSL_write` are
inputs, one for each turn of the loop.

`do_sendmsg` returns its count where the socket would block, and `-errno` where a write fails
for good. With `errno` zero that is a count of zero, whatever has been accepted of the group:
the bytes stay in the list and are sent again. The offsets of the copy are `int`s, and a group
of more than 2 GiB is copied outside its block. `send_preserves_iff` is the exact condition.
-/
import GcAdaptor.Cxx
import GcAdaptor.Interleave

set_option autoImplicit false

namespace GcAdaptor.TlsSend

open GcAdaptor.Wire (Bytes)
open GcAdaptor.Cxx GcAdaptor.Interleave

/-! ## The socket -/

def RETRY_TIME : ℕ := 10000

structure Socket where
  isServer : Bool
  isHandShaked : Bool
  retryCount : ℕ := 0

/-- `sslAccept` and `sslConnect` are what the library calls of these names return. -/
def tryHandShaked (sslAccept sslConnect : ℤ) (sock : Socket) : ℤ × Socket :=
  if sock.isHandShaked then (1, sock)
  else
    let tried := { sock with retryCount := sock.retryCount + 1 }
    if RETRY_TIME < sock.retryCount then (-1, tried)
    else
      let ret := if sock.isServer then sslAccept else sslConnect
      if ret ≤ 0 then (0, tried) else (1, { tried with isHandShaked := true })

/-! ## One group of buffers -/

/-- What `SSL_get_error` returns, as far as it matters. -/
inductive SslError
  | wantRead | wantWrite
  | other (code : ℤ)
  deriving DecidableEq

/-- One call of `SSL_write`: it takes `k + 1` bytes, or all there are if these are fewer, or it
fails. -/
inductive WriteResult
  | wrote (k : ℕ)
  | failed (errno : ℕ) (sslErr : SslError)
  deriving DecidableEq

def EINTR : ℕ := 4
def EAGAIN : ℕ := 11

/-- How a call ends. -/
inductive Outcome (α : Type)
  | returned (a : α)
  /-- the results of `SSL_write` are used up before the call returns -/
  | writing
  /-- a copy outside the block, or a failed assertion -/
  | crashed

/-- The value returned, the bytes `SSL_write` has accepted and its results not yet used. -/
structure Sent where
  ret : ℤ
  accepted : Bytes
  rest : List WriteResult

/-- `memcpy(block + offset, src, src.length)`; `none` outside the block. -/
def memcpy (block : Bytes) (offset : ℤ) (src : Bytes) : Option Bytes :=
  if src = [] then some block
  else if 0 ≤ offset ∧ offset + src.length ≤ block.length then
    some (block.take offset.toNat ++ src ++ block.drop (offset.toNat + src.length))
  else none

/-- The loop that copies the buffers of a group into one block; `offset` is an `int`. -/
def gather : List Bytes → Bytes → ℤ → Option (Bytes × ℤ)
  | [], tempBuffer, offset => some (tempBuffer, offset)
  | iov :: msgIov, tempBuffer, offset => do
    let tempBuffer ← memcpy tempBuffer offset iov
    gather msgIov tempBuffer (int32 (offset + iov.length))

/-- The loop of `do_sendmsg`; `remain` is the length of what is behind `cur`. -/
def writeLoop : List WriteResult → Bytes → ℕ → Bytes → Outcome Sent
  | ws, [], sent, accepted => .returned ⟨sent, accepted, ws⟩
  | [], _ :: _, _, _ => .writing
  | .wrote k :: ws, b :: cur, sent, accepted =>
    writeLoop ws (cur.drop k) (sent + min (k + 1) (cur.length + 1))
      (accepted ++ (b :: cur).take (k + 1))
  | .failed errno sslErr :: ws, b :: cur, sent, accepted =>
    if errno = EINTR then writeLoop ws (b :: cur) sent accepted
    else if errno = EAGAIN ∨ sslErr = .wantRead ∨ sslErr = .wantWrite then
      .returned ⟨sent, accepted, ws⟩
    else .returned ⟨-errno, accepted, ws⟩

/-- `malloc` says whether the block is there. -/
def doSendmsg (malloc : Bool) (msgIov : List Bytes) (len : ℕ) (ws : List WriteResult) :
    Outcome Sent :=
  if malloc then
    match gather msgIov (List.replicate len 0) 0 with
    | none => .crashed
    | some (tempBuffer, offset) =>
      -- `ceph_assert(offset == len)` compares unsigned words
      if offset % 2 ^ 32 ≠ len then .crashed
      else if offset ≤ 0 then .returned ⟨0, [], ws⟩
      else writeLoop ws tempBuffer 0 []
  else .returned ⟨-1, [], ws⟩

/-! ## A list of buffers -/

/-- `bufferlist`: its length is an `unsigned`. -/
structure BufferList where
  buffers : List Bytes
  fits : buffers.flatten.length < 2 ^ 32

def BufferList.bytes (bl : BufferList) : Bytes := bl.buffers.flatten

def IOV_MAX : ℕ := 1024

/-- The groups of at most `IOV_MAX` buffers; `n` is at least the number of groups. -/
def groups : ℕ → List Bytes → List (List Bytes)
  | 0, _ => []
  | _, [] => []
  | n + 1, b :: bs => (b :: bs).take IOV_MAX :: groups n ((b :: bs).drop IOV_MAX)

/-- `msglen`, an `unsigned`. -/
def msglen (msgIov : List Bytes) : ℕ := msgIov.flatten.length % 2 ^ 32

/-- The loop of `send`: group `i` and those behind it. -/
def sendLoop (malloc : ℕ → Bool) :
    ℕ → List (List Bytes) → List WriteResult → ℕ → Bytes → Outcome Sent
  | _, [], ws, sentBytes, accepted => .returned ⟨sentBytes, accepted, ws⟩
  | i, msgIov :: gs, ws, sentBytes, accepted =>
    match doSendmsg (malloc i) msgIov (msglen msgIov) ws with
    | .crashed => .crashed
    | .writing => .writing
    | .returned r =>
      if r.ret < 0 then .returned ⟨r.ret, accepted ++ r.accepted, r.rest⟩
      else
        let sentBytes := sentBytes + r.ret.toNat
        if r.ret.toNat % 2 ^ 32 < msglen msgIov then
          .returned ⟨sentBytes, accepted ++ r.accepted, r.rest⟩
        else sendLoop malloc (i + 1) gs r.rest sentBytes (accepted ++ r.accepted)

/-- What is behind the first `n` bytes. -/
def dropBytes : ℕ → List Bytes → List Bytes
  | _, [] => []
  | n, b :: bs => if b.length ≤ n then dropBytes (n - b.length) bs else b.drop n :: bs

theorem flatten_dropBytes (n : ℕ) (bs : List Bytes) :
    (dropBytes n bs).flatten = bs.flatten.drop n := by
  induction bs generalizing n with
  | nil => simp [dropBytes]
  | cons b bs ih =>
    rw [dropBytes, List.flatten_cons, List.drop_append]
    split_ifs with hle
    · rw [ih, List.drop_eq_nil_of_le hle, List.nil_append]
    · rw [List.flatten_cons, Nat.sub_eq_zero_of_le (by omega), List.drop_zero]

/-- `splice` and `swap`, or `clear`. -/
def BufferList.trim (bl : BufferList) (sentBytes : ℕ) : BufferList :=
  if sentBytes = 0 then bl
  else if sentBytes < bl.bytes.length then
    { buffers := dropBytes sentBytes bl.buffers
      fits := by
        have := bl.fits
        rw [flatten_dropBytes, List.length_drop]
        omega }
  else { buffers := [], fits := by decide }

/-- What one call of `send` meets. -/
structure Env where
  sslAccept : ℤ := 1
  sslConnect : ℤ := 1
  malloc : ℕ → Bool := fun _ => true
  writes : List WriteResult := []

/-- What one call of `send` leaves. -/
structure SendResult where
  ret : ℤ
  accepted : Bytes
  bl : BufferList
  sock : Socket

def send (env : Env) (sock : Socket) (bl : BufferList) : Outcome SendResult :=
  let (tryRet, sock) := tryHandShaked env.sslAccept env.sslConnect sock
  if tryRet = -1 then .returned ⟨-1, [], bl, sock⟩
  else if tryRet = 0 then .returned ⟨0, [], bl, sock⟩
  else
    match sendLoop env.malloc 0 (groups bl.buffers.length bl.buffers) env.writes 0 [] with
    | .crashed => .crashed
    | .writing => .writing
    | .returned r =>
      if r.ret < 0 then .returned ⟨r.ret, r.accepted, bl, sock⟩
      else .returned ⟨r.ret, r.accepted, bl.trim r.ret.toNat, sock⟩

/-! ## When it goes wrong -/

/-- Every buffer with anything in it starts less than `2^31` bytes into its group, of which `n`
are before these. -/
def Addressable : ℕ → List Bytes → Prop
  | _, [] => True
  | n, b :: bs => (b ≠ [] → n < 2 ^ 31) ∧ Addressable (n + b.length) bs

/-- The results left once `n` bytes have been accepted, if no write fails for good before. -/
def written : ℕ → List WriteResult → Option (List WriteResult)
  | 0, ws => some ws
  | _ + 1, [] => none
  | n + 1, .wrote k :: ws => written (n - k) ws
  | n + 1, .failed errno _ :: ws => if errno = EINTR then written (n + 1) ws else none

/-- Of a group of which `n` bytes are left, and of which some have been accepted if `started`
says so, a write fails for good with `errno` zero after some have. -/
def failsInside : Bool → ℕ → List WriteResult → Bool
  | _, 0, _ => false
  | _, _ + 1, [] => false
  | _, n + 1, .wrote k :: ws => failsInside true (n - k) ws
  | started, n + 1, .failed errno sslErr :: ws =>
    if errno = EINTR then failsInside started (n + 1) ws
    else started && errno = 0 && sslErr ≠ .wantRead && sslErr ≠ .wantWrite

/-- No group that `send` comes to is copied outside its block or fails inside. -/
def Whole (malloc : ℕ → Bool) : ℕ → List (List Bytes) → List WriteResult → Prop
  | _, [], _ => True
  | i, g :: gs, ws =>
    malloc i = true →
      Addressable 0 g ∧
        (g.flatten.length < 2 ^ 31 →
          failsInside false g.flatten.length ws = false ∧
            ∀ ws', written g.flatten.length ws = some ws' → Whole malloc (i + 1) gs ws')

/-! ## The copy of a group -/

theorem int32_add (a b : ℤ) : int32 (int32 a + b) = int32 (a + b) := by
  unfold int32
  omega

/-- A copy right behind what is there. -/
theorem memcpy_next (front junk src : Bytes) (hsrc : src ≠ []) (hlen : src.length ≤ junk.length)
    (hfit : front.length + junk.length < 2 ^ 32) :
    memcpy (front ++ junk) (int32 front.length) src =
      if front.length < 2 ^ 31 then some (front ++ src ++ junk.drop src.length) else none := by
  rw [memcpy, if_neg hsrc]
  by_cases hlt : front.length < 2 ^ 31
  · have hoff : int32 front.length = front.length := int32_of_mem (by omega) (by omega)
    rw [hoff, if_pos hlt, if_pos ⟨by omega, by rw [List.length_append]; omega⟩, Int.toNat_natCast]
    rw [List.take_left, List.drop_append, List.drop_eq_nil_of_le (by omega), List.nil_append,
      Nat.add_sub_cancel_left]
  · have hneg : int32 front.length < 0 := by
      unfold int32
      omega
    rw [if_neg hlt, if_neg (by omega)]

theorem gather_cons (b : Bytes) (g : List Bytes) (block : Bytes) (offset : ℤ) :
    gather (b :: g) block offset =
      (memcpy block offset b).bind fun block => gather g block (int32 (offset + b.length)) := rfl

/-- The block holds the buffers one behind the other, unless one of them starts too late. -/
theorem gather_spec (g : List Bytes) (front junk : Bytes) (hlen : junk.length = g.flatten.length)
    (hfit : front.length + junk.length < 2 ^ 32) :
    (Addressable front.length g → gather g (front ++ junk) (int32 front.length) =
      some (front ++ g.flatten, int32 (front.length + g.flatten.length : ℕ))) ∧
    (¬ Addressable front.length g → gather g (front ++ junk) (int32 front.length) = none) := by
  induction g generalizing front junk with
  | nil =>
    have hnil : junk = [] := List.eq_nil_of_length_eq_zero hlen
    subst hnil
    exact ⟨fun _ => rfl, fun h => absurd trivial h⟩
  | cons b g ih =>
    rw [List.flatten_cons, List.length_append] at hlen
    have hoff : int32 (int32 front.length + b.length) = int32 (front.length + b.length : ℕ) := by
      rw [int32_add, Nat.cast_add]
    rw [Addressable, gather_cons, hoff, List.flatten_cons, List.length_append, ← Nat.add_assoc]
    -- an empty buffer is copied nowhere, so it may start anywhere
    by_cases hb : b = []
    · subst hb
      have hrest := ih front junk (by simpa using hlen) hfit
      rw [memcpy, if_pos rfl, Option.bind_some]
      exact ⟨fun h => hrest.1 h.2, fun h => hrest.2 fun h' => h ⟨fun hne => absurd rfl hne, h'⟩⟩
    · rw [memcpy_next front junk b hb (by omega) hfit]
      by_cases hlt : front.length < 2 ^ 31
      · have hrest := ih (front ++ b) (junk.drop b.length) (by rw [List.length_drop]; omega)
          (by rw [List.length_append, List.length_drop]; omega)
        rw [List.length_append, List.append_assoc front b g.flatten] at hrest
        rw [if_pos hlt, Option.bind_some]
        exact ⟨fun h => hrest.1 h.2, fun h => hrest.2 fun h' => h ⟨fun _ => hlt, h'⟩⟩
      · rw [if_neg hlt, Option.bind_none]
        exact ⟨fun h => absurd (h.1 hb) hlt, fun _ => rfl⟩

/-! ## The writes of a group -/

section Writes

variable {ws rest : List WriteResult} {cur accepted : Bytes} {sent : ℕ}

/-- What a successful write takes, and what it leaves. -/
theorem take_wrote (b : UInt8) (cur : Bytes) (k j : ℕ) :
    (b :: cur).take (k + 1) ++ (cur.drop k).take j = (b :: cur).take (k + 1 + j) := by
  rw [List.take_add (i := k + 1), List.drop_succ_cons]

/-- After a successful write some of the group has been accepted. -/
theorem failsInside_wrote (started : Bool) (sent k : ℕ) (b : UInt8) :
    failsInside started (b :: cur).length (.wrote k :: ws) =
      failsInside (decide (0 < sent + min (k + 1) (cur.length + 1))) (cur.drop k).length ws := by
  have hstarted : decide (0 < sent + min (k + 1) (cur.length + 1)) = true := by
    rw [decide_eq_true_eq]
    omega
  rw [hstarted, List.length_cons, List.length_drop, failsInside]

theorem writeLoop_of_written (h : written cur.length ws = some rest) :
    writeLoop ws cur sent accepted =
      .returned ⟨(sent + cur.length : ℕ), accepted ++ cur, rest⟩ := by
  induction ws generalizing cur sent accepted with
  | nil =>
    cases cur with
    | nil =>
      cases h
      simp [writeLoop]
    | cons b cur => cases h
  | cons w ws ih =>
    cases cur with
    | nil =>
      cases h
      simp [writeLoop]
    | cons b cur =>
      cases w with
      | wrote k =>
        rw [List.length_cons, written, ← List.length_drop] at h
        rw [writeLoop, ih h, List.append_assoc]
        have htake : (b :: cur).take (k + 1) ++ cur.drop k = b :: cur :=
          List.take_append_drop (k + 1) (b :: cur)
        have hcount : sent + min (k + 1) (cur.length + 1) + (cur.drop k).length =
            sent + (b :: cur).length := by
          rw [List.length_drop, List.length_cons]
          omega
        rw [htake, hcount]
      | failed errno sslErr =>
        rw [List.length_cons, written] at h
        split_ifs at h with hintr
        rw [writeLoop, if_pos hintr]
        exact ih h

/-- The group fails inside: the count returned is zero, and some of it has been accepted. -/
theorem writeLoop_of_failsInside
    (h : failsInside (decide (0 < sent)) cur.length ws = true) :
    ∃ k < cur.length, 0 < sent + k ∧
      ∃ rest, writeLoop ws cur sent accepted = .returned ⟨0, accepted ++ cur.take k, rest⟩ := by
  induction ws generalizing cur sent accepted with
  | nil => cases cur <;> cases h
  | cons w ws ih =>
    cases cur with
    | nil => cases h
    | cons b cur =>
      cases w with
      | wrote k =>
        rw [failsInside_wrote _ sent] at h
        obtain ⟨j, hj, -, rest, hloop⟩ := ih h
        rw [List.length_drop] at hj
        refine ⟨k + 1 + j, by rw [List.length_cons]; omega, by omega, rest, ?_⟩
        rw [writeLoop, hloop, List.append_assoc, take_wrote]
      | failed errno sslErr =>
        rw [List.length_cons, failsInside] at h
        rw [writeLoop]
        split_ifs at h ⊢ with hintr hagain
        · exact ih h
        · -- to try again would return the count, and this failure does not ask for it
          simp only [Bool.and_eq_true, decide_eq_true_eq] at h
          obtain ⟨⟨⟨-, rfl⟩, hread⟩, hwrite⟩ := h
          rcases hagain with hagain | hagain | hagain
          · cases hagain
          · exact absurd hagain hread
          · exact absurd hagain hwrite
        · simp only [Bool.and_eq_true, decide_eq_true_eq] at h
          obtain ⟨⟨⟨hpos, rfl⟩, -⟩, -⟩ := h
          exact ⟨0, by simp, hpos, ws, by simp⟩

/-- Otherwise a count that is not negative is that of the bytes accepted. -/
theorem writeLoop_of_not_failsInside {r : Sent}
    (h : failsInside (decide (0 < sent)) cur.length ws = false)
    (hw : written cur.length ws = none)
    (hr : writeLoop ws cur sent accepted = .returned r) (hret : 0 ≤ r.ret) :
    ∃ k < cur.length, r.ret = (sent + k : ℕ) ∧ r.accepted = accepted ++ cur.take k := by
  induction ws generalizing cur sent accepted with
  | nil => cases cur <;> cases hr; cases hw
  | cons w ws ih =>
    cases cur with
    | nil => cases hw
    | cons b cur =>
      cases w with
      | wrote k =>
        rw [failsInside_wrote _ sent] at h
        rw [List.length_cons, written, ← List.length_drop] at hw
        rw [writeLoop] at hr
        obtain ⟨j, hj, hcount, hacc⟩ := ih h hw hr
        rw [List.length_drop] at hj
        refine ⟨k + 1 + j, by rw [List.length_cons]; omega, ?_, ?_⟩
        · rw [hcount]
          congr 1
          omega
        · rw [hacc, List.append_assoc, take_wrote]
      | failed errno sslErr =>
        rw [List.length_cons, failsInside] at h
        rw [List.length_cons, written] at hw
        rw [writeLoop] at hr
        split_ifs at h hw hr with hintr hagain
        · exact ih h hw hr
        · cases hr
          exact ⟨0, by simp, by simp, by simp⟩
        · cases hr
          -- `-errno` is not negative only without an error number
          obtain rfl : errno = 0 := by
            have : (0 : ℤ) ≤ -errno := hret
            omega
          push Not at hagain
          have hzero : sent = 0 := by
            simp [hagain] at h
            omega
          exact ⟨0, by simp, by simp [hzero], by simp⟩

theorem writeLoop_ne_crashed : writeLoop ws cur sent accepted ≠ .crashed := by
  induction ws generalizing cur sent accepted with
  | nil => cases cur <;> simp [writeLoop]
  | cons w ws ih =>
    cases cur with
    | nil => simp [writeLoop]
    | cons b cur =>
      cases w with
      | wrote k => exact ih
      | failed errno sslErr =>
        rw [writeLoop]
        split_ifs
        · exact ih
        · simp
        · simp

end Writes

/-! ## The writes come to an end -/

/-- How many results are not interruptions. -/
def lasting (ws : List WriteResult) : ℕ :=
  ws.countP fun
    | .wrote _ => true
    | .failed errno _ => errno ≠ EINTR

theorem lasting_of_written {n : ℕ} {ws rest : List WriteResult} (h : written n ws = some rest) :
    lasting ws ≤ lasting rest + n := by
  induction ws generalizing n with
  | nil =>
    cases n with
    | zero =>
      cases h
      omega
    | succ n => cases h
  | cons w ws ih =>
    cases n with
    | zero =>
      cases h
      omega
    | succ n =>
      cases w with
      | wrote k =>
        have hle := ih h
        rw [lasting, List.countP_cons_of_pos rfl, ← lasting]
        omega
      | failed errno sslErr =>
        rw [written] at h
        split_ifs at h with hintr
        rw [lasting, List.countP_cons_of_neg (by simp [hintr]), ← lasting]
        exact ih h

/-- As many results as bytes are enough: every one takes a byte or ends the loop. -/
theorem lasting_of_writing {ws : List WriteResult} {cur accepted : Bytes} {sent : ℕ}
    (h : writeLoop ws cur sent accepted = .writing) : lasting ws < cur.length := by
  induction ws generalizing cur sent accepted with
  | nil =>
    cases cur with
    | nil => cases h
    | cons b cur => simp [lasting]
  | cons w ws ih =>
    cases cur with
    | nil => cases h
    | cons b cur =>
      cases w with
      | wrote k =>
        have hlt := ih h
        rw [lasting, List.countP_cons_of_pos rfl, ← lasting, List.length_cons]
        rw [List.length_drop] at hlt
        omega
      | failed errno sslErr =>
        rw [writeLoop] at h
        split_ifs at h with hintr
        rw [lasting, List.countP_cons_of_neg (by simp [hintr]), ← lasting]
        exact ih h

/-! ## The groups of a list -/

section Groups

variable {g : List Bytes} {gs : List (List Bytes)} {ws : List WriteResult}
variable {malloc : ℕ → Bool} {i : ℕ} {accepted : Bytes}

theorem msglen_eq (hfit : g.flatten.length < 2 ^ 32) : msglen g = g.flatten.length :=
  Nat.mod_eq_of_lt hfit

theorem gather_block (hfit : g.flatten.length < 2 ^ 32) :
    (Addressable 0 g → gather g (List.replicate g.flatten.length 0) 0 =
      some (g.flatten, int32 g.flatten.length)) ∧
    (¬ Addressable 0 g → gather g (List.replicate g.flatten.length 0) 0 = none) := by
  have hspec := gather_spec g [] (List.replicate g.flatten.length 0) (List.length_replicate)
    (by rw [List.length_replicate]; simpa using hfit)
  have hzero : int32 0 = 0 := by decide
  simpa [hzero] using hspec

theorem doSendmsg_of_not_addressable (hfit : g.flatten.length < 2 ^ 32)
    (haddr : ¬ Addressable 0 g) : doSendmsg true g (msglen g) ws = .crashed := by
  rw [doSendmsg, if_pos rfl, msglen_eq hfit, (gather_block hfit).2 haddr]

/-- A group of 2 GiB or more is not written at all: `remain` is negative. -/
theorem doSendmsg_of_addressable (hfit : g.flatten.length < 2 ^ 32) (haddr : Addressable 0 g) :
    doSendmsg true g (msglen g) ws =
      if g.flatten.length < 2 ^ 31 then writeLoop ws g.flatten 0 []
      else .returned ⟨0, [], ws⟩ := by
  have hword : int32 g.flatten.length % 2 ^ 32 = g.flatten.length := by
    unfold int32
    omega
  rw [doSendmsg, if_pos rfl, msglen_eq hfit, (gather_block hfit).1 haddr]
  simp only [hword, ne_eq, not_true_eq_false, if_false]
  by_cases hlt : g.flatten.length < 2 ^ 31
  · have hoff : int32 g.flatten.length = g.flatten.length := int32_of_mem (by omega) (by omega)
    rw [if_pos hlt, hoff]
    split_ifs with hle
    · have hnil : g.flatten = [] := List.eq_nil_of_length_eq_zero (by omega)
      rw [hnil, writeLoop]
      rfl
    · rfl
  · have hneg : int32 g.flatten.length ≤ 0 := by
      unfold int32
      omega
    rw [if_neg hlt, if_pos hneg]

/-- What is counted and what is accepted so far, as `send` goes on to the next group. -/
theorem sendLoop_of_doSendmsg {r : Sent} {sentBytes : ℕ}
    (hr : doSendmsg (malloc i) g (msglen g) ws = .returned r) (hret : 0 ≤ r.ret) :
    sendLoop malloc i (g :: gs) ws sentBytes accepted =
      if r.ret.toNat % 2 ^ 32 < msglen g then
        .returned ⟨(sentBytes + r.ret.toNat : ℕ), accepted ++ r.accepted, r.rest⟩
      else sendLoop malloc (i + 1) gs r.rest (sentBytes + r.ret.toNat) (accepted ++ r.accepted) := by
  rw [sendLoop, hr]
  simp only
  rw [if_neg (not_lt.mpr hret)]

/-- One group: the count is that of the bytes accepted, all of the group or fewer. -/
theorem doSendmsg_of_whole (hfit : g.flatten.length < 2 ^ 32) (haddr : Addressable 0 g)
    (hin : g.flatten.length < 2 ^ 31 → failsInside false g.flatten.length ws = false) :
    doSendmsg true g (msglen g) ws ≠ .crashed ∧
    ∀ r, doSendmsg true g (msglen g) ws = .returned r → 0 ≤ r.ret →
      r.ret = r.accepted.length ∧
        (g.flatten.length < 2 ^ 31 ∧ written g.flatten.length ws = some r.rest ∧
            r.accepted = g.flatten ∨
          ∃ k < g.flatten.length, r.accepted = g.flatten.take k) := by
  rw [doSendmsg_of_addressable hfit haddr]
  split_ifs with hlt
  · refine ⟨writeLoop_ne_crashed, ?_⟩
    intro r hr hret
    cases hw : written g.flatten.length ws with
    | some rest =>
      rw [writeLoop_of_written hw, List.nil_append, Nat.zero_add] at hr
      cases hr
      exact ⟨rfl, .inl ⟨hlt, rfl, rfl⟩⟩
    | none =>
      have hnot : failsInside (decide (0 < 0)) g.flatten.length ws = false := hin hlt
      obtain ⟨k, hk, hcount, hacc⟩ := writeLoop_of_not_failsInside hnot hw hr hret
      rw [List.nil_append] at hacc
      refine ⟨?_, .inr ⟨k, hk, hacc⟩⟩
      rw [hcount, hacc, List.length_take, Nat.zero_add, Nat.min_eq_left (by omega)]
  · refine ⟨by simp, ?_⟩
    rintro r hr -
    cases hr
    exact ⟨rfl, .inr ⟨0, by omega, rfl⟩⟩

/-- In a list that stays whole the count is that of the bytes accepted, which are the first
ones. -/
theorem sendLoop_of_whole (hfit : ∀ g ∈ gs, g.flatten.length < 2 ^ 32)
    (h : Whole malloc i gs ws) :
    sendLoop malloc i gs ws accepted.length accepted ≠ .crashed ∧
    ∀ r, sendLoop malloc i gs ws accepted.length accepted = .returned r → 0 ≤ r.ret →
      r.ret = r.accepted.length ∧ r.accepted <+: accepted ++ gs.flatten.flatten := by
  induction gs generalizing i ws accepted with
  | nil =>
    refine ⟨by simp [sendLoop], ?_⟩
    rintro r hr -
    cases hr
    exact ⟨rfl, by simp⟩
  | cons g gs ih =>
    have hg := hfit g (by simp)
    cases hm : malloc i with
    | false =>
      refine ⟨by simp [sendLoop, doSendmsg, hm], ?_⟩
      intro r hr hret
      have hneg : r.ret = -1 := by
        simp only [sendLoop, doSendmsg, hm] at hr
        cases hr
        rfl
      omega
    | true =>
      obtain ⟨haddr, hsmall⟩ := h hm
      obtain ⟨hdef, hgroup⟩ := doSendmsg_of_whole hg haddr fun hlt => (hsmall hlt).1
      rw [← hm] at hdef hgroup
      cases hd : doSendmsg (malloc i) g (msglen g) ws with
      | crashed => exact absurd hd hdef
      | writing => simp [sendLoop, hd]
      | returned q =>
        by_cases hq : q.ret < 0
        · refine ⟨by simp [sendLoop, hd, hq], ?_⟩
          intro r hr hret
          have hneg : r.ret = q.ret := by
            simp only [sendLoop, hd, if_pos hq] at hr
            cases hr
            rfl
          omega
        · obtain ⟨hcount, hacc⟩ := hgroup q hd (by omega)
          have hnat : q.ret.toNat = q.accepted.length := by omega
          rw [sendLoop_of_doSendmsg hd (by omega), hnat, msglen_eq hg, ← List.length_append]
          rcases hacc with ⟨hlt, hw, hall⟩ | ⟨k, hk, hpart⟩
          · -- the whole group is accepted, and the loop goes on
            rw [hall, Nat.mod_eq_of_lt hg, if_neg (lt_irrefl _)]
            have hnext := @ih q.rest (i + 1) (accepted ++ g.flatten)
              (fun g' hg' => hfit g' (by simp [hg'])) ((hsmall hlt).2 _ hw)
            rw [List.append_assoc, ← List.flatten_append, ← List.flatten_cons] at hnext
            exact hnext
          · -- a short count ends the loop
            have hlen : q.accepted.length = k := by
              rw [hpart, List.length_take]
              omega
            rw [hlen, Nat.mod_eq_of_lt (by omega), if_pos hk]
            refine ⟨by simp, ?_⟩
            rintro r hr -
            cases hr
            refine ⟨rfl, ?_⟩
            rw [List.flatten_cons, List.flatten_append, hpart]
            exact (List.prefix_append_right_inj _).mpr
              ((List.take_prefix _ _).trans (List.prefix_append _ _))

/-- In a list that does not, the call crashes or returns a count that is not that of the bytes
accepted. -/
theorem sendLoop_of_not_whole (hfit : ∀ g ∈ gs, g.flatten.length < 2 ^ 32)
    (h : ¬ Whole malloc i gs ws) :
    sendLoop malloc i gs ws accepted.length accepted = .crashed ∨
    ∃ r, sendLoop malloc i gs ws accepted.length accepted = .returned r ∧ 0 ≤ r.ret ∧
      r.ret ≠ r.accepted.length := by
  induction gs generalizing i ws accepted with
  | nil => exact absurd trivial h
  | cons g gs ih =>
    have hg := hfit g (by simp)
    rw [Whole, Classical.not_imp] at h
    obtain ⟨hm, h⟩ := h
    by_cases haddr : Addressable 0 g
    · rw [not_and_or, or_iff_right (not_not.mpr haddr), Classical.not_imp] at h
      obtain ⟨hlt, h⟩ := h
      have hsend : doSendmsg (malloc i) g (msglen g) ws = writeLoop ws g.flatten 0 [] := by
        rw [hm, doSendmsg_of_addressable hg haddr, if_pos hlt]
      by_cases hin : failsInside (decide (0 < 0)) g.flatten.length ws = true
      · -- nothing is counted of what has been accepted of this group
        right
        obtain ⟨k, hk, hpos, rest, hloop⟩ := writeLoop_of_failsInside hin
        rw [hloop] at hsend
        rw [sendLoop_of_doSendmsg hsend le_rfl, Int.toNat_zero, Nat.zero_mod, msglen_eq hg,
          if_pos (by omega)]
        refine ⟨_, rfl, by simp, ?_⟩
        simp only [List.nil_append, List.length_append, List.length_take]
        omega
      · -- this group is written, so a later one is not whole
        obtain ⟨rest, hw, hrest⟩ : ∃ rest, written g.flatten.length ws = some rest ∧
            ¬ Whole malloc (i + 1) gs rest := by
          by_contra hall
          push Not at hall
          exact h ⟨eq_false_of_ne_true hin, hall⟩
        have hnext := @ih rest (i + 1) (accepted ++ g.flatten)
          (fun g' hg' => hfit g' (by simp [hg'])) hrest
        rw [writeLoop_of_written hw, List.nil_append, Nat.zero_add] at hsend
        rw [sendLoop_of_doSendmsg hsend (Int.natCast_nonneg _), Int.toNat_natCast, msglen_eq hg,
          Nat.mod_eq_of_lt hg, if_neg (lt_irrefl _), ← List.length_append]
        exact hnext
    · left
      have hcrash : doSendmsg (malloc i) g (msglen g) ws = .crashed := by
        rw [hm]
        exact doSendmsg_of_not_addressable hg haddr
      rw [sendLoop, hcrash]

/-- A count that is not short is one of a group that has been written. -/
theorem written_of_doSendmsg {r : Sent} (hfit : g.flatten.length < 2 ^ 32)
    (hr : doSendmsg (malloc i) g (msglen g) ws = .returned r) (hret : 0 ≤ r.ret)
    (hfull : ¬ r.ret.toNat % 2 ^ 32 < msglen g) : written g.flatten.length ws = some r.rest := by
  rw [msglen_eq hfit] at hfull
  cases hm : malloc i with
  | false =>
    rw [hm] at hr
    cases hr
    exact absurd hret (show ¬ (0 : ℤ) ≤ -1 by decide)
  | true =>
    rw [hm] at hr
    by_cases haddr : Addressable 0 g
    · rw [doSendmsg_of_addressable hfit haddr] at hr
      split_ifs at hr with hlt
      · cases hw : written g.flatten.length ws with
        | some rest =>
          rw [writeLoop_of_written hw] at hr
          cases hr
          rfl
        | none =>
          -- fewer bytes are counted than the group has
          exfalso
          by_cases hin : failsInside (decide (0 < 0)) g.flatten.length ws = true
          · obtain ⟨k, hk, -, rest, hloop⟩ := @writeLoop_of_failsInside _ _ [] _ hin
            rw [hloop] at hr
            cases hr
            rw [Int.toNat_zero, Nat.zero_mod] at hfull
            omega
          · obtain ⟨k, hk, hcount, -⟩ :=
              writeLoop_of_not_failsInside (eq_false_of_ne_true hin) hw hr hret
            rw [hcount, Int.toNat_natCast, Nat.zero_add, Nat.mod_eq_of_lt (by omega)] at hfull
            exact hfull hk
      · cases hr
        rw [Int.toNat_zero, Nat.zero_mod] at hfull
        omega
    · rw [doSendmsg_of_not_addressable hfit haddr] at hr
      cases hr

theorem lasting_of_doSendmsg (hfit : g.flatten.length < 2 ^ 32)
    (h : doSendmsg (malloc i) g (msglen g) ws = .writing) : lasting ws < g.flatten.length := by
  cases hm : malloc i with
  | false =>
    rw [hm] at h
    cases h
  | true =>
    rw [hm] at h
    by_cases haddr : Addressable 0 g
    · rw [doSendmsg_of_addressable hfit haddr] at h
      split_ifs at h with hlt
      exact lasting_of_writing h
    · rw [doSendmsg_of_not_addressable hfit haddr] at h
      cases h

theorem lasting_of_sendLoop (hfit : ∀ g ∈ gs, g.flatten.length < 2 ^ 32) {sentBytes : ℕ}
    (h : sendLoop malloc i gs ws sentBytes accepted = .writing) :
    lasting ws < gs.flatten.flatten.length := by
  induction gs generalizing i ws sentBytes accepted with
  | nil => cases h
  | cons g gs ih =>
    have hg := hfit g (by simp)
    rw [List.flatten_cons, List.flatten_append, List.length_append]
    cases hd : doSendmsg (malloc i) g (msglen g) ws with
    | crashed => simp [sendLoop, hd] at h
    | writing =>
      have hlt := lasting_of_doSendmsg hg hd
      omega
    | returned r =>
      by_cases hret : r.ret < 0
      · simp [sendLoop, hd, hret] at h
      · rw [sendLoop_of_doSendmsg hd (by omega)] at h
        split_ifs at h with hshort
        have hrest := ih (fun g' hg' => hfit g' (by simp [hg'])) h
        have hle := lasting_of_written (written_of_doSendmsg hg hd (by omega) hshort)
        omega

end Groups

/-! ## A call, and call after call -/

section Send

variable {env : Env} {sock : Socket} {bl : BufferList}

theorem flatten_groups {n : ℕ} {bs : List Bytes} (h : bs.length ≤ n) :
    (groups n bs).flatten = bs := by
  induction n generalizing bs with
  | zero =>
    rw [List.eq_nil_of_length_eq_zero (Nat.le_zero.mp h)]
    rfl
  | succ n ih =>
    cases bs with
    | nil => rfl
    | cons b bs =>
      have hrest : ((b :: bs).drop IOV_MAX).length ≤ n := by
        rw [List.length_drop, List.length_cons, IOV_MAX]
        rw [List.length_cons] at h
        omega
      rw [groups, List.flatten_cons, ih hrest, List.take_append_drop]

theorem bytes_trim (bl : BufferList) (n : ℕ) : (bl.trim n).bytes = bl.bytes.drop n := by
  unfold BufferList.trim
  split_ifs with hzero hlt
  · rw [hzero, List.drop_zero]
  · exact flatten_dropBytes n bl.buffers
  · rw [List.drop_eq_nil_of_le (by omega)]
    rfl

/-- The groups of the list, which are what it holds and fit where it does. -/
theorem groups_spec (bl : BufferList) :
    (groups bl.buffers.length bl.buffers).flatten.flatten = bl.bytes ∧
      ∀ g ∈ groups bl.buffers.length bl.buffers, g.flatten.length < 2 ^ 32 := by
  have hflat := flatten_groups (le_refl bl.buffers.length)
  refine ⟨by rw [hflat, BufferList.bytes], ?_⟩
  intro g hg
  have hsub : g.flatten.Sublist bl.buffers.flatten := by
    rw [← hflat]
    exact (List.sublist_flatten_of_mem hg).flatten
  exact hsub.length_le.trans_lt bl.fits

/-- What the caller relies on: the count is that of the bytes accepted, and these and what is
left in the list are what it held. -/
def Preserves (bl : BufferList) : Outcome SendResult → Prop
  | .returned r => 0 ≤ r.ret → r.ret = r.accepted.length ∧ r.accepted ++ r.bl.bytes = bl.bytes
  | .writing => True
  | .crashed => False

/-- Once the handshake is done the list stays whole. -/
def StaysWhole (env : Env) (sock : Socket) (bl : BufferList) : Prop :=
  (tryHandShaked env.sslAccept env.sslConnect sock).1 = 1 →
    Whole env.malloc 0 (groups bl.buffers.length bl.buffers) env.writes

theorem tryHandShaked_cases (sslAccept sslConnect : ℤ) (sock : Socket) :
    (tryHandShaked sslAccept sslConnect sock).1 = -1 ∨
      (tryHandShaked sslAccept sslConnect sock).1 = 0 ∨
      (tryHandShaked sslAccept sslConnect sock).1 = 1 := by
  unfold tryHandShaked
  split_ifs
  · simp
  · simp
  all_goals
    simp only
    split_ifs <;> simp

theorem preserves_send_iff (env : Env) (sock : Socket) (bl : BufferList) :
    Preserves bl (send env sock bl) ↔ StaysWhole env sock bl := by
  obtain ⟨hbytes, hfit⟩ := groups_spec bl
  rcases tryHandShaked_cases env.sslAccept env.sslConnect sock with htry | htry | htry
  · simp [send, StaysWhole, htry, Preserves]
  · simp [send, StaysWhole, htry, Preserves]
  · simp only [send, StaysWhole, htry, true_imp_iff]
    rw [if_neg (by decide), if_neg (by decide)]
    constructor
    · intro hp
      by_contra hnot
      rcases @sendLoop_of_not_whole _ _ _ _ [] hfit hnot with hcrash | ⟨r, hr, hret, hne⟩
      · rw [List.length_nil] at hcrash
        rw [hcrash] at hp
        exact hp
      · rw [List.length_nil] at hr
        simp only [hr, if_neg (not_lt.mpr hret)] at hp
        exact hne (hp hret).1
    · intro hwhole
      obtain ⟨hdef, hcount⟩ := @sendLoop_of_whole _ _ _ _ [] hfit hwhole
      rw [List.length_nil] at hdef hcount
      cases hloop : sendLoop env.malloc 0 (groups bl.buffers.length bl.buffers) env.writes 0 [] with
      | crashed => exact absurd hloop hdef
      | writing => trivial
      | returned r =>
        simp only
        split_ifs with hneg
        · intro hret
          exact absurd hneg (not_lt.mpr hret)
        · intro hret
          obtain ⟨hlen, hprefix⟩ := hcount r hloop hret
          rw [hbytes, List.nil_append] at hprefix
          obtain ⟨rest, hrest⟩ := hprefix
          refine ⟨hlen, ?_⟩
          show r.accepted ++ (bl.trim r.ret.toNat).bytes = bl.bytes
          rw [bytes_trim, hlen, Int.toNat_natCast, ← hrest, List.drop_left]

/-- `send` returns if there are as many results that are not interruptions as bytes. -/
theorem send_ne_writing (h : bl.bytes.length ≤ lasting env.writes) :
    send env sock bl ≠ .writing := by
  obtain ⟨hbytes, hfit⟩ := groups_spec bl
  intro hsend
  simp only [send] at hsend
  split_ifs at hsend
  split at hsend
  · cases hsend
  · rename_i hloop
    have hlt := lasting_of_sendLoop hfit hloop
    rw [hbytes] at hlt
    omega
  · split_ifs at hsend

/-- The sender: its socket, its list and what has been accepted over all calls. -/
structure Sender where
  sock : Socket
  bl : BufferList
  accepted : Bytes := []

/-- A call that returns a count; there is no next one after an error. -/
def sendStep (s : Sender) (env : Env) : Option Sender :=
  match send env s.sock s.bl with
  | .returned r =>
    if 0 ≤ r.ret then some { sock := r.sock, bl := r.bl, accepted := s.accepted ++ r.accepted }
    else none
  | _ => none

/-- **The byte stream.** A call of `send` that returns a count has passed on that many bytes,
the first of its list, and has left the others, exactly if no group is copied outside its block
and no write fails for good with `errno` zero after bytes of its group have been accepted. Over
calls that all keep to this, nothing is lost, repeated or reordered. -/
theorem send_preserves_iff (env : Env) (sock : Socket) (bl : BufferList) :
    (Preserves bl (send env sock bl) ↔ StaysWhole env sock bl) ∧
    ∀ s, Reach sendStep (fun s env => StaysWhole env s.sock s.bl) { sock := sock, bl := bl } s →
      s.accepted ++ s.bl.bytes = bl.bytes := by
  refine ⟨preserves_send_iff env sock bl, ?_⟩
  intro s h
  refine h.invariant (I := fun s => s.accepted ++ s.bl.bytes = bl.bytes) rfl ?_
  intro s env t hs hwhole hstep
  have hp := (preserves_send_iff env s.sock s.bl).mpr hwhole
  unfold sendStep at hstep
  cases hsend : send env s.sock s.bl with
  | crashed =>
    rw [hsend] at hp
    exact absurd hp id
  | writing => simp [hsend] at hstep
  | returned r =>
    rw [hsend] at hp
    simp only [hsend] at hstep
    split_ifs at hstep with hret
    cases hstep
    rw [← hs, ← (hp hret).2, List.append_assoc]

end Send

/-- Two bytes of three go out before the socket would block. -/
theorem send_preserves_blocked :
    let sock : Socket := { isServer := false, isHandShaked := true }
    let s : Sender := { sock := sock, bl := ⟨[[3]], by decide⟩, accepted := [1, 2] }
    Reach sendStep (fun s env => StaysWhole env s.sock s.bl)
        { sock := sock, bl := ⟨[[1, 2], [3]], by decide⟩ } s ∧
      s.accepted ++ s.bl.bytes = [1, 2, 3] := by
  intro sock s
  have hwhole : StaysWhole { writes := [.wrote 1, .failed EAGAIN (.other 5)] } sock
      ⟨[[1, 2], [3]], by decide⟩ := by
    intro _ _
    refine ⟨by simp [Addressable, IOV_MAX], fun _ => ⟨by decide, ?_⟩⟩
    intro ws' hw
    simp [IOV_MAX, written, EAGAIN, EINTR] at hw
  have hs : Reach sendStep (fun s env => StaysWhole env s.sock s.bl)
      { sock := sock, bl := ⟨[[1, 2], [3]], by decide⟩ } s := .tail .refl hwhole rfl
  exact ⟨hs, (send_preserves_iff {} sock _).2 s hs⟩

/-- After one byte has been accepted a write fails with `errno` zero: `send` returns 0, and the
next call sends that byte again. -/
theorem send_repeats_byte :
    let sock : Socket := { isServer := false, isHandShaked := true }
    let bl : BufferList := ⟨[[1, 2, 3]], by decide⟩
    let failing : Env := { writes := [.wrote 0, .failed 0 (.other 1)] }
    ¬ Preserves bl (send failing sock bl) ∧
      (run sendStep { sock := sock, bl := bl } [failing, { writes := [.wrote 2] }]).map
        (fun s => (s.accepted, s.bl.bytes)) = some ([1, 1, 2, 3], []) := by
  intro sock bl failing
  refine ⟨?_, by decide⟩
  intro h
  exact absurd (h (by decide)).1 (by decide)

end GcAdaptor.TlsSend
