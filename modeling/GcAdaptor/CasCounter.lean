/-
The **charge-first admission counter**: a shared 64-bit word that clients charge
with a compare-and-swap loop before they check it against a limit, and release
with another.

The getting side reads the limit, returns uncharged when it is zero (or when a
gate word is zero, for the counters that have one), adds its amount, and only
then waits for the word to come down to the limit. The putting side returns
early when the word is below the amount (or when the gate word is zero), and
otherwise subtracts. `Fn` says which of the optional tests a counter has; the
step functions take one load, one test or one compare-and-swap at a time.

`Move` is everything that may happen to one counter while the two sides agree on
who is charged: the limit and the gate may change their *values* at any time,
but between zero and non-zero only while nobody is between its get and the end
of its put. `move_inv` is the result: over such moves the word is exactly the
sum of the outstanding charges, so it never wraps and is zero when there are
none. `move_bounded` adds what a fixed limit gives: the word exceeds the limit by
at most one charge plus one per waiting client. `move_cleared` bounds the charges of
the clients that are past the wait by the limit and one charge.

Nothing here names a program; a model projects its state onto this one.
-/
import GcAdaptor.Cxx
import GcAdaptor.Interleave

set_option autoImplicit false

namespace GcAdaptor.CasCounter

open GcAdaptor.Cxx GcAdaptor.Interleave

/-! ## The two functions, one atomic access at a time -/

/-- Which tests the two functions of a counter make. -/
structure Fn where
  /-- Both sides read the gate word and return when it is zero. -/
  checksGate : Bool := false
  /-- A waiting client reads the limit again, and returns when it is zero. -/
  rereadsLimit : Bool := true
  /-- The putting side returns when the word is below the amount; without this
  test it returns when the limit is zero. -/
  checksCount : Bool := true
  /-- A gate comes with the test of the word. -/
  gate_count : checksGate = true → checksCount = true := by decide

/-- Where a client is inside its get. -/
inductive GetPc
  /-- reads the limit; returns when it is zero -/
  | start
  /-- reads the gate; returns when it is zero -/
  | gate (limit : ℕ)
  /-- `old = word` -/
  | load (limit : ℕ)
  /-- compare-and-swap of `old` to `old + amount` -/
  | cas (limit old : ℕ)
  /-- `while (old > limit)` -/
  | test (limit old : ℕ)
  /-- slept; `old = word` again -/
  | sleep (limit : ℕ)
  /-- reads the limit again -/
  | reread (old : ℕ)
  deriving DecidableEq

/-- Where a client is inside its put. -/
inductive PutPc
  /-- the early return -/
  | start
  /-- reads the gate; returns when it is zero -/
  | gate
  /-- `old = word` -/
  | load
  /-- compare-and-swap of `old` to `old - amount` -/
  | cas (old : ℕ)
  /-- the swap failed; the early return again -/
  | retry
  deriving DecidableEq

inductive GetNext
  | goto (pc : GetPc)
  | charge (pc : GetPc)
  | ret

inductive PutNext
  | goto (pc : PutPc)
  | release
  | ret

def getStep (f : Fn) (limit gate count : ℕ) : GetPc → GetNext
  | .start =>
    if limit = 0 then .ret
    else if f.checksGate then .goto (.gate limit) else .goto (.load limit)
  | .gate lim => if gate = 0 then .ret else .goto (.load lim)
  | .load lim => .goto (.cas lim count)
  -- the first test is on the word without the client's own charge
  | .cas lim old => if count = old then .charge (.test lim old) else .goto (.load lim)
  | .test lim old => if lim < old then .goto (.sleep lim) else .ret
  -- every later one is on the word with it
  | .sleep lim => if f.rereadsLimit then .goto (.reread count) else .goto (.test lim count)
  | .reread old => if limit = 0 then .ret else .goto (.test limit old)

def putStep (f : Fn) (limit gate count amount : ℕ) : PutPc → PutNext
  | .start =>
    if f.checksCount then
      if count < amount then .ret
      else if f.checksGate then .goto .gate else .goto .load
    else if limit = 0 then .ret else .goto .load
  | .gate => if gate = 0 then .ret else .goto .load
  -- a second load: the word need not be the one the early return tested
  | .load => .goto (.cas count)
  | .cas old =>
    if count = old then .release
    else if f.checksCount then .goto .retry else .goto .load
  | .retry => if count < amount then .ret else .goto .load

/-- Only the compare-and-swap charges. -/
theorem getStep_charge {f : Fn} {limit gate count : ℕ} {pc pc' : GetPc}
    (h : getStep f limit gate count pc = .charge pc') :
    ∃ lim, pc = .cas lim count ∧ pc' = .test lim count := by
  cases pc with
  | cas lim old =>
    simp only [getStep] at h
    split_ifs at h with hc
    subst hc
    exact ⟨lim, rfl, by simpa using h.symm⟩
  | load lim => simp [getStep] at h
  | _ =>
    simp only [getStep] at h
    split_ifs at h

/-! ## One counter and its clients -/

/-- Where a client is with respect to one counter. -/
inductive Stage
  | before
  | getting (pc : GetPc)
  | holding
  | putting (pc : PutPc)
  | after
  deriving DecidableEq

/-- A client: what it charges, where it is, and whether its charge is in the word. -/
structure Client where
  amount : ℕ
  stage : Stage
  charged : Bool

structure CState where
  limit : ℕ
  gate : ℕ
  count : ℕ
  clients : List Client

/-- One access of a getting client: the word and the client after it. -/
def Client.get (f : Fn) (s : CState) (c : Client) (pc : GetPc) : ℕ × Client :=
  match getStep f s.limit s.gate s.count pc with
  | .goto pc' => (s.count, { c with stage := .getting pc' })
  | .charge pc' => (add64 s.count c.amount, { c with stage := .getting pc', charged := true })
  | .ret => (s.count, { c with stage := .holding })

/-- One access of a putting client. -/
def Client.put (f : Fn) (s : CState) (c : Client) (pc : PutPc) : ℕ × Client :=
  match putStep f s.limit s.gate s.count c.amount pc with
  | .goto pc' => (s.count, { c with stage := .putting pc' })
  | .release => (sub64 s.count c.amount, { c with stage := .after, charged := false })
  | .ret => (s.count, { c with stage := .after })

/-- Clients that come by now are charged. -/
def Charging (f : Fn) (limit gate : ℕ) : Prop := limit ≠ 0 ∧ (f.checksGate = true → gate ≠ 0)

/-- The two settings agree on what is zero. -/
def SameGating (f : Fn) (limit gate limit' gate' : ℕ) : Prop :=
  (limit = 0 ↔ limit' = 0) ∧ (f.checksGate = true → (gate = 0 ↔ gate' = 0))

/-- Nobody is between its get and the end of its put. -/
def Quiet (clients : List Client) : Prop :=
  ∀ c ∈ clients, c.stage = .before ∨ c.stage = .after

/-- The get of a client would wrap the word. -/
def Overflows (f : Fn) (s : CState) (c : Client) (pc : GetPc) : Prop :=
  ∃ pc', getStep f s.limit s.gate s.count pc = .charge pc' ∧ 2 ^ 64 ≤ s.count + c.amount

/-- What may happen to one counter. -/
inductive Move (f : Fn) : CState → CState → Prop
  | env {s : CState} (limit gate : ℕ)
      (h : SameGating f s.limit s.gate limit gate ∨ Quiet s.clients) :
      Move f s { s with limit := limit, gate := gate }
  | join {s : CState} (c : Client)
      (h : c.stage = .before ∨ c.stage = .getting .start ∨ c.stage = .after)
      (hc : c.charged = false) : Move f s { s with clients := s.clients ++ [c] }
  | enter {s : CState} {i : ℕ} {c : Client} (hi : s.clients[i]? = some c)
      (h : c.stage = .before) :
      Move f s { s with clients := s.clients.set i { c with stage := .getting .start } }
  | get {s : CState} {i : ℕ} {c : Client} {pc : GetPc} (hi : s.clients[i]? = some c)
      (h : c.stage = .getting pc) (hfit : ¬ Overflows f s c pc) :
      Move f s { s with count := (c.get f s pc).1, clients := s.clients.set i (c.get f s pc).2 }
  | leave {s : CState} {i : ℕ} {c : Client} (hi : s.clients[i]? = some c)
      (h : c.stage = .holding) :
      Move f s { s with clients := s.clients.set i { c with stage := .putting .start } }
  | put {s : CState} {i : ℕ} {c : Client} {pc : PutPc} (hi : s.clients[i]? = some c)
      (h : c.stage = .putting pc) :
      Move f s { s with count := (c.put f s pc).1, clients := s.clients.set i (c.put f s pc).2 }

/-! ## The invariant -/

/-- The part of the word a client accounts for. -/
def outstanding (c : Client) : ℕ := if c.charged then c.amount else 0

/-- A client's charge is in the word exactly where its stage says so. -/
def Client.Ok (f : Fn) (limit gate : ℕ) (c : Client) : Prop :=
  match c.stage with
  | .before | .after | .getting .start => c.charged = false
  | .getting (.gate _) => c.charged = false ∧ limit ≠ 0 ∧ f.checksGate = true
  | .getting (.load _) | .getting (.cas _ _) => c.charged = false ∧ Charging f limit gate
  | .getting (.test _ _) | .getting (.sleep _) | .getting (.reread _) =>
    c.charged = true ∧ Charging f limit gate
  | .holding | .putting .start => c.charged = true ↔ Charging f limit gate
  | .putting .gate =>
    (c.charged = true ↔ Charging f limit gate) ∧ (c.charged = true ∨ c.amount = 0) ∧
      f.checksGate = true
  | .putting .load | .putting (.cas _) | .putting .retry =>
    (c.charged = true ↔ Charging f limit gate) ∧ (c.charged = true ∨ c.amount = 0)

/-- **The counter invariant.** The word is the sum of the outstanding charges. -/
structure Inv (f : Fn) (s : CState) : Prop where
  count_eq : s.count = total outstanding s.clients
  count_lt : s.count < 2 ^ 64
  ok : ∀ c ∈ s.clients, c.Ok f s.limit s.gate

theorem Charging.congr {f : Fn} {l g l' g' : ℕ} (h : SameGating f l g l' g') :
    Charging f l g ↔ Charging f l' g' := by
  unfold Charging
  constructor
  · rintro ⟨h₁, h₂⟩
    exact ⟨fun hz => h₁ (h.1.mpr hz), fun hf hz => h₂ hf ((h.2 hf).mpr hz)⟩
  · rintro ⟨h₁, h₂⟩
    exact ⟨fun hz => h₁ (h.1.mp hz), fun hf hz => h₂ hf ((h.2 hf).mp hz)⟩

/-- A charged client is one that a get just now would charge. -/
theorem Client.Ok.charging {f : Fn} {limit gate : ℕ} {c : Client} (h : c.Ok f limit gate)
    (hc : c.charged = true) : Charging f limit gate := by
  unfold Client.Ok at h
  split at h <;> simp_all

theorem Client.Ok.sameGating {f : Fn} {l g l' g' : ℕ} {c : Client} (h : c.Ok f l g)
    (hs : SameGating f l g l' g') : c.Ok f l' g' := by
  have hl : (l' ≠ 0) = (l ≠ 0) := propext (not_congr hs.1.symm)
  unfold Client.Ok at h ⊢
  rw [← Charging.congr hs, hl]
  exact h

theorem Client.Ok.quiet {f : Fn} {l g : ℕ} {c : Client} (h : c.Ok f l g)
    (hq : c.stage = .before ∨ c.stage = .after) (l' g' : ℕ) : c.Ok f l' g' := by
  unfold Client.Ok at h ⊢
  rcases hq with hq | hq <;> simp_all

section Invariant

variable {f : Fn} {s t : CState} {i : ℕ} {c : Client}

theorem Inv.amount_le (h : Inv f s) (hc : c ∈ s.clients) (hcharged : c.charged = true) :
    c.amount ≤ s.count := by
  rw [h.count_eq]
  have := le_total (f := outstanding) hc
  simpa [outstanding, hcharged] using this

/-- While nobody is to be charged, nobody is. -/
theorem Inv.count_eq_zero (h : Inv f s) (hn : ¬ Charging f s.limit s.gate) : s.count = 0 := by
  rw [h.count_eq]
  apply total_eq_zero
  intro c hc
  cases hb : c.charged with
  | false => simp [outstanding, hb]
  | true => exact absurd ((h.ok c hc).charging hb) hn

/-- A put past its early return never subtracts more than there is. -/
theorem Inv.put_amount_le (h : Inv f s) (hc : c ∈ s.clients) {pc : PutPc}
    (hs : c.stage = .putting pc) (hpc : pc ≠ .start) : c.amount ≤ s.count := by
  have hok := h.ok c hc
  unfold Client.Ok at hok
  rw [hs] at hok
  have hor : c.charged = true ∨ c.amount = 0 := by
    cases pc with
    | start => exact absurd rfl hpc
    | gate => exact hok.2.1
    | load => exact hok.2
    | cas old => exact hok.2
    | retry => exact hok.2
  rcases hor with hor | hor
  · exact h.amount_le hc hor
  · omega

/-- Replacing one client by one that accounts for the same part of the word. -/
theorem Inv.set_same {c' : Client} (h : Inv f s) (hi : s.clients[i]? = some c)
    (hsame : outstanding c' = outstanding c) (hok : c'.Ok f s.limit s.gate) :
    Inv f { s with clients := s.clients.set i c' } where
  count_eq := by
    rw [total_set_eq hi hsame]
    exact h.count_eq
  count_lt := h.count_lt
  ok := forall_mem_set h.ok hok

/-- Replacing one client together with the word. -/
theorem Inv.set_count {c' : Client} {count : ℕ} (h : Inv f s) (hi : s.clients[i]? = some c)
    (hcount : count + outstanding c = s.count + outstanding c') (hlt : count < 2 ^ 64)
    (hok : c'.Ok f s.limit s.gate) :
    Inv f { s with count := count, clients := s.clients.set i c' } where
  count_eq := by
    have := total_set (f := outstanding) (y := c') hi
    have := h.count_eq
    show count = total outstanding (s.clients.set i c')
    omega
  count_lt := hlt
  ok := forall_mem_set h.ok hok

theorem Client.get_of_goto {pc p : GetPc}
    (h : getStep f s.limit s.gate s.count pc = .goto p) :
    c.get f s pc = (s.count, { c with stage := .getting p }) := by
  simp [Client.get, h]

theorem Client.get_of_ret {pc : GetPc} (h : getStep f s.limit s.gate s.count pc = .ret) :
    c.get f s pc = (s.count, { c with stage := .holding }) := by
  simp [Client.get, h]

theorem Client.get_of_charge {pc p : GetPc}
    (h : getStep f s.limit s.gate s.count pc = .charge p) :
    c.get f s pc =
      (add64 s.count c.amount, { c with stage := .getting p, charged := true }) := by
  simp [Client.get, h]

theorem Client.put_of_goto {pc p : PutPc}
    (h : putStep f s.limit s.gate s.count c.amount pc = .goto p) :
    c.put f s pc = (s.count, { c with stage := .putting p }) := by
  simp [Client.put, h]

theorem Client.put_of_ret {pc : PutPc}
    (h : putStep f s.limit s.gate s.count c.amount pc = .ret) :
    c.put f s pc = (s.count, { c with stage := .after }) := by
  simp [Client.put, h]

theorem Client.put_of_release {pc : PutPc}
    (h : putStep f s.limit s.gate s.count c.amount pc = .release) :
    c.put f s pc =
      (sub64 s.count c.amount, { c with stage := .after, charged := false }) := by
  simp [Client.put, h]

/-- One access of a getting client keeps the invariant. -/
theorem Inv.get {pc : GetPc} (h : Inv f s) (hi : s.clients[i]? = some c)
    (hs : c.stage = .getting pc) (hfit : ¬ Overflows f s c pc) :
    Inv f { s with count := (c.get f s pc).1, clients := s.clients.set i (c.get f s pc).2 } := by
  have hok := h.ok c (List.mem_of_getElem? hi)
  unfold Client.Ok at hok
  rw [hs] at hok
  cases pc with
  | start =>
    by_cases hl : s.limit = 0
    · rw [Client.get_of_ret (by simp [getStep, hl])]
      refine h.set_same hi rfl ?_
      simp [Client.Ok, hok, Charging, hl]
    · by_cases hg : f.checksGate = true
      · rw [Client.get_of_goto (p := .gate s.limit) (by simp [getStep, hl, hg])]
        exact h.set_same hi rfl ⟨hok, hl, hg⟩
      · rw [Client.get_of_goto (p := .load s.limit) (by simp [getStep, hl, hg])]
        exact h.set_same hi rfl ⟨hok, hl, fun hg' => absurd hg' hg⟩
  | gate lim =>
    by_cases hg : s.gate = 0
    · -- returns uncharged, and a client with this gate is not to be charged
      rw [Client.get_of_ret (by simp [getStep, hg])]
      refine h.set_same hi rfl (iff_of_false (by simp [hok.1]) fun hch => ?_)
      exact hch.2 hok.2.2 hg
    · rw [Client.get_of_goto (p := .load lim) (by simp [getStep, hg])]
      exact h.set_same hi rfl ⟨hok.1, hok.2.1, fun _ => hg⟩
  | load lim => exact h.set_same hi rfl hok
  | cas lim old =>
    by_cases hc : s.count = old
    · -- the only access that moves the word: it grows by what the client now accounts for
      have hnext : getStep f s.limit s.gate s.count (.cas lim old) = .charge (.test lim old) := by
        simp [getStep, hc]
      have hlt : s.count + c.amount < 2 ^ 64 := by
        by_contra hge
        exact hfit ⟨_, hnext, by omega⟩
      rw [Client.get_of_charge hnext, add64_of_lt hlt]
      refine h.set_count hi ?_ hlt ⟨rfl, hok.2⟩
      simp [outstanding, hok.1]
    · rw [Client.get_of_goto (p := .load lim) (by simp [getStep, hc])]
      exact h.set_same hi rfl hok
  | test lim old =>
    by_cases hlt : lim < old
    · rw [Client.get_of_goto (p := .sleep lim) (by simp [getStep, hlt])]
      exact h.set_same hi rfl hok
    · rw [Client.get_of_ret (by simp [getStep, hlt])]
      exact h.set_same hi rfl (iff_of_true hok.1 hok.2)
  | sleep lim =>
    by_cases hr : f.rereadsLimit = true
    · rw [Client.get_of_goto (p := .reread s.count) (by simp [getStep, hr])]
      exact h.set_same hi rfl hok
    · rw [Client.get_of_goto (p := .test lim s.count) (by simp [getStep, hr])]
      exact h.set_same hi rfl hok
  | reread old =>
    -- a charged client never sees a zero limit: zero and non-zero did not change under it
    rw [Client.get_of_goto (p := .test s.limit old) (by simp [getStep, hok.2.1])]
    exact h.set_same hi rfl hok

/-- A client that returns early from its put was not charged. -/
theorem Inv.put_ret (h : Inv f s) (hi : s.clients[i]? = some c) (hc : c.charged ≠ true) :
    Inv f { s with count := s.count, clients := s.clients.set i { c with stage := .after } } :=
  h.set_same hi rfl (Bool.eq_false_of_not_eq_true hc)

/-- Past the early return a client is charged, or has nothing to subtract: an
uncharged one has found the word at zero. -/
theorem Inv.charged_or_zero (h : Inv f s) (hok : c.charged = true ↔ Charging f s.limit s.gate)
    (hle : c.amount ≤ s.count) : c.charged = true ∨ c.amount = 0 := by
  by_cases hc : Charging f s.limit s.gate
  · exact .inl (hok.mpr hc)
  · have := h.count_eq_zero hc
    exact .inr (by omega)

/-- One access of a putting client keeps the invariant. -/
theorem Inv.put {pc : PutPc} (h : Inv f s) (hi : s.clients[i]? = some c)
    (hs : c.stage = .putting pc) :
    Inv f { s with count := (c.put f s pc).1, clients := s.clients.set i (c.put f s pc).2 } := by
  have hmem := List.mem_of_getElem? hi
  have hok := h.ok c hmem
  unfold Client.Ok at hok
  rw [hs] at hok
  cases pc with
  | start =>
    by_cases hcc : f.checksCount = true
    · by_cases hlt : s.count < c.amount
      · -- the word holds every outstanding charge, so this client's is not one of them
        rw [Client.put_of_ret (by simp [putStep, hcc, hlt])]
        apply h.put_ret hi
        intro hc
        have := h.amount_le hmem hc
        omega
      · have hor := h.charged_or_zero hok (by omega)
        by_cases hg : f.checksGate = true
        · rw [Client.put_of_goto (p := .gate) (by simp [putStep, hcc, hlt, hg])]
          exact h.set_same hi rfl ⟨hok, hor, hg⟩
        · rw [Client.put_of_goto (p := .load) (by simp [putStep, hcc, hlt, hg])]
          exact h.set_same hi rfl ⟨hok, hor⟩
    · have hg : ¬ f.checksGate = true := fun hg => hcc (f.gate_count hg)
      by_cases hl : s.limit = 0
      · rw [Client.put_of_ret (by simp [putStep, hcc, hl])]
        exact h.put_ret hi fun hc => (hok.mp hc).1 hl
      · rw [Client.put_of_goto (p := .load) (by simp [putStep, hcc, hl])]
        exact h.set_same hi rfl ⟨hok, .inl (hok.mpr ⟨hl, fun hg' => absurd hg' hg⟩)⟩
  | gate =>
    by_cases hg : s.gate = 0
    · rw [Client.put_of_ret (by simp [putStep, hg])]
      exact h.put_ret hi fun hc => (hok.1.mp hc).2 hok.2.2 hg
    · rw [Client.put_of_goto (p := .load) (by simp [putStep, hg])]
      exact h.set_same hi rfl ⟨hok.1, hok.2.1⟩
  | load =>
    rw [Client.put_of_goto (p := .cas s.count) rfl]
    exact h.set_same hi rfl hok
  | cas old =>
    by_cases hc : s.count = old
    · -- no wrap: what is subtracted is in the word
      have hle := h.put_amount_le hmem hs (by simp)
      rw [Client.put_of_release (by simp [putStep, hc]), sub64_of_le h.count_lt hle]
      have hlt := h.count_lt
      refine h.set_count hi ?_ (by omega) rfl
      rcases hok.2 with hch | hz
      · simp only [outstanding, hch, if_true]
        show s.count - c.amount + c.amount = s.count + 0
        omega
      · simp [outstanding, hz]
    · by_cases hcc : f.checksCount = true
      · rw [Client.put_of_goto (p := .retry) (by simp [putStep, hc, hcc])]
        exact h.set_same hi rfl hok
      · rw [Client.put_of_goto (p := .load) (by simp [putStep, hc, hcc])]
        exact h.set_same hi rfl hok
  | retry =>
    -- the word is still at least the client's own charge, so this return is never taken
    have hle := h.put_amount_le hmem hs (by simp)
    rw [Client.put_of_goto (p := .load) (by simp [putStep]; omega)]
    exact h.set_same hi rfl hok

/-- **The counter invariant survives every move.** -/
theorem move_inv (h : Inv f s) (hm : Move f s t) : Inv f t := by
  cases hm with
  | env limit gate henv =>
    refine ⟨h.count_eq, h.count_lt, fun c hc => ?_⟩
    rcases henv with hsame | hquiet
    · exact (h.ok c hc).sameGating hsame
    · exact (h.ok c hc).quiet (hquiet c hc) _ _
  | join c hst hc =>
    have hok : c.Ok f s.limit s.gate := by
      unfold Client.Ok
      rcases hst with hst | hst | hst <;> rw [hst] <;> exact hc
    refine ⟨?_, h.count_lt, ?_⟩
    · simp [h.count_eq, outstanding, hc]
    · simpa [or_imp, forall_and, hok] using h.ok
  | enter hi hst =>
    have hok := h.ok _ (List.mem_of_getElem? hi)
    unfold Client.Ok at hok
    rw [hst] at hok
    exact h.set_same hi rfl hok
  | get hi hst hfit => exact h.get hi hst hfit
  | leave hi hst =>
    have hok := h.ok _ (List.mem_of_getElem? hi)
    unfold Client.Ok at hok
    rw [hst] at hok
    exact h.set_same hi rfl hok
  | put hi hst => exact h.put hi hst

/-- With nobody between its get and the end of its put, the word is zero. -/
theorem Inv.count_eq_zero_of_quiet (h : Inv f s) (hq : Quiet s.clients) : s.count = 0 := by
  rw [h.count_eq]
  apply total_eq_zero
  intro c hc
  have hok := h.ok c hc
  unfold Client.Ok at hok
  rcases hq c hc with hs | hs <;> rw [hs] at hok <;> simp [outstanding, hok]

end Invariant

/-! ## A fixed limit

While the limit stands at `T`, a client that leaves the loop has seen the word at
most at `T`. What the word is above `T + M` therefore belongs to the clients that
have charged it and still wait. -/

section Bound

variable {f : Fn} {s t : CState} {i T M : ℕ} {c : Client}

/-- The client has charged, has seen the word above `T`, and is not out yet. -/
def waits (T : ℕ) (c : Client) : ℕ :=
  match c.stage with
  | .getting (.test _ old) | .getting (.reread old) => if T < old then 1 else 0
  | .getting (.sleep _) => 1
  | _ => 0

/-- The limit the client has read, where it still uses it. -/
def Client.LimitIs (T : ℕ) (c : Client) : Prop :=
  match c.stage with
  | .getting (.gate lim) | .getting (.load lim) | .getting (.cas lim _)
  | .getting (.test lim _) | .getting (.sleep lim) => lim = T
  | _ => True

/-- **The bound.** -/
structure Bounded (T M : ℕ) (s : CState) : Prop where
  limit_eq : s.limit = T
  limitIs : ∀ c ∈ s.clients, c.LimitIs T
  amount_le : ∀ c ∈ s.clients, c.amount ≤ M
  count_le : s.count ≤ T + M + M * total (waits T) s.clients

/-- Replacing one client: the word may only grow by `M` for each new waiter, or
be within `T + M` anyway. -/
theorem Bounded.set {c' : Client} {count : ℕ} (h : Bounded T M s)
    (hi : s.clients[i]? = some c) (hlim : c'.LimitIs T) (hamount : c'.amount = c.amount)
    (hcount : count ≤ T + M ∨ count + M * waits T c ≤ s.count + M * waits T c') :
    Bounded T M { s with count := count, clients := s.clients.set i c' } where
  limit_eq := h.limit_eq
  limitIs := forall_mem_set h.limitIs hlim
  amount_le := forall_mem_set h.amount_le (hamount ▸ h.amount_le c (List.mem_of_getElem? hi))
  count_le := by
    show count ≤ T + M + M * total (waits T) (s.clients.set i c')
    rcases hcount with hle | hle
    · omega
    · have hset := total_set (f := waits T) (y := c') hi
      have hmul : M * total (waits T) (s.clients.set i c') + M * waits T c =
          M * total (waits T) s.clients + M * waits T c' := by
        rw [← Nat.mul_add, ← Nat.mul_add, hset]
      have := h.count_le
      omega

/-- A move that touches neither the word nor the number of waiters. -/
theorem Bounded.set_same {st : Stage} (h : Bounded T M s) (hi : s.clients[i]? = some c)
    (hlim : ({ c with stage := st } : Client).LimitIs T)
    (hw : waits T { c with stage := st } = waits T c) :
    Bounded T M { s with count := s.count, clients := s.clients.set i { c with stage := st } } :=
  h.set hi hlim rfl (.inr (by rw [hw]))

theorem Bounded.get {pc : GetPc} (h : Bounded T M s) (hT : T ≠ 0)
    (hi : s.clients[i]? = some c) (hs : c.stage = .getting pc) (hfit : ¬ Overflows f s c pc) :
    Bounded T M
      { s with count := (c.get f s pc).1, clients := s.clients.set i (c.get f s pc).2 } := by
  have hmem := List.mem_of_getElem? hi
  have hl := h.limitIs c hmem
  have hlimit : s.limit ≠ 0 := h.limit_eq ▸ hT
  unfold Client.LimitIs at hl
  rw [hs] at hl
  cases pc with
  | start =>
    by_cases hg : f.checksGate = true
    · rw [Client.get_of_goto (p := .gate s.limit) (by simp [getStep, hlimit, hg])]
      exact h.set_same hi h.limit_eq (by simp [waits, hs])
    · rw [Client.get_of_goto (p := .load s.limit) (by simp [getStep, hlimit, hg])]
      exact h.set_same hi h.limit_eq (by simp [waits, hs])
  | gate lim =>
    by_cases hg : s.gate = 0
    · rw [Client.get_of_ret (by simp [getStep, hg])]
      exact h.set_same hi trivial (by simp [waits, hs])
    · rw [Client.get_of_goto (p := .load lim) (by simp [getStep, hg])]
      exact h.set_same hi hl (by simp [waits, hs])
  | load lim =>
    rw [Client.get_of_goto (p := .cas lim s.count) rfl]
    exact h.set_same hi hl (by simp [waits, hs])
  | cas lim old =>
    by_cases hc : s.count = old
    · have hnext : getStep f s.limit s.gate s.count (.cas lim old) = .charge (.test lim old) := by
        simp [getStep, hc]
      have hlt : s.count + c.amount < 2 ^ 64 := by
        by_contra hge
        exact hfit ⟨_, hnext, by omega⟩
      rw [Client.get_of_charge hnext, add64_of_lt hlt]
      have hM := h.amount_le c hmem
      refine h.set hi hl rfl ?_
      -- a client that charges a word at most at `T` does not wait; above it, it does
      by_cases hle : old ≤ T
      · exact .inl (by omega)
      · refine .inr ?_
        simp only [waits, hs, if_pos (not_le.mp hle)]
        omega
    · rw [Client.get_of_goto (p := .load lim) (by simp [getStep, hc])]
      exact h.set_same hi hl (by simp [waits, hs])
  | test lim old =>
    by_cases hlt : lim < old
    · rw [Client.get_of_goto (p := .sleep lim) (by simp [getStep, hlt])]
      exact h.set_same hi hl (by simp [waits, hs, ← hl, hlt])
    · rw [Client.get_of_ret (by simp [getStep, hlt])]
      exact h.set_same hi trivial (by simp [waits, hs, ← hl, hlt])
  | sleep lim =>
    -- one waiter less only if the word it reads is at most `T`
    have hcount : s.count ≤ T + M ∨
        s.count + M * 1 ≤ s.count + M * (if T < s.count then 1 else 0) := by
      by_cases hlt : T < s.count
      · exact .inr (by simp [hlt])
      · exact .inl (by omega)
    by_cases hr : f.rereadsLimit = true
    · rw [Client.get_of_goto (p := .reread s.count) (by simp [getStep, hr])]
      exact h.set hi trivial rfl (by simpa only [waits, hs] using hcount)
    · rw [Client.get_of_goto (p := .test lim s.count) (by simp [getStep, hr])]
      exact h.set hi hl rfl (by simpa only [waits, hs] using hcount)
  | reread old =>
    rw [Client.get_of_goto (p := .test s.limit old) (by simp [getStep, hlimit])]
    exact h.set_same hi h.limit_eq (by simp [waits, hs])

theorem Bounded.put {pc : PutPc} (h : Bounded T M s) (hinv : Inv f s)
    (hi : s.clients[i]? = some c) (hs : c.stage = .putting pc) :
    Bounded T M
      { s with count := (c.put f s pc).1, clients := s.clients.set i (c.put f s pc).2 } := by
  have hw : waits T c = 0 := by simp [waits, hs]
  cases hn : putStep f s.limit s.gate s.count c.amount pc with
  | goto pc' =>
    rw [Client.put_of_goto hn]
    exact h.set_same hi trivial (by simp [waits, hs])
  | ret =>
    rw [Client.put_of_ret hn]
    exact h.set_same hi trivial (by simp [waits, hs])
  | release =>
    -- a put that subtracts is past its early return
    have hpc : pc ≠ .start := by
      rintro rfl
      simp only [putStep] at hn
      split_ifs at hn
    have hle := hinv.put_amount_le (List.mem_of_getElem? hi) hs hpc
    rw [Client.put_of_release hn, sub64_of_le hinv.count_lt hle]
    exact h.set hi trivial rfl (.inr (by rw [hw]; omega))

/-- **The bound survives every move** that leaves the limit and keeps the charges
small. -/
theorem move_bounded (h : Bounded T M s) (hinv : Inv f s) (hT : T ≠ 0) (hm : Move f s t)
    (hlimit : t.limit = T) (hamount : ∀ c ∈ t.clients, c.amount ≤ M) : Bounded T M t := by
  cases hm with
  | env limit gate _ => exact ⟨hlimit, h.limitIs, hamount, h.count_le⟩
  | join c hst _ =>
    have hw : waits T c = 0 := by
      rcases hst with hst | hst | hst <;> simp [waits, hst]
    have hl : c.LimitIs T := by
      unfold Client.LimitIs
      rcases hst with hst | hst | hst <;> simp [hst]
    refine ⟨hlimit, ?_, hamount, ?_⟩
    · simpa [or_imp, forall_and, hl] using h.limitIs
    · simpa [hw] using h.count_le
  | enter hi hst => exact h.set_same hi trivial (by simp [waits, hst])
  | get hi hst hfit => exact h.get hT hi hst hfit
  | leave hi hst => exact h.set_same hi trivial (by simp [waits, hst])
  | put hi hst => exact h.put hinv hi hst

end Bound

/-! ## Who is past the wait

A client decides on the word it saw last, and the word may have grown since. What bounds the
charges of all clients that have decided is the word at the last such decision: it held each
of them, and the one that decides. -/

section Cleared

variable {f : Fn} {s t : CState} {i T M : ℕ} {c c' : Client}

/-- What a client accounts for once it has seen the word at most at `T`. -/
def cleared (T : ℕ) (c : Client) : ℕ := if waits T c = 0 then outstanding c else 0

theorem cleared_le_outstanding (T : ℕ) (c : Client) : cleared T c ≤ outstanding c := by
  unfold cleared
  split_ifs
  · exact le_rfl
  · exact Nat.zero_le _

theorem cleared_le_amount (T : ℕ) (c : Client) : cleared T c ≤ c.amount := by
  refine (cleared_le_outstanding T c).trans ?_
  unfold outstanding
  split_ifs
  · exact le_rfl
  · exact Nat.zero_le _

theorem Client.get_amount {pc : GetPc} : (c.get f s pc).2.amount = c.amount := by
  unfold Client.get
  split <;> rfl

theorem total_cleared_le_count (h : Inv f s) (T : ℕ) : total (cleared T) s.clients ≤ s.count := by
  rw [h.count_eq]
  exact total_le_total fun c _ => cleared_le_outstanding T c

/-- A client that does not wait and does not charge. -/
theorem cleared_le (hw : waits T c = 0) (ho : outstanding c' ≤ outstanding c) :
    cleared T c' ≤ cleared T c := by
  calc cleared T c' ≤ outstanding c' := cleared_le_outstanding T c'
    _ ≤ outstanding c := ho
    _ = cleared T c := by rw [cleared, if_pos hw]

theorem cleared_congr (hw : waits T c' = waits T c) (ho : outstanding c' = outstanding c) :
    cleared T c' ≤ cleared T c := by
  rw [cleared, cleared, hw, ho]

/-- **One access of a getting client.** It is cleared by the charge of a word at most at `T`,
or by a look at such a word later. -/
theorem cleared_get {pc : GetPc} (hb : Bounded T M s) (hT : T ≠ 0) (hmem : c ∈ s.clients)
    (hs : c.stage = .getting pc) :
    cleared T (c.get f s pc).2 ≤ cleared T c ∨ s.count ≤ T := by
  have hl := hb.limitIs c hmem
  unfold Client.LimitIs at hl
  rw [hs] at hl
  cases pc with
  | start | gate | load =>
    refine .inl (cleared_le (by simp [waits, hs]) ?_)
    cases hn : getStep f s.limit s.gate s.count _ with
    | goto p => rw [Client.get_of_goto hn]; rfl
    | ret => rw [Client.get_of_ret hn]; rfl
    | charge p =>
      obtain ⟨lim, hpc, -⟩ := getStep_charge hn
      simp at hpc
  | cas lim old =>
    -- only the exchange that succeeds can clear the client
    by_cases hc : s.count = old
    · by_cases hle : old ≤ T
      · exact .inr (by omega)
      · -- the word is above the limit: the client is charged and waits
        rw [Client.get_of_charge (p := .test lim old) (by simp [getStep, hc])]
        refine .inl ?_
        simp only [cleared, waits, if_pos (not_le.mp hle)]
        exact Nat.zero_le _
    · rw [Client.get_of_goto (p := .load lim) (by simp [getStep, hc])]
      exact .inl (cleared_congr (by simp [waits, hs]) rfl)
  | test lim old =>
    by_cases hlt : lim < old
    · rw [Client.get_of_goto (p := .sleep lim) (by simp [getStep, hlt])]
      exact .inl (cleared_congr (by simp [waits, hs, ← hl, hlt]) rfl)
    · rw [Client.get_of_ret (by simp [getStep, hlt])]
      exact .inl (cleared_congr (by simp [waits, hs, ← hl, hlt]) rfl)
  | sleep lim =>
    -- awake, the client looks at the word again
    by_cases hlt : T < s.count
    · refine .inl ?_
      by_cases hr : f.rereadsLimit = true
      · rw [Client.get_of_goto (p := .reread s.count) (by simp [getStep, hr])]
        exact cleared_congr (by simp [waits, hs, hlt]) rfl
      · rw [Client.get_of_goto (p := .test lim s.count) (by simp [getStep, hr])]
        exact cleared_congr (by simp [waits, hs, hlt]) rfl
    · exact .inr (not_lt.mp hlt)
  | reread old =>
    have hlimit : s.limit ≠ 0 := hb.limit_eq ▸ hT
    rw [Client.get_of_goto (p := .test s.limit old) (by simp [getStep, hlimit])]
    exact .inl (cleared_congr (by simp [waits, hs]) rfl)

theorem total_cleared_set (hi : s.clients[i]? = some c) (hle : cleared T c' ≤ cleared T c) :
    total (cleared T) (s.clients.set i c') ≤ total (cleared T) s.clients := by
  have := total_set (f := cleared T) (y := c') hi
  omega

/-- **The charges past the wait stay within the limit and one charge more.** -/
theorem move_cleared (h : total (cleared T) s.clients ≤ T + M) (hb : Bounded T M s)
    (hinv : Inv f s) (hT : T ≠ 0) (hm : Move f s t) : total (cleared T) t.clients ≤ T + M := by
  cases hm with
  | env => exact h
  | join c hst hc =>
    have hzero : cleared T c = 0 := by
      have := cleared_le_outstanding T c
      simpa [outstanding, hc] using this
    simpa [hzero] using h
  | enter hi hst =>
    refine (total_cleared_set hi ?_).trans h
    exact cleared_congr (by simp [waits, hst]) rfl
  | leave hi hst =>
    refine (total_cleared_set hi ?_).trans h
    exact cleared_congr (by simp [waits, hst]) rfl
  | @get i c pc hi hst hfit =>
    have hmem := List.mem_of_getElem? hi
    rcases cleared_get (f := f) hb hT hmem hst with hle | hword
    · exact (total_cleared_set hi hle).trans h
    · -- the word holds all that was cleared before, and the client adds at most its amount
      have hbefore := total_cleared_le_count hinv T
      have hset := total_set (f := cleared T) (y := (c.get f s pc).2) hi
      have hown : cleared T (c.get f s pc).2 ≤ M := by
        have hle := cleared_le_amount T (c.get f s pc).2
        rw [Client.get_amount] at hle
        exact hle.trans (hb.amount_le c hmem)
      show total (cleared T) (s.clients.set i (c.get f s pc).2) ≤ T + M
      omega
  | @put i c pc hi hst =>
    refine (total_cleared_set hi ?_).trans h
    apply cleared_le
    · simp [waits, hst]
    cases hn : putStep f s.limit s.gate s.count c.amount pc with
    | goto p => rw [Client.put_of_goto hn]; rfl
    | ret => rw [Client.put_of_ret hn]; rfl
    | release =>
      rw [Client.put_of_release hn]
      simp [outstanding]

end Cleared

end GcAdaptor.CasCounter
