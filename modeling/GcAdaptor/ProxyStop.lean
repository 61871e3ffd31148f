/-
Stopping the proxy's messenger: `~ProxyMsgr` against `ProxyMsgr::PollThread`
(`ceph_proxy/CephMsgr.cc`).

`Start` creates the thread and does not wait for it. The thread sets `pollThreadFlag` itself before
it polls, and the constructor leaves the flag without a value. The destructor joins the thread only
where it reads the flag as set, and clears it before. So a thread that begins late is missed, or
sets the flag again after it was cleared. `destructor_returns_iff` is the exact condition.
-/
import GcAdaptor.Interleave

set_option autoImplicit false

namespace GcAdaptor.ProxyStop

open GcAdaptor.Interleave

/-! ## The two threads -/

/-- Where the poll thread is. `send` and `reply` are in `SendMonCommand`, `store` is the end of
`CephDf`, and `wait` is `threadCV.wait_for`. -/
inductive Poll
  | start | test | send | reply | store | wait | exited
  deriving DecidableEq

/-- Where the destructor is. `freeRest` is the messenger, the map and the adaptor; the destructors
of its members come last. -/
inductive Dtor
  | idle | test | clear | join | freeDispatcher | freeRest | members | done
  deriving DecidableEq

/-- `joinable` is that of `pollThread`. `staleUse` records a use of the dispatcher after its
deletion, `terminated` is `std::terminate`. -/
structure State where
  pollThreadFlag : Bool
  poll : Poll := .start
  dtor : Dtor := .idle
  joinable : Bool := true
  dispatcher : Bool := true
  staleUse : Bool := false
  terminated : Bool := false
  deriving DecidableEq

/-- The messenger is up, and the poll thread has just been created. The flag has any value. -/
def start (pollThreadFlag : Bool) : State := { pollThreadFlag := pollThreadFlag }

/-- `poll ok` moves the poll thread; `ok` is whether the monitor's reply is good. -/
inductive Label
  | destroy
  | dtor
  | poll (ok : Bool)

/-- `dispatcher->SendMonCommand` -/
def useDispatcher (s : State) : State := { s with staleUse := s.staleUse || !s.dispatcher }

def pollStep (ok : Bool) (s : State) : Option State :=
  match s.poll with
  | .start => some { s with pollThreadFlag := true, poll := .test }
  | .test => some { s with poll := if s.pollThreadFlag then .send else .exited }
  | .send => some { useDispatcher s with poll := .reply }
  | .reply => some { useDispatcher s with poll := if ok then .store else .wait }
  | .store => some { s with poll := .wait }
  | .wait => some { s with poll := .test }
  | .exited => none

/-- A thread that is still joinable when its `std::thread` is destroyed ends the process. -/
def dtorStep (s : State) : Option State :=
  match s.dtor with
  | .idle | .done => none
  | .test => some { s with dtor := if s.pollThreadFlag then .clear else .freeDispatcher }
  | .clear => some { s with pollThreadFlag := false, dtor := .join }
  | .join =>
    if s.poll = .exited then some { s with joinable := false, dtor := .freeDispatcher } else none
  | .freeDispatcher => some { s with dispatcher := false, dtor := .freeRest }
  | .freeRest => some { s with dtor := .members }
  | .members =>
    some (if s.joinable then { s with terminated := true } else { s with dtor := .done })

def step (s : State) (a : Label) : Option State :=
  if s.terminated then none
  else
    match a with
    | .destroy => if s.dtor = .idle then some { s with dtor := .test } else none
    | .dtor => dtorStep s
    | .poll ok => pollStep ok s

/-- The destructor does not read the flag, or clear it, before the poll thread has set it. -/
def Begun (s : State) : Label → Prop
  | .dtor => (s.dtor = .test → s.pollThreadFlag = true) ∧ (s.dtor = .clear → s.poll ≠ .start)
  | _ => True

instance (s : State) : (a : Label) → Decidable (Begun s a)
  | .dtor => inferInstanceAs (Decidable ((_ → _) ∧ (_ → _)))
  | .destroy | .poll _ => inferInstanceAs (Decidable True)

/-! ## What a step does -/

section Steps

variable {s t : State} {a : Label} {g : Bool}

/-- The steps one by one. -/
inductive Moves (s : State) : Label → State → Prop
  | destroy (hdtor : s.dtor = .idle) : Moves s .destroy { s with dtor := .test }
  | sees (hdtor : s.dtor = .test) (hflag : s.pollThreadFlag = true) :
      Moves s .dtor { s with dtor := .clear }
  | misses (hdtor : s.dtor = .test) (hflag : s.pollThreadFlag = false) :
      Moves s .dtor { s with dtor := .freeDispatcher }
  | clears (hdtor : s.dtor = .clear) :
      Moves s .dtor { s with pollThreadFlag := false, dtor := .join }
  | joins (hdtor : s.dtor = .join) (hpoll : s.poll = .exited) :
      Moves s .dtor { s with joinable := false, dtor := .freeDispatcher }
  | frees (hdtor : s.dtor = .freeDispatcher) :
      Moves s .dtor { s with dispatcher := false, dtor := .freeRest }
  | freesRest (hdtor : s.dtor = .freeRest) : Moves s .dtor { s with dtor := .members }
  | terminates (hdtor : s.dtor = .members) (hjoinable : s.joinable = true) :
      Moves s .dtor { s with terminated := true }
  | ends (hdtor : s.dtor = .members) (hjoinable : s.joinable = false) :
      Moves s .dtor { s with dtor := .done }
  | begins (ok : Bool) (hpoll : s.poll = .start) :
      Moves s (.poll ok) { s with pollThreadFlag := true, poll := .test }
  | exits (ok : Bool) (hpoll : s.poll = .test) (hflag : s.pollThreadFlag = false) :
      Moves s (.poll ok) { s with poll := .exited }
  | turns (ok : Bool) (next : Poll) (hpoll : s.poll = .test ∧ s.pollThreadFlag = true ∨
      s.poll = .store ∨ s.poll = .wait) (hnext : next ≠ .start ∧ next ≠ .exited) :
      Moves s (.poll ok) { s with poll := next }
  | asks (ok : Bool) (next : Poll) (hpoll : s.poll = .send ∨ s.poll = .reply)
      (hnext : next ≠ .start ∧ next ≠ .exited) :
      Moves s (.poll ok) { useDispatcher s with poll := next }

theorem alive_of_step (h : step s a = some t) : s.terminated = false := by
  by_contra hterm
  rw [Bool.not_eq_false] at hterm
  unfold step at h
  rw [if_pos hterm] at h
  cases h

theorem moves_of_dtorStep (h : dtorStep s = some t) : Moves s .dtor t := by
  unfold dtorStep at h
  cases hdtor : s.dtor with
  | idle | done =>
    rw [hdtor] at h
    cases h
  | test =>
    rw [hdtor] at h
    rw [← Option.some.inj h]
    by_cases hflag : s.pollThreadFlag = true
    · rw [if_pos hflag]
      exact .sees hdtor hflag
    · rw [if_neg hflag]
      exact .misses hdtor (Bool.eq_false_of_not_eq_true hflag)
  | clear =>
    rw [hdtor] at h
    rw [← Option.some.inj h]
    exact .clears hdtor
  | join =>
    rw [hdtor] at h
    dsimp only at h
    split_ifs at h with hpoll
    rw [← Option.some.inj h]
    exact .joins hdtor hpoll
  | freeDispatcher =>
    rw [hdtor] at h
    rw [← Option.some.inj h]
    exact .frees hdtor
  | freeRest =>
    rw [hdtor] at h
    rw [← Option.some.inj h]
    exact .freesRest hdtor
  | members =>
    rw [hdtor] at h
    rw [← Option.some.inj h]
    by_cases hjoinable : s.joinable = true
    · rw [if_pos hjoinable, ← hdtor]
      exact .terminates hdtor hjoinable
    · rw [if_neg hjoinable]
      exact .ends hdtor (Bool.eq_false_of_not_eq_true hjoinable)

theorem moves_of_pollStep {ok : Bool} (h : pollStep ok s = some t) : Moves s (.poll ok) t := by
  unfold pollStep at h
  cases hpoll : s.poll with
  | start =>
    rw [hpoll] at h
    rw [← Option.some.inj h]
    exact .begins ok hpoll
  | test =>
    rw [hpoll] at h
    rw [← Option.some.inj h]
    by_cases hflag : s.pollThreadFlag = true
    · rw [if_pos hflag]
      exact .turns ok .send (.inl ⟨hpoll, hflag⟩) (by simp)
    · rw [if_neg hflag]
      exact .exits ok hpoll (Bool.eq_false_of_not_eq_true hflag)
  | send =>
    rw [hpoll] at h
    rw [← Option.some.inj h]
    exact .asks ok .reply (.inl hpoll) (by simp)
  | reply =>
    rw [hpoll] at h
    rw [← Option.some.inj h]
    exact .asks ok _ (.inr hpoll) (by cases ok <;> simp)
  | store =>
    rw [hpoll] at h
    rw [← Option.some.inj h]
    exact .turns ok .wait (.inr (.inl hpoll)) (by simp)
  | wait =>
    rw [hpoll] at h
    rw [← Option.some.inj h]
    exact .turns ok .test (.inr (.inr hpoll)) (by simp)
  | exited =>
    rw [hpoll] at h
    cases h

theorem moves_of_step (h : step s a = some t) : Moves s a t := by
  have halive := alive_of_step h
  unfold step at h
  rw [if_neg (by simp [halive])] at h
  cases a with
  | destroy =>
    dsimp only at h
    split_ifs at h with hdtor
    rw [← Option.some.inj h]
    exact .destroy hdtor
  | dtor => exact moves_of_dtorStep h
  | poll ok => exact moves_of_pollStep h

/-! ## What keeps the destructor from its end -/

/-- Before the destructor looks at the flag it is the thread's. It joins a thread that has ended,
and its members go after that or not at all. -/
structure Inv (s : State) : Prop where
  flag : s.dtor = .idle ∨ s.dtor = .test → s.poll ≠ .start → s.pollThreadFlag = true
  joinable : s.dtor = .idle ∨ s.dtor = .test ∨ s.dtor = .clear ∨ s.dtor = .join →
    s.joinable = true
  exited : s.joinable = false → s.poll = .exited
  done : s.dtor = .done → s.joinable = false ∧ s.terminated = false
  freed : s.dispatcher = false → s.dtor = .freeRest ∨ s.dtor = .members ∨ s.dtor = .done

/-- The destructor can still come to its end. -/
def Sound (s : State) : Prop :=
  s.terminated = false ∧
    match s.dtor with
    | .idle | .test | .clear => True
    | .join => s.poll = .exited ∨ s.poll ≠ .start ∧ s.pollThreadFlag = false
    | _ => s.joinable = false

theorem Inv.init (g : Bool) : Inv (start g) :=
  ⟨fun _ h => absurd rfl h, fun _ => rfl, nofun, nofun, nofun⟩

theorem Inv.step (hi : Inv s) (halive : s.terminated = false) (h : Moves s a t) : Inv t := by
  -- in front of `freeRest` the dispatcher is there
  have hthere (hdtor : s.dtor ≠ .freeRest ∧ s.dtor ≠ .members ∧ s.dtor ≠ .done)
      (hfreed : s.dispatcher = false) : False := by
    rcases hi.freed hfreed with h | h | h
    · exact hdtor.1 h
    · exact hdtor.2.1 h
    · exact hdtor.2.2 h
  cases h with
  | destroy hdtor =>
    exact ⟨fun _ => hi.flag (.inl hdtor), fun _ => hi.joinable (.inl hdtor), hi.exited, nofun,
      fun h => (hthere (by simp [hdtor]) h).elim⟩
  | sees hdtor hflag =>
    exact ⟨by simp, fun _ => hi.joinable (by simp [hdtor]), hi.exited, nofun,
      fun h => (hthere (by simp [hdtor]) h).elim⟩
  | misses hdtor hflag =>
    exact ⟨by simp, by simp, hi.exited, nofun, fun h => (hthere (by simp [hdtor]) h).elim⟩
  | clears hdtor =>
    exact ⟨by simp, fun _ => hi.joinable (by simp [hdtor]), hi.exited, nofun,
      fun h => (hthere (by simp [hdtor]) h).elim⟩
  | joins hdtor hpoll =>
    exact ⟨by simp, by simp, fun _ => hpoll, nofun, fun h => (hthere (by simp [hdtor]) h).elim⟩
  | frees hdtor => exact ⟨by simp, by simp, hi.exited, nofun, fun _ => .inl rfl⟩
  | freesRest hdtor => exact ⟨by simp, by simp, hi.exited, nofun, fun _ => .inr (.inl rfl)⟩
  | terminates hdtor hjoinable =>
    exact ⟨hi.flag, hi.joinable, hi.exited, fun h => (nomatch hdtor.symm.trans h), hi.freed⟩
  | ends hdtor hjoinable =>
    exact ⟨by simp, by simp, hi.exited, fun _ => ⟨hjoinable, halive⟩, fun _ => .inr (.inr rfl)⟩
  | begins ok hpoll =>
    exact ⟨fun _ _ => rfl, hi.joinable, fun h => (nomatch hpoll.symm.trans (hi.exited h)),
      hi.done, hi.freed⟩
  | exits ok hpoll hflag =>
    refine ⟨fun hdtor _ => ?_, hi.joinable, fun _ => rfl, hi.done, hi.freed⟩
    exact hi.flag hdtor (by simp [hpoll])
  | turns ok next hpoll hnext =>
    refine ⟨fun hdtor _ => hi.flag hdtor ?_, hi.joinable, fun h => ?_, hi.done, hi.freed⟩
    · rcases hpoll with ⟨hpoll, -⟩ | hpoll | hpoll <;> simp [hpoll]
    · have hexited := hi.exited h
      rcases hpoll with ⟨hpoll, -⟩ | hpoll | hpoll <;> exact nomatch hpoll.symm.trans hexited
  | asks ok next hpoll hnext =>
    refine ⟨fun hdtor _ => hi.flag hdtor ?_, hi.joinable, fun h => ?_, hi.done, hi.freed⟩
    · rcases hpoll with hpoll | hpoll <;> simp [hpoll]
    · have hexited := hi.exited h
      rcases hpoll with hpoll | hpoll <;> exact nomatch hpoll.symm.trans hexited

/-- A step of the poll thread other than its first leaves the destructor as it was. -/
theorem sound_turn (hdtor : t.dtor = s.dtor)
    (hflag : t.pollThreadFlag = s.pollThreadFlag) (hjoinable : t.joinable = s.joinable)
    (hterm : t.terminated = s.terminated)
    (hpoll : s.poll ≠ .start ∧ s.poll ≠ .exited) (hnext : t.poll ≠ .start ∧ t.poll ≠ .exited) :
    Sound t ↔ Sound s := by
  unfold Sound
  rw [hdtor, hjoinable, hterm, hflag]
  refine and_congr_right fun _ => ?_
  cases s.dtor with
  | join =>
    simp only [hpoll.1, hpoll.2, hnext.1, hnext.2, ne_eq, not_false_eq_true, true_and, false_or]
  | _ => exact Iff.rfl

/-- A step of the destructor is sound exactly if the poll thread has begun. -/
theorem sound_step (hi : Inv s) (halive : s.terminated = false) (h : Moves s a t) :
    Sound t ↔ Sound s ∧ Begun s a := by
  cases h with
  | destroy hdtor => simp [Sound, Begun, hdtor]
  | sees hdtor hflag => simp [Sound, Begun, hdtor, hflag]
  | misses hdtor hflag => simp [Sound, Begun, hdtor, hflag, hi.joinable (by simp [hdtor])]
  | clears hdtor =>
    have hends : s.poll = .exited ∨ s.poll ≠ .start ↔ s.poll ≠ .start := by
      refine or_iff_right_of_imp fun hpoll => ?_
      rw [hpoll]
      exact nofun
    simpa [Sound, Begun, hdtor, halive] using hends
  | joins hdtor hpoll => simp [Sound, Begun, hdtor, hpoll]
  | frees hdtor => simp [Sound, Begun, hdtor]
  | freesRest hdtor => simp [Sound, Begun, hdtor]
  | terminates hdtor hjoinable => simp [Sound, Begun, hdtor, hjoinable]
  | ends hdtor hjoinable => simp [Sound, Begun, hdtor, hjoinable]
  | begins ok hpoll =>
    -- a thread that begins behind a destructor that waits for it sets the flag again
    refine Iff.trans ?_ (and_iff_left trivial).symm
    unfold Sound
    refine and_congr_right fun _ => ?_
    cases s.dtor with
    | join => simp [hpoll]
    | _ => exact Iff.rfl
  | exits ok hpoll hflag =>
    refine Iff.trans ?_ (and_iff_left trivial).symm
    unfold Sound
    refine and_congr_right fun _ => ?_
    cases s.dtor with
    | join => simp [hpoll, hflag]
    | _ => exact Iff.rfl
  | turns ok next hpoll hnext =>
    refine Iff.trans ?_ (and_iff_left trivial).symm
    refine sound_turn rfl rfl rfl rfl ?_ hnext
    rcases hpoll with ⟨hpoll, -⟩ | hpoll | hpoll <;> simp [hpoll]
  | asks ok next hpoll hnext =>
    refine Iff.trans ?_ (and_iff_left trivial).symm
    refine sound_turn rfl rfl rfl rfl ?_ hnext
    rcases hpoll with hpoll | hpoll <;> simp [hpoll]

theorem inv_of_reach {ok : State → Label → Prop} (h : Reach step ok (start g) s) : Inv s :=
  h.invariant (.init g) fun _ _ _ hi _ hstep => hi.step (alive_of_step hstep) (moves_of_step hstep)

/-! ## The end of the destructor -/

/-- The destructor can come to its end. -/
def Ends (s : State) : Prop := ∃ t, Reach step Free s t ∧ t.dtor = .done

theorem Ends.of_step (h : step s a = some t) (ht : Ends t) : Ends s := by
  obtain ⟨u, hreach, hdone⟩ := ht
  exact ⟨u, (Reach.tail .refl trivial h).trans hreach, hdone⟩

theorem step_dtor (halive : s.terminated = false) : step s .dtor = dtorStep s := by
  unfold step
  rw [if_neg (by simp [halive])]

theorem step_poll (halive : s.terminated = false) (ok : Bool) :
    step s (.poll ok) = pollStep ok s := by
  unfold step
  rw [if_neg (by simp [halive])]

theorem ends_of_members (halive : s.terminated = false) (hjoinable : s.joinable = false)
    (hdtor : s.dtor = .members) : Ends s := by
  have hstep : step s .dtor = some { s with dtor := .done } := by
    simp [step_dtor halive, dtorStep, hdtor, hjoinable]
  exact .of_step hstep ⟨_, .refl, rfl⟩

theorem ends_of_freeRest (halive : s.terminated = false) (hjoinable : s.joinable = false)
    (hdtor : s.dtor = .freeRest) : Ends s := by
  have hstep : step s .dtor = some { s with dtor := .members } := by
    simp [step_dtor halive, dtorStep, hdtor]
  exact .of_step hstep (ends_of_members halive hjoinable rfl)

theorem ends_of_freeDispatcher (halive : s.terminated = false) (hjoinable : s.joinable = false)
    (hdtor : s.dtor = .freeDispatcher) : Ends s := by
  have hstep : step s .dtor = some { s with dispatcher := false, dtor := .freeRest } := by
    simp [step_dtor halive, dtorStep, hdtor]
  exact .of_step hstep (ends_of_freeRest halive hjoinable rfl)

theorem ends_of_exited (halive : s.terminated = false) (hdtor : s.dtor = .join)
    (hpoll : s.poll = .exited) : Ends s := by
  have hstep : step s .dtor = some { s with joinable := false, dtor := .freeDispatcher } := by
    simp [step_dtor halive, dtorStep, hdtor, hpoll]
  exact .of_step hstep (ends_of_freeDispatcher halive rfl rfl)

theorem ends_of_test (halive : s.terminated = false) (hdtor : s.dtor = .join)
    (hflag : s.pollThreadFlag = false) (hpoll : s.poll = .test) : Ends s := by
  have hstep : step s (.poll true) = some { s with poll := .exited } := by
    simp [step_poll halive, pollStep, hpoll, hflag]
  exact .of_step hstep (ends_of_exited halive hdtor rfl)

theorem ends_of_wait (halive : s.terminated = false) (hdtor : s.dtor = .join)
    (hflag : s.pollThreadFlag = false) (hpoll : s.poll = .wait) : Ends s := by
  have hstep : step s (.poll true) = some { s with poll := .test } := by
    simp [step_poll halive, pollStep, hpoll]
  exact .of_step hstep (ends_of_test halive hdtor hflag rfl)

theorem ends_of_reply (halive : s.terminated = false) (hdtor : s.dtor = .join)
    (hflag : s.pollThreadFlag = false) (hpoll : s.poll = .reply) : Ends s := by
  have hstep : step s (.poll false) = some { useDispatcher s with poll := .wait } := by
    simp [step_poll halive, pollStep, hpoll]
  exact .of_step hstep (ends_of_wait halive hdtor hflag rfl)

/-- Where the flag is cleared for good, the thread finds it so on its next turn. -/
theorem ends_of_join (halive : s.terminated = false) (hdtor : s.dtor = .join)
    (hflag : s.pollThreadFlag = false) (hpoll : s.poll ≠ .start) : Ends s := by
  cases h : s.poll with
  | start => exact absurd h hpoll
  | test => exact ends_of_test halive hdtor hflag h
  | send =>
    have hstep : step s (.poll true) = some { useDispatcher s with poll := .reply } := by
      simp [step_poll halive, pollStep, h]
    exact .of_step hstep (ends_of_reply halive hdtor hflag rfl)
  | reply => exact ends_of_reply halive hdtor hflag h
  | store =>
    have hstep : step s (.poll true) = some { s with poll := .wait } := by
      simp [step_poll halive, pollStep, h]
    exact .of_step hstep (ends_of_wait halive hdtor hflag rfl)
  | wait => exact ends_of_wait halive hdtor hflag h
  | exited => exact ends_of_exited halive hdtor h

theorem ends_of_clear (halive : s.terminated = false) (hdtor : s.dtor = .clear) : Ends s := by
  have hclear (s : State) (halive : s.terminated = false) (hdtor : s.dtor = .clear)
      (hpoll : s.poll ≠ .start) : Ends s := by
    have hstep : step s .dtor = some { s with pollThreadFlag := false, dtor := .join } := by
      simp [step_dtor halive, dtorStep, hdtor]
    exact .of_step hstep (ends_of_join halive rfl rfl hpoll)
  by_cases hpoll : s.poll = .start
  · -- the thread can still begin before the flag is cleared
    have hstep : step s (.poll true) = some { s with pollThreadFlag := true, poll := .test } := by
      simp [step_poll halive, pollStep, hpoll]
    exact .of_step hstep (hclear _ halive hdtor nofun)
  · exact hclear s halive hdtor hpoll

theorem ends_of_looking (hi : Inv s) (halive : s.terminated = false) (hdtor : s.dtor = .test) :
    Ends s := by
  have hlook (s : State) (halive : s.terminated = false) (hdtor : s.dtor = .test)
      (hflag : s.pollThreadFlag = true) : Ends s := by
    have hstep : step s .dtor = some { s with dtor := .clear } := by
      simp [step_dtor halive, dtorStep, hdtor, hflag]
    exact .of_step hstep (ends_of_clear halive rfl)
  by_cases hpoll : s.poll = .start
  · have hstep : step s (.poll true) = some { s with pollThreadFlag := true, poll := .test } := by
      simp [step_poll halive, pollStep, hpoll]
    exact .of_step hstep (hlook _ halive hdtor rfl)
  · exact hlook s halive hdtor (hi.flag (.inr hdtor) hpoll)

theorem ends_of_sound (hi : Inv s) (h : Sound s) : Ends s := by
  obtain ⟨halive, hsound⟩ := h
  cases hdtor : s.dtor with
  | idle =>
    have hstep : step s .destroy = some { s with dtor := .test } := by
      unfold step
      rw [if_neg (by simp [halive])]
      simp [hdtor]
    exact .of_step hstep (ends_of_looking (hi.step halive (.destroy hdtor)) halive rfl)
  | test => exact ends_of_looking hi halive hdtor
  | clear => exact ends_of_clear halive hdtor
  | join =>
    rw [hdtor] at hsound
    rcases hsound with hpoll | ⟨hpoll, hflag⟩
    · exact ends_of_exited halive hdtor hpoll
    · exact ends_of_join halive hdtor hflag hpoll
  | freeDispatcher =>
    rw [hdtor] at hsound
    exact ends_of_freeDispatcher halive hsound hdtor
  | freeRest =>
    rw [hdtor] at hsound
    exact ends_of_freeRest halive hsound hdtor
  | members =>
    rw [hdtor] at hsound
    exact ends_of_members halive hsound hdtor
  | done => exact ⟨s, .refl, hdtor⟩

theorem ends_iff_sound (hi : Inv s) : Ends s ↔ Sound s := by
  refine ⟨fun ⟨t, hreach, hdone⟩ => ?_, ends_of_sound hi⟩
  by_contra hs
  -- what is not sound any more stays so
  have hstays : Inv t ∧ ¬ Sound t :=
    hreach.invariant (I := fun u => Inv u ∧ ¬ Sound u) ⟨hi, hs⟩ fun u a v hu _ hstep => by
      have halive := alive_of_step hstep
      have hmoves := moves_of_step hstep
      exact ⟨hu.1.step halive hmoves, fun hv => hu.2 ((sound_step hu.1 halive hmoves).mp hv).1⟩
  refine hstays.2 ⟨(hstays.1.done hdone).2, ?_⟩
  rw [hdone]
  exact (hstays.1.done hdone).1

/-- **The end of the destructor.** After a run the destructor can come to its end exactly if it has
neither read the flag as clear nor cleared it before the poll thread has begun. Otherwise it waits
for a thread that polls on for ever, or the process is ended. -/
theorem destructor_returns_iff {as : List Label} (hrun : run step (start g) as = some t) :
    Ends t ↔ ForallSteps step Begun (start g) as := by
  have hstart : Sound (start g) := ⟨rfl, trivial⟩
  have hreach : Reach step Free (start g) t := reach_of_run hrun fun _ _ _ => trivial
  rw [ends_iff_sound (inv_of_reach hreach),
    forallSteps_iff
      (fun _ _ _ hi hstep => hi.step (alive_of_step hstep) (moves_of_step hstep))
      (fun _ _ _ hi hstep => sound_step hi (alive_of_step hstep) (moves_of_step hstep)) hrun
      (Inv.init g), and_iff_right hstart]

/-- The flag happens to be set from the start: the thread begins behind a destructor that already
waits for it, and never stops. -/
theorem destructor_returns_iff_late :
    ∃ t, run step (start true) [.destroy, .dtor, .dtor, .poll true] = some t ∧ ¬ Ends t := by
  obtain ⟨t, hrun⟩ : ∃ t, run step (start true) [.destroy, .dtor, .dtor, .poll true] = some t :=
    ⟨_, rfl⟩
  refine ⟨t, hrun, fun hends => ?_⟩
  obtain ⟨-, hall⟩ := (destructor_returns_iff hrun).mp hends
  obtain ⟨-, hall⟩ := hall _ rfl
  obtain ⟨hbegun, -⟩ := hall _ rfl
  exact hbegun.2 rfl rfl

/-! ## What the poll thread uses -/

/-- In a sound state the thread has exited before the dispatcher goes. -/
theorem exited_of_freed (hi : Inv s) (hs : Sound s) (h : s.dispatcher = false) :
    s.poll = .exited := by
  have hjoinable : s.joinable = false := by
    have hsound := hs.2
    rcases hi.freed h with hdtor | hdtor | hdtor
    · rwa [hdtor] at hsound
    · rwa [hdtor] at hsound
    · rwa [hdtor] at hsound
  exact hi.exited hjoinable

theorem staleUse_step (hi : Inv s) (hs : Sound s) (hstale : s.staleUse = false)
    (h : Moves s a t) : t.staleUse = false := by
  cases h with
  | asks ok next hpoll hnext =>
    show (s.staleUse || !s.dispatcher) = false
    rw [hstale, Bool.false_or]
    cases hdispatcher : s.dispatcher with
    | true => rfl
    | false =>
      have hexited := exited_of_freed hi hs hdispatcher
      rcases hpoll with hpoll | hpoll <;> exact nomatch hpoll.symm.trans hexited
  | _ => exact hstale

/-- **No use after deletion.** As long as the destructor looks at the flag and clears it after the
poll thread has begun, the thread never uses the dispatcher once it is deleted. -/
theorem poll_keeps_off (h : Reach step Begun (start g) s) : s.staleUse = false := by
  have hall : Inv s ∧ Sound s ∧ s.staleUse = false :=
    h.invariant (I := fun u => Inv u ∧ Sound u ∧ u.staleUse = false)
      ⟨.init g, ⟨rfl, trivial⟩, rfl⟩ fun u a v hu hok hstep => by
        obtain ⟨hi, hs, hstale⟩ := hu
        have halive := alive_of_step hstep
        have hmoves := moves_of_step hstep
        exact ⟨hi.step halive hmoves, (sound_step hi halive hmoves).mpr ⟨hs, hok⟩,
          staleUse_step hi hs hstale hmoves⟩
  exact hall.2.2

/-- The thread is stopped between two polls. -/
theorem poll_keeps_off_stopped :
    ∃ s, Reach step Begun (start false) s ∧ s.dtor = .done ∧ s.staleUse = false := by
  obtain ⟨s, hreach, hs⟩ := exists_reach_of_checked step Begun (fun s a => decide (Begun s a))
    (start false) [.poll true, .poll true, .destroy, .poll true, .dtor, .dtor, .poll true,
      .poll true, .poll true, .poll true, .dtor, .dtor, .dtor, .dtor] (fun s => s.dtor = .done)
    (by decide) fun _ _ h => of_decide_eq_true h
  exact ⟨s, hreach, of_decide_eq_true hs, poll_keeps_off hreach⟩

/-- A destructor that misses the thread deletes the dispatcher under it. -/
example : (run step (start false) [.destroy, .dtor, .dtor, .poll true, .poll true, .poll true]).any
    State.staleUse = true := by decide

end Steps

end GcAdaptor.ProxyStop
