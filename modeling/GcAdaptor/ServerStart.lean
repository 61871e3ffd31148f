/-
Starting and stopping the server: `OSA_Init` and `OSA_Finish` (`server_adaptor/osa.cpp`),
`ThreadFuncBodyServer` and `FinishMessenger` (`server_adaptor/network_module.cpp`).

`OSA_Init` creates the network module and its server thread, and polls a variable on its stack for
a minute. The server thread starts a messenger for each port, writes there what has become of it,
and waits for the first messenger. `OSA_Finish` shuts down the messengers there are and joins the
thread. One thread calls the two, the server thread is the other.
-/
import GcAdaptor.Interleave
import Mathlib.Data.PNat.Basic

set_option autoImplicit false

namespace GcAdaptor.ServerStart

open GcAdaptor.Interleave

def ERROR_PORT : ℤ := 101
def ERROR_BIND : ℤ := 102

/-! ## The two threads -/

/-- The server thread: it starts messengers, or waits for the first one. -/
inductive Server
  | binding
  | waiting
  | exited
  deriving DecidableEq

/-- `NetworkModule`, with the ports `ParsePortVec` has passed. `started` is
`vecSvrMessenger.size()`, `shut` how many of them have been shut down. `gaveUp` and `stray` record that `OSA_Init` left before its server thread had an answer, and
that the answer was written to where its stack had been. -/
structure Net where
  ports : ℕ+
  server : Server := .binding
  started : ℕ := 0
  shut : ℕ := 0
  gaveUp : Bool := false
  stray : Bool := false

/-- Where the calling thread is. `bindSuccess` lives on the stack of `OSA_Init`. -/
inductive Pc
  | idle
  | polling (sleepCnt : ℕ) (bindSuccess : ℤ)
  | sleeping (sleepCnt : ℕ) (bindSuccess : ℤ)
  | joining
  deriving DecidableEq

/-- `answers` are the results of `OSA_Init`, each with whether the server was listening then.
`terminated` is `std::terminate`. -/
structure State where
  net : Option Net := none
  pc : Pc := .idle
  answers : List (ℤ × Bool) := []
  terminated : Bool := false

/-- What creating a network module comes to. -/
inductive Creation
  | noMemory
  | noServerThread
  | created

inductive Label
  | init (configOk : Bool) (ports : ℕ+) (creation : Creation)
  | poll
  | wake
  | serve (ok : Bool)
  | leave
  | finish
  | join

/-- The server thread has started all messengers, and none has been shut down. -/
def Net.isListening (n : Net) : Bool := n.server = .waiting ∧ n.shut = 0

/-- `OSA_Init` returns. -/
def State.answer (ret : ℤ) (s : State) : State :=
  { s with pc := .idle, answers := s.answers ++ [(ret, s.net.any Net.isListening)] }

/-- `*bindSuccess = value` -/
def State.write (value : ℤ) (s : State) (n : Net) : State :=
  match s.pc with
  | .polling sleepCnt _ => { s with net := some n, pc := .polling sleepCnt value }
  | .sleeping sleepCnt _ => { s with net := some n, pc := .sleeping sleepCnt value }
  | _ => { s with net := some { n with stray := true } }

/-- `OSA_Init` up to its loop. A network module that is there is left as it is. Where the server
thread cannot be created the module is deleted with its worker threads running. -/
def osaInit (configOk : Bool) (ports : ℕ+) (creation : Creation) (s : State) : State :=
  if !configOk then s.answer ERROR_PORT
  else
    match s.net, creation with
    | some _, _ => s.answer 0
    | none, .noMemory => s.answer 1
    | none, .noServerThread => { s with terminated := true }
    | none, .created => { s with net := some { ports := ports }, pc := .polling 0 (-1) }

/-- One turn of the loop in `ThreadFuncBodyServer`, or what is behind it. -/
def serve (ok : Bool) (s : State) (n : Net) : State :=
  if n.started < n.ports then
    if ok then { s with net := some { n with started := n.started + 1 } }
    else s.write 0 { n with server := .exited }
  else s.write 1 { n with server := .waiting }

def step (s : State) (a : Label) : Option State :=
  if s.terminated then none
  else
    match a with
    | .init configOk ports creation =>
      match s.pc with
      | .idle => some (osaInit configOk ports creation s)
      | _ => none
    | .poll =>
      match s.pc with
      | .polling sleepCnt bindSuccess =>
        if bindSuccess = -1 then some { s with pc := .sleeping sleepCnt bindSuccess }
        else some (s.answer (if bindSuccess = 0 then ERROR_BIND else 0))
      | _ => none
    | .wake =>
      match s.pc, s.net with
      | .sleeping sleepCnt bindSuccess, some n =>
        if sleepCnt ≥ 60 then
          some (State.answer ERROR_BIND
            { s with net := some { n with gaveUp := n.server = .binding } })
        else some { s with pc := .polling (sleepCnt + 1) bindSuccess }
      | _, _ => none
    | .serve ok =>
      match s.net with
      | some n => if n.server = .binding then some (serve ok s n) else none
      | none => none
    | .leave =>
      match s.net with
      | some n =>
        if n.server = .waiting ∧ 0 < n.shut then
          some { s with net := some { n with server := .exited } }
        else none
      | none => none
    | .finish =>
      match s.pc, s.net with
      | .idle, none => some s
      | .idle, some n => some { s with net := some { n with shut := n.started }, pc := .joining }
      | _, _ => none
    | .join =>
      match s.pc, s.net with
      | .joining, some n =>
        if n.server = .exited then some { s with net := none, pc := .idle } else none
      | _, _ => none

/-! ## What a step does -/

section Steps

variable {s t : State} {a : Label} {n : Net}

/-- The steps one by one. -/
inductive Moves (s : State) : Label → State → Prop
  | refused (ports : ℕ+) (creation : Creation) (hpc : s.pc = .idle) :
      Moves s (.init false ports creation) (s.answer ERROR_PORT)
  | again (ports : ℕ+) (creation : Creation) (n : Net) (hpc : s.pc = .idle) (hn : s.net = some n) :
      Moves s (.init true ports creation) (s.answer 0)
  | noMemory (ports : ℕ+) (hpc : s.pc = .idle) (hn : s.net = none) :
      Moves s (.init true ports .noMemory) (s.answer 1)
  | noServerThread (ports : ℕ+) (hpc : s.pc = .idle) (hn : s.net = none) :
      Moves s (.init true ports .noServerThread) { s with terminated := true }
  | created (ports : ℕ+) (hpc : s.pc = .idle) (hn : s.net = none) :
      Moves s (.init true ports .created)
        { s with net := some { ports := ports }, pc := .polling 0 (-1) }
  | asleep (c : ℕ) (b : ℤ) (hpc : s.pc = .polling c b) (hb : b = -1) :
      Moves s .poll { s with pc := .sleeping c b }
  | answered (c : ℕ) (b : ℤ) (hpc : s.pc = .polling c b) (hb : b ≠ -1) :
      Moves s .poll (s.answer (if b = 0 then ERROR_BIND else 0))
  | gaveUp (c : ℕ) (b : ℤ) (n : Net) (hpc : s.pc = .sleeping c b) (hn : s.net = some n) :
      Moves s .wake (State.answer ERROR_BIND
        { s with net := some { n with gaveUp := n.server = .binding } })
  | retried (c : ℕ) (b : ℤ) (hpc : s.pc = .sleeping c b) :
      Moves s .wake { s with pc := .polling (c + 1) b }
  | started (n : Net) (hn : s.net = some n) (hserver : n.server = .binding)
      (hlt : n.started < n.ports) :
      Moves s (.serve true) { s with net := some { n with started := n.started + 1 } }
  | failed (n : Net) (hn : s.net = some n) (hserver : n.server = .binding)
      (hlt : n.started < n.ports) :
      Moves s (.serve false) (s.write 0 { n with server := .exited })
  | listening (n : Net) (ok : Bool) (hn : s.net = some n) (hserver : n.server = .binding)
      (hge : n.ports ≤ n.started) : Moves s (.serve ok) (s.write 1 { n with server := .waiting })
  | left (n : Net) (hn : s.net = some n) (hserver : n.server = .waiting) (hshut : 0 < n.shut) :
      Moves s .leave { s with net := some { n with server := .exited } }
  | nothing (hpc : s.pc = .idle) (hn : s.net = none) : Moves s .finish s
  | finishing (n : Net) (hpc : s.pc = .idle) (hn : s.net = some n) :
      Moves s .finish { s with net := some { n with shut := n.started }, pc := .joining }
  | joined (n : Net) (hpc : s.pc = .joining) (hn : s.net = some n) (hserver : n.server = .exited) :
      Moves s .join { s with net := none, pc := .idle }

theorem moves_of_step (h : step s a = some t) : Moves s a t := by
  unfold step at h
  split_ifs at h
  cases a with
  | init configOk ports creation =>
    dsimp only at h
    split at h
    · rename_i hpc
      rw [← Option.some.inj h]
      cases configOk with
      | false => exact .refused ports creation hpc
      | true =>
        rcases hn : s.net with - | n
        · cases creation with
          | noMemory =>
            have hinit : osaInit true ports .noMemory s = s.answer 1 := by simp [osaInit, hn]
            rw [hinit]
            exact .noMemory ports hpc hn
          | noServerThread =>
            have hinit : osaInit true ports .noServerThread s = { s with terminated := true } := by
              simp [osaInit, hn]
            rw [hinit]
            exact .noServerThread ports hpc hn
          | created =>
            have hinit : osaInit true ports .created s =
                { s with net := some { ports := ports }, pc := .polling 0 (-1) } := by
              simp [osaInit, hn]
            rw [hinit]
            exact .created ports hpc hn
        · have hinit : osaInit true ports creation s = s.answer 0 := by simp [osaInit, hn]
          rw [hinit]
          exact .again ports creation n hpc hn
    · cases h
  | poll =>
    dsimp only at h
    split at h
    · rename_i c b hpc
      by_cases hb : b = -1
      · rw [if_pos hb] at h
        rw [← Option.some.inj h]
        exact .asleep c b hpc hb
      · rw [if_neg hb] at h
        rw [← Option.some.inj h]
        exact .answered c b hpc hb
    · cases h
  | wake =>
    dsimp only at h
    split at h
    · rename_i c b n hpc hn
      split_ifs at h
      · rw [← Option.some.inj h]
        exact .gaveUp c b n hpc hn
      · rw [← Option.some.inj h]
        exact .retried c b hpc
    · cases h
  | serve ok =>
    dsimp only at h
    split at h
    · rename_i n hn
      split_ifs at h with hserver
      rw [← Option.some.inj h, serve]
      split_ifs with hlt hok
      · subst hok
        exact .started n hn hserver hlt
      · rw [Bool.not_eq_true] at hok
        subst hok
        exact .failed n hn hserver hlt
      · exact .listening n ok hn hserver (not_lt.mp hlt)
    · cases h
  | leave =>
    dsimp only at h
    split at h
    · rename_i n hn
      split_ifs at h with hserver
      rw [← Option.some.inj h]
      exact .left n hn hserver.1 hserver.2
    · cases h
  | finish =>
    dsimp only at h
    split at h
    · rename_i hpc hn
      rw [← Option.some.inj h]
      exact .nothing hpc hn
    · rename_i n hpc hn
      rw [← Option.some.inj h]
      exact .finishing n hpc hn
    · cases h
  | join =>
    dsimp only at h
    split at h
    · rename_i n hpc hn
      split_ifs at h with hserver
      rw [← Option.some.inj h]
      exact .joined n hpc hn hserver
    · cases h

/-! ## What the server thread has told -/

/-- The variable on the stack of `OSA_Init`, while it is in its loop. -/
def Pc.frame : Pc → Option ℤ
  | .polling _ bindSuccess | .sleeping _ bindSuccess => some bindSuccess
  | .idle | .joining => none

/-- What `bindSuccess` says of the server. -/
def Agrees (bindSuccess : ℤ) (server : Server) : Prop :=
  bindSuccess = -1 ∧ server = .binding ∨ bindSuccess = 0 ∧ server = .exited ∨
    bindSuccess = 1 ∧ server = .waiting

structure Inv (s : State) : Prop where
  frame : ∀ b, s.pc.frame = some b → ∃ n, s.net = some n ∧ Agrees b n.server ∧ n.shut = 0 ∧
    n.gaveUp = false ∧ n.stray = false
  late : ∀ n, s.net = some n → s.pc.frame = none → (n.server = .binding → n.gaveUp = true) ∧
    (n.stray = true ↔ n.gaveUp = true ∧ n.server ≠ .binding)
  idle : s.pc = .idle → ∀ n, s.net = some n → n.shut = 0

theorem Inv.init : Inv {} :=
  ⟨fun _ h => (nomatch h), fun _ h => (nomatch h), fun _ _ h => (nomatch h)⟩

theorem write_of_frame {b v : ℤ} (h : s.pc.frame = some b) :
    (s.write v n).net = some n ∧ (s.write v n).pc.frame = some v ∧
      (s.write v n).answers = s.answers := by
  unfold State.write
  cases hpc : s.pc with
  | idle =>
    rw [hpc] at h
    cases h
  | joining =>
    rw [hpc] at h
    cases h
  | polling c b => exact ⟨rfl, rfl, rfl⟩
  | sleeping c b => exact ⟨rfl, rfl, rfl⟩

theorem write_of_no_frame {v : ℤ} (h : s.pc.frame = none) :
    s.write v n = { s with net := some { n with stray := true } } := by
  unfold State.write
  cases hpc : s.pc with
  | idle => rfl
  | joining => rfl
  | polling c b =>
    rw [hpc] at h
    cases h
  | sleeping c b =>
    rw [hpc] at h
    cases h

/-- `OSA_Init` returns, with the server as it is. -/
theorem Inv.answer (ret : ℤ) (hlate : ∀ n, s.net = some n →
      (n.server = .binding → n.gaveUp = true) ∧
      (n.stray = true ↔ n.gaveUp = true ∧ n.server ≠ .binding))
    (hshut : ∀ n, s.net = some n → n.shut = 0) : Inv (s.answer ret) :=
  ⟨fun _ h => (nomatch h), fun n hn _ => hlate n hn, fun _ n hn => hshut n hn⟩

/-- The server thread has come to an end of its start and writes what has become of it. -/
theorem Inv.write (hi : Inv s) (hn : s.net = some n) (hserver : n.server = .binding) {v : ℤ}
    {server : Server} (hne : server ≠ .binding) (hagrees : Agrees v server) :
    Inv (s.write v { n with server := server }) := by
  cases hframe : s.pc.frame with
  | some b =>
    obtain ⟨hnet, hpc, -⟩ := write_of_frame (n := { n with server := server }) (v := v) hframe
    obtain ⟨n', hn', -, hshut, hgave, hstray⟩ := hi.frame b hframe
    obtain rfl : n = n' := Option.some.inj (hn.symm.trans hn')
    refine ⟨fun b' hb' => ⟨_, hnet, ?_, hshut, hgave, hstray⟩, fun m _ hnone => ?_,
      fun hidle => ?_⟩
    · obtain rfl : v = b' := Option.some.inj (hpc.symm.trans hb')
      exact hagrees
    · rw [hpc] at hnone
      cases hnone
    · rw [hidle] at hpc
      cases hpc
  | none =>
    have hlate := hi.late n hn hframe
    rw [write_of_no_frame hframe]
    refine ⟨fun b hb => ?_, fun m hm _ => ?_, fun hidle m hm => ?_⟩
    · rw [hframe] at hb
      cases hb
    · obtain rfl := Option.some.inj hm
      exact ⟨fun hbinding => absurd hbinding hne, iff_of_true rfl ⟨hlate.1 hserver, hne⟩⟩
    · obtain rfl := Option.some.inj hm
      exact hi.idle hidle n hn

theorem Inv.step (hi : Inv s) (h : Moves s a t) : Inv t := by
  have hidleLate (hpc : s.pc = .idle) : ∀ n, s.net = some n →
      (n.server = .binding → n.gaveUp = true) ∧
      (n.stray = true ↔ n.gaveUp = true ∧ n.server ≠ .binding) :=
    fun n hn => hi.late n hn (by rw [hpc]; rfl)
  cases h with
  | refused ports creation hpc => exact Inv.answer _ (hidleLate hpc) (hi.idle hpc)
  | again ports creation n hpc hn => exact Inv.answer _ (hidleLate hpc) (hi.idle hpc)
  | noMemory ports hpc hn => exact Inv.answer _ (hidleLate hpc) (hi.idle hpc)
  | noServerThread ports hpc hn => exact ⟨hi.frame, hi.late, hi.idle⟩
  | created ports hpc hn =>
    refine ⟨fun b hb => ?_, fun n _ hnone => (nomatch hnone), fun hidle => (nomatch hidle)⟩
    obtain rfl := Option.some.inj hb
    exact ⟨_, rfl, .inl ⟨rfl, rfl⟩, rfl, rfl, rfl⟩
  | asleep c b hpc hb =>
    refine ⟨fun b' hb' => hi.frame b' ?_, fun n _ hnone => (nomatch hnone),
      fun hidle => (nomatch hidle)⟩
    rw [hpc]
    exact hb'
  | retried c b hpc =>
    refine ⟨fun b' hb' => hi.frame b' ?_, fun n _ hnone => (nomatch hnone),
      fun hidle => (nomatch hidle)⟩
    rw [hpc]
    exact hb'
  | answered c b hpc hb =>
    obtain ⟨n, hn, hagrees, hshut, hgave, hstray⟩ := hi.frame b (by rw [hpc]; rfl)
    refine Inv.answer _ (fun m hm => ?_) fun m hm => ?_
    · obtain rfl : n = m := Option.some.inj (hn.symm.trans hm)
      have hne : n.server ≠ .binding := by
        rcases hagrees with ⟨hb', -⟩ | ⟨-, hserver⟩ | ⟨-, hserver⟩
        · exact absurd hb' hb
        · rw [hserver]
          exact nofun
        · rw [hserver]
          exact nofun
      rw [hgave, hstray]
      exact ⟨fun h => absurd h hne, iff_of_false nofun fun h => nomatch h.1⟩
    · obtain rfl : n = m := Option.some.inj (hn.symm.trans hm)
      exact hshut
  | gaveUp c b n hpc hn =>
    obtain ⟨n', hn', -, hshut, hgave, hstray⟩ := hi.frame b (by rw [hpc]; rfl)
    obtain rfl : n = n' := Option.some.inj (hn.symm.trans hn')
    refine ⟨fun _ h => (nomatch h), fun m hm _ => ?_, fun _ m hm => ?_⟩
    · obtain rfl := Option.some.inj hm
      refine ⟨fun h => decide_eq_true h, iff_of_false ?_ fun h => h.2 (of_decide_eq_true h.1)⟩
      show ¬ n.stray = true
      rw [hstray]
      exact nofun
    · obtain rfl := Option.some.inj hm
      exact hshut
  | started n hn hserver hlt =>
    refine ⟨fun b hb => ?_, fun m hm hnone => ?_, fun hidle m hm => ?_⟩
    · obtain ⟨n', hn', h⟩ := hi.frame b hb
      obtain rfl : n = n' := Option.some.inj (hn.symm.trans hn')
      exact ⟨_, rfl, h⟩
    · obtain rfl := Option.some.inj hm
      exact hi.late n hn hnone
    · obtain rfl := Option.some.inj hm
      exact hi.idle hidle n hn
  | failed n hn hserver hlt => exact hi.write hn hserver nofun (.inr (.inl ⟨rfl, rfl⟩))
  | listening n ok hn hserver hge => exact hi.write hn hserver nofun (.inr (.inr ⟨rfl, rfl⟩))
  | left n hn hserver hshut =>
    -- nobody shuts a messenger down while `OSA_Init` is in its loop
    refine ⟨fun b hb => ?_, fun m hm hnone => ?_, fun hidle m hm => ?_⟩
    · obtain ⟨n', hn', -, hzero, -⟩ := hi.frame b hb
      obtain rfl : n = n' := Option.some.inj (hn.symm.trans hn')
      exact absurd hzero (Nat.ne_of_gt hshut)
    · obtain rfl := Option.some.inj hm
      have hlate := (hi.late n hn hnone).2
      rw [hserver] at hlate
      exact ⟨nofun, hlate.trans (and_congr_right fun _ => iff_of_true nofun nofun)⟩
    · obtain rfl := Option.some.inj hm
      exact hi.idle hidle n hn
  | nothing hpc hn => exact hi
  | finishing n hpc hn =>
    refine ⟨fun _ h => (nomatch h), fun m hm _ => ?_, fun hidle => (nomatch hidle)⟩
    obtain rfl := Option.some.inj hm
    exact hidleLate hpc n hn
  | joined n hpc hn hserver =>
    exact ⟨fun _ h => (nomatch h), fun _ h => (nomatch h), fun _ _ h => (nomatch h)⟩

theorem inv_of_reach (h : Reach step Free {} s) : Inv s :=
  h.invariant .init fun _ _ _ hi _ hstep => hi.step (moves_of_step hstep)

/-- **A write into a dead frame.** Once the server thread has come to an end of its start, it has
written where the stack of `OSA_Init` had been exactly if `OSA_Init` gave up on it. -/
theorem stray_iff_gaveUp (h : Reach step Free {} s) (hn : s.net = some n)
    (hserver : n.server ≠ .binding) : n.stray = true ↔ n.gaveUp = true := by
  have hi := inv_of_reach h
  cases hframe : s.pc.frame with
  | some b =>
    obtain ⟨n', hn', -, -, hgave, hstray⟩ := hi.frame b hframe
    obtain rfl : n = n' := Option.some.inj (hn.symm.trans hn')
    rw [hgave, hstray]
  | none => rw [(hi.late n hn hframe).2, and_iff_left hserver]

/-- `OSA_Init` waits for its server thread in vain. -/
def timeout : List Label :=
  .init true 1 .created :: (List.replicate 61 [.poll, .wake]).flatten

/-- The port turns out to be taken a minute later. -/
theorem stray_iff_gaveUp_timeout :
    ∃ s n, Reach step Free {} s ∧ s.net = some n ∧ n.server = .exited ∧ n.stray = true := by
  obtain ⟨s, hreach, hs⟩ := exists_reach_of_run step Free {} (timeout ++ [.serve false])
    (fun s => s.net.any fun n => n.server = .exited ∧ n.gaveUp = true) (by decide +kernel)
    fun _ _ _ => trivial
  obtain ⟨n, hn, h⟩ := (Option.any_eq_true _ _).mp hs
  obtain ⟨hserver, hgave⟩ := of_decide_eq_true h
  have hne : n.server ≠ .binding := by
    rw [hserver]
    exact nofun
  exact ⟨s, n, hreach, hn, hserver, (stray_iff_gaveUp hreach hn hne).mpr hgave⟩

/-! ## What `OSA_Init` answers -/

/-- `OSA_Init` has answered 0 only while the server was listening. -/
def Truthful (s : State) : Prop := ∀ r ∈ s.answers, r.1 = 0 → r.2 = true

/-- `OSA_Init` is not called for a network module that is there and does not listen. -/
def Fresh (s : State) : Label → Prop
  | .init true _ _ => ∀ n, s.net = some n → n.server = .waiting
  | _ => True

theorem truthful_answer {ret : ℤ} : Truthful (s.answer ret) ↔
    Truthful s ∧ (ret = 0 → s.net.any Net.isListening = true) := by
  simp [Truthful, State.answer, or_imp, forall_and]

theorem truthful_step (hi : Inv s) (h : Moves s a t) : Truthful t ↔ Truthful s ∧ Fresh s a := by
  have hsame (h : t.answers = s.answers) (hfresh : Fresh s a) :
      Truthful t ↔ Truthful s ∧ Fresh s a := by
    rw [Truthful, h, and_iff_left hfresh, Truthful]
  cases h with
  | refused ports creation hpc =>
    rw [truthful_answer]
    exact and_congr_right fun _ => iff_of_true nofun trivial
  | again ports creation n hpc hn =>
    rw [truthful_answer]
    refine and_congr_right fun _ => ?_
    have hshut := hi.idle hpc n hn
    simp [Fresh, hn, Net.isListening, hshut]
  | noMemory ports hpc hn =>
    rw [truthful_answer]
    refine and_congr_right fun _ => iff_of_true nofun fun n h => ?_
    rw [hn] at h
    cases h
  | noServerThread ports hpc hn => exact hsame rfl fun n h => nomatch hn.symm.trans h
  | created ports hpc hn => exact hsame rfl fun n h => nomatch hn.symm.trans h
  | asleep => exact hsame rfl trivial
  | retried => exact hsame rfl trivial
  | answered c b hpc hb =>
    rw [truthful_answer]
    refine and_congr_right fun _ => iff_of_true (fun hzero => ?_) trivial
    obtain ⟨n, hn, hagrees, hshut, -⟩ := hi.frame b (by rw [hpc]; rfl)
    rcases hagrees with ⟨hb', -⟩ | ⟨rfl, -⟩ | ⟨-, hserver⟩
    · exact absurd hb' hb
    · cases hzero
    · simp [hn, Net.isListening, hserver, hshut]
  | gaveUp c b n hpc hn =>
    rw [truthful_answer]
    exact and_congr_right fun _ => iff_of_true nofun trivial
  | started => exact hsame rfl trivial
  | failed n hn hserver hlt => exact hsame (by unfold State.write; split <;> rfl) trivial
  | listening n ok hn hserver hge => exact hsame (by unfold State.write; split <;> rfl) trivial
  | left => exact hsame rfl trivial
  | nothing => exact hsame rfl trivial
  | finishing => exact hsame rfl trivial
  | joined => exact hsame rfl trivial

/-- **Answers of `OSA_Init`.** In a run it says 0 only while the server listens on all its ports
exactly if it is never called for a network module that does not: the failure of an earlier call
that nobody has cleaned up is reported as success. -/
theorem osaInit_truthful_iff {as : List Label} (hrun : run step {} as = some t) :
    Truthful t ↔ ForallSteps step Fresh {} as := by
  have hstart : Truthful {} := by simp [Truthful]
  rw [forallSteps_iff (fun _ _ _ hi hstep => hi.step (moves_of_step hstep))
    (fun _ _ _ hi hstep => truthful_step hi (moves_of_step hstep)) hrun Inv.init,
    and_iff_right hstart]

/-- The port is taken, and `OSA_Init` is called once more. -/
theorem osaInit_truthful_iff_second_call :
    ¬ ForallSteps step Fresh {}
      [.init true 1 .created, .serve false, .poll, .init true 1 .created] := by
  obtain ⟨t, ht, hanswers⟩ : ∃ t, run step {}
      [.init true 1 .created, .serve false, .poll, .init true 1 .created] = some t ∧
      t.answers = [(ERROR_BIND, false), (0, false)] := ⟨_, rfl, rfl⟩
  rw [← osaInit_truthful_iff ht]
  intro h
  have hfalse := h (0, false) (by simp [hanswers]) rfl
  cases hfalse

/-! ## What `OSA_Finish` waits for -/

/-- The server thread waits, or is about to, for a first messenger that was started after
`FinishMessenger` had gone through the messengers. -/
def Net.Stuck (n : Net) : Prop := n.shut = 0 ∧ n.server ≠ .exited ∧ n.ports ≤ n.started

structure Begun (s : State) : Prop where
  alive : s.terminated = true → s.pc = .idle
  all : ∀ n, s.net = some n → n.server = .waiting → n.ports ≤ n.started
  early : s.pc = .joining → ∀ n, s.net = some n → n.shut = 0 → n.server ≠ .exited →
    n.gaveUp = true

theorem Begun.init : Begun {} := ⟨nofun, nofun, nofun⟩

/-- A write of the server thread moves nobody else. -/
theorem write_frame (v : ℤ) : (s.write v n).terminated = s.terminated ∧
    ((s.write v n).pc = .idle ↔ s.pc = .idle) ∧ ((s.write v n).pc = .joining ↔ s.pc = .joining) ∧
    ∃ b, (s.write v n).net = some { n with stray := b } := by
  cases hframe : s.pc.frame with
  | none =>
    rw [write_of_no_frame hframe]
    exact ⟨rfl, Iff.rfl, Iff.rfl, true, rfl⟩
  | some b =>
    cases hpc : s.pc with
    | idle | joining => exact nomatch hpc ▸ hframe
    | polling c b | sleeping c b =>
      simp only [State.write, hpc]
      exact ⟨trivial, by simp, by simp, n.stray, rfl⟩

/-- The server thread comes to an end of its start. -/
theorem Begun.write (hb : Begun s) (hn : s.net = some n) (hserver : n.server = .binding) (v : ℤ)
    {server : Server} (hall : server = .waiting → n.ports ≤ n.started) :
    Begun (s.write v { n with server := server }) := by
  obtain ⟨hterm, hidle, hjoining, b, hnet⟩ := write_frame (s := s) (n := { n with server }) v
  refine ⟨fun h => hidle.mpr (hb.alive (hterm ▸ h)), fun m hm hwaiting => ?_,
    fun hpc m hm hshut _ => ?_⟩
  · obtain rfl := Option.some.inj (hnet.symm.trans hm)
    exact hall hwaiting
  · obtain rfl := Option.some.inj (hnet.symm.trans hm)
    exact hb.early (hjoining.mp hpc) n hn hshut (by rw [hserver]; exact nofun)

theorem Begun.step (hi : Inv s) (hb : Begun s) (halive : s.terminated = false)
    (h : Moves s a t) : Begun t := by
  have hdead (h : s.terminated = true) : False := by
    rw [halive] at h
    cases h
  cases h with
  | refused | noMemory | answered => exact ⟨fun _ => rfl, hb.all, nofun⟩
  | again => exact ⟨fun _ => rfl, hb.all, nofun⟩
  | noServerThread ports hpc hn => exact ⟨fun _ => hpc, hb.all, hb.early⟩
  | created ports hpc hn =>
    refine ⟨fun h => (hdead h).elim, fun m hm hwaiting => ?_, nofun⟩
    obtain rfl := Option.some.inj hm
    cases hwaiting
  | asleep | retried => exact ⟨fun h => (hdead h).elim, hb.all, nofun⟩
  | gaveUp c b n hpc hn =>
    refine ⟨fun _ => rfl, fun m hm hwaiting => ?_, nofun⟩
    obtain rfl := Option.some.inj hm
    exact hb.all n hn hwaiting
  | started n hn hserver hlt =>
    refine ⟨hb.alive, fun m hm hwaiting => ?_, fun hpc m hm hshut _ => ?_⟩
    · obtain rfl := Option.some.inj hm
      exact nomatch hserver.symm.trans hwaiting
    · obtain rfl := Option.some.inj hm
      exact hb.early hpc n hn hshut (by rw [hserver]; exact nofun)
  | failed n hn hserver hlt => exact hb.write hn hserver 0 nofun
  | listening n ok hn hserver hge => exact hb.write hn hserver 1 fun _ => hge
  | left n hn hserver hshut =>
    refine ⟨hb.alive, fun m hm hwaiting => ?_, fun hpc m hm _ hne => ?_⟩
    · obtain rfl := Option.some.inj hm
      cases hwaiting
    · obtain rfl := Option.some.inj hm
      exact absurd rfl hne
  | nothing hpc hn => exact hb
  | finishing n hpc hn =>
    refine ⟨fun h => (hdead h).elim, fun m hm hwaiting => ?_, fun _ m hm hshut hne => ?_⟩
    · obtain rfl := Option.some.inj hm
      exact hb.all n hn hwaiting
    · obtain rfl := Option.some.inj hm
      -- the messengers there are now are those that have been shut down
      have hnone : n.started = 0 := hshut
      cases hserver : n.server with
      | binding => exact (hi.late n hn (by rw [hpc]; rfl)).1 hserver
      | waiting =>
        have hall := hb.all n hn hserver
        have hpos := n.ports.pos
        omega
      | exited => exact absurd hserver hne
  | joined => exact ⟨fun _ => rfl, nofun, nofun⟩

theorem alive_of_step (h : step s a = some t) : s.terminated = false := by
  unfold step at h
  split_ifs at h with hterm
  exact Bool.eq_false_of_not_eq_true hterm

theorem begun_of_reach (h : Reach step Free {} s) : Begun s :=
  h.invariant_of_reach .init fun _ _ _ hreach hb _ hstep =>
    hb.step (inv_of_reach hreach) (alive_of_step hstep) (moves_of_step hstep)

/-- Nothing that can still happen shuts the first messenger down. -/
theorem stuck_step (h : Moves s a t) (hpc : s.pc = .joining) (hn : s.net = some n)
    (hstuck : n.Stuck) : t.pc = .joining ∧ ∃ m, t.net = some m ∧ m.Stuck := by
  obtain ⟨hshut, hne, hall⟩ := hstuck
  have hsame {m : Net} (hm : s.net = some m) : n = m := Option.some.inj (hn.symm.trans hm)
  cases h with
  | refused _ _ h | again _ _ _ h | noMemory _ h | noServerThread _ h | created _ h
  | asleep _ _ h | answered _ _ h | gaveUp _ _ _ h | retried _ _ h | nothing h
  | finishing _ h => exact nomatch hpc.symm.trans h
  | started m hm hserver hlt =>
    obtain rfl := hsame hm
    exact absurd hlt (not_lt.mpr hall)
  | failed m hm hserver hlt =>
    obtain rfl := hsame hm
    exact absurd hlt (not_lt.mpr hall)
  | listening m ok hm hserver hge =>
    obtain rfl := hsame hm
    obtain ⟨-, -, hjoining, b, hnet⟩ := write_frame (s := s) (n := { n with server := .waiting }) 1
    exact ⟨hjoining.mpr hpc, _, hnet, hshut, nofun, hall⟩
  | left m hm hserver hpos =>
    obtain rfl := hsame hm
    exact absurd hshut (Nat.ne_of_gt hpos)
  | joined m _ hm hexited =>
    obtain rfl := hsame hm
    exact absurd hexited hne

/-- Once the server thread has left, `OSA_Finish` comes to its end. -/
theorem returns_of_exited (halive : s.terminated = false) (hpc : s.pc = .joining)
    (hn : s.net = some n) (hserver : n.server = .exited) :
    ∃ t, Reach step Free s t ∧ t.pc = .idle := by
  have hjoin : step s .join = some { s with net := none, pc := .idle } := by
    simp [step, halive, hpc, hn, hserver]
  exact ⟨_, .tail .refl trivial hjoin, rfl⟩

/-- A first messenger that is shut down lets the server thread go. -/
theorem returns_of_waiting (halive : s.terminated = false) (hpc : s.pc = .joining)
    (hn : s.net = some n) (hserver : n.server = .waiting) (hshut : 0 < n.shut) :
    ∃ t, Reach step Free s t ∧ t.pc = .idle := by
  have hleave : step s .leave = some { s with net := some { n with server := .exited } } := by
    simp [step, halive, hn, hserver, hshut]
  obtain ⟨t, hreach, hidle⟩ := returns_of_exited
    (s := { s with net := some { n with server := .exited } }) halive hpc rfl rfl
  exact ⟨t, (Reach.tail .refl trivial hleave).trans hreach, hidle⟩

/-- A start that has come to its end while `OSA_Finish` waits. -/
theorem serve_joining (halive : s.terminated = false) (hpc : s.pc = .joining)
    (hn : s.net = some n) (hserver : n.server = .binding) (hall : n.ports ≤ n.started) (ok : Bool) :
    step s (.serve ok) =
      some { s with net := some { n with server := .waiting, stray := true } } := by
  have hframe : s.pc.frame = none := by rw [hpc]; rfl
  simp [step, halive, hn, hserver, serve, not_lt.mpr hall, write_of_no_frame hframe]

theorem returns_of_not_stuck (hb : Begun s) (hpc : s.pc = .joining) (hn : s.net = some n)
    (h : ¬ n.Stuck) : ∃ t, Reach step Free s t ∧ t.pc = .idle := by
  have halive : s.terminated = false := by
    refine Bool.eq_false_of_not_eq_true fun hterm => ?_
    exact nomatch hpc.symm.trans (hb.alive hterm)
  have hpos (hne : n.server ≠ .exited) (hall : n.ports ≤ n.started) : 0 < n.shut :=
    Nat.pos_of_ne_zero fun hzero => h ⟨hzero, hne, hall⟩
  cases hserver : n.server with
  | exited => exact returns_of_exited halive hpc hn hserver
  | waiting =>
    have hshut := hpos (by rw [hserver]; exact nofun) (hb.all n hn hserver)
    exact returns_of_waiting halive hpc hn hserver hshut
  | binding =>
    by_cases hall : n.ports ≤ n.started
    · have hshut := hpos (by rw [hserver]; exact nofun) hall
      have hserve := serve_joining halive hpc hn hserver hall true
      obtain ⟨t, hreach, hidle⟩ := returns_of_waiting
        (s := { s with net := some { n with server := .waiting, stray := true } })
        halive hpc rfl rfl hshut
      exact ⟨t, (Reach.tail .refl trivial hserve).trans hreach, hidle⟩
    · -- the next messenger may still fail to start
      have hframe : s.pc.frame = none := by rw [hpc]; rfl
      have hserve : step s (.serve false) =
          some { s with net := some { n with server := .exited, stray := true } } := by
        simp [step, halive, hn, hserver, serve, not_le.mp hall, write_of_no_frame hframe]
      obtain ⟨t, hreach, hidle⟩ := returns_of_exited
        (s := { s with net := some { n with server := .exited, stray := true } })
        halive hpc rfl rfl
      exact ⟨t, (Reach.tail .refl trivial hserve).trans hreach, hidle⟩

/-- **What `OSA_Finish` waits for.** It can come to its end exactly if there is no messenger the
server thread will wait for that `FinishMessenger` has missed, and it misses one only where
`OSA_Init` had given up on the server thread. -/
theorem osaFinish_returns_iff (h : Reach step Free {} s) (hpc : s.pc = .joining)
    (hn : s.net = some n) : ((∃ t, Reach step Free s t ∧ t.pc = .idle) ↔ ¬ n.Stuck) ∧
      (n.Stuck → n.gaveUp = true) := by
  have hb := begun_of_reach h
  refine ⟨⟨?_, returns_of_not_stuck hb hpc hn⟩, fun hstuck => ?_⟩
  · rintro ⟨t, hreach, hidle⟩ hstuck
    have hstays : t.pc = .joining ∧ ∃ m, t.net = some m ∧ m.Stuck :=
      hreach.invariant (I := fun u => u.pc = .joining ∧ ∃ m, u.net = some m ∧ m.Stuck)
        ⟨hpc, n, hn, hstuck⟩ fun _ _ _ hu _ hstep => by
          obtain ⟨hjoining, m, hm, hs⟩ := hu
          exact stuck_step (moves_of_step hstep) hjoining hm hs
    exact nomatch hidle.symm.trans hstays.1
  · exact hb.early hpc n hn hstuck.1 hstuck.2.1

/-- `OSA_Finish` is called on a server thread that has started nothing yet, and then does. -/
theorem osaFinish_returns_iff_early :
    ∃ s, Reach step Free {} s ∧ s.pc = .joining ∧ ¬ ∃ t, Reach step Free s t ∧ t.pc = .idle := by
  obtain ⟨s, hreach, hs⟩ := exists_reach_of_run step Free {}
    (timeout ++ [.finish, .serve true, .serve true])
    (fun s => s.pc = .joining ∧ s.net.any fun n => n.shut = 0 ∧ n.server = .waiting)
    (by decide +kernel) fun _ _ _ => trivial
  obtain ⟨hpc, hnet⟩ := of_decide_eq_true hs
  obtain ⟨n, hn, h⟩ := (Option.any_eq_true _ _).mp hnet
  obtain ⟨hshut, hserver⟩ := of_decide_eq_true h
  have hstuck : n.Stuck := by
    refine ⟨hshut, ?_, (begun_of_reach hreach).all n hn hserver⟩
    rw [hserver]
    exact nofun
  exact ⟨s, hreach, hpc, fun h => (osaFinish_returns_iff hreach hpc hn).1.mp h hstuck⟩

end Steps

end GcAdaptor.ServerStart
