/-
The client's sessions with Global Cache nodes, and the set `connections` by which the messenger
knows their connections (`Objecter::_get_session`, `nodeview_change_retry_op_submit`,
`ms_handle_reset`, `handle_osd_map`; `ProtocolV2::send_auth_request` and `handle_auth_done`).

A connection in the set is not authenticated: the messenger takes a dummy for its own part of
`cephx`. The sessions change under `rwlock`, which the messenger does not take. So there is a
moment in which a new connection is at work and not yet in the set, and one in which a connection
that is about to be closed has left it: `Window`.

`Inv.connections` says what the set is in every state. A connection with an OSD is never in it,
whatever address the connection has; one with a node of Global Cache is, but for these moments.
-/
import GcAdaptor.Cxx
import GcAdaptor.InFlight

set_option autoImplicit false

namespace GcAdaptor.GcSession

open GcAdaptor.Interleave GcAdaptor.InFlight

/-! ## The state -/

/-- The number of an osd, or of a port of a node of Global Cache. -/
abbrev Osd := BitVec 32

/-- The address of a `Connection` object. -/
abbrev Con := ℕ

/-- What the thread that has `rwlock` is about to do. -/
inductive Lock
  | free
  /-- `_get_session` has the connection and inserts it next -/
  | connected (con : Con)
  /-- these sessions are still to be closed -/
  | erasing (todo : List (Osd × Con))
  /-- the connection of this session is erased, the session is closed next -/
  | closing (s : Osd × Con) (todo : List (Osd × Con))
  deriving DecidableEq

structure State where
  /-- `osd_sessions` -/
  sessions : List (Osd × Con) := []
  connections : List Con := []
  /-- the connections that have not been freed, with the osd they are for -/
  links : List (Con × Osd) := []
  lock : Lock := .free
  /-- the two steps of the authentication the messenger has made, and whether with the dummy -/
  auths : List (Osd × Bool) := []

/-! ## The functions -/

/-- A `NodeInfo` of a node view. -/
structure NodeView where
  nodeId : BitVec 32
  up : Bool

/-- `CcmNodeChangeNotify`: the available nodes, where it goes on. -/
def ccmNodeChangeNotify (nodeList : List NodeView) : Option (List (BitVec 32)) :=
  let availableNodes := ((nodeList.filter (·.up)).map (·.nodeId)).dedup
  if nodeList.length = 0 ∨ nodeList.length - availableNodes.length = 0 then none
  else some availableNodes

inductive Act
  /-- `con` is what `connect_to_osd` gives if there is no session yet -/
  | getSession (osd : Osd) (con : Con)
  | nodeChange (clusterId : BitVec 32) (nodeList : List NodeView)
  /-- `up`: `initialized && osdmap->is_up(session->osd)`; `con'` is the connection of a session
  that is opened again -/
  | msHandleReset (con : Con) (up : Bool) (con' : Con)
  /-- a new map, in which these are down or elsewhere -/
  | handleOsdMap (down : List Osd)
  /-- the thread that has the lock goes on -/
  | proceed
  /-- the messenger makes a step of the authentication of `con` -/
  | authStep (con : Con)
  /-- the last reference to a connection goes -/
  | freeCon (con : Con)

section Step

/-- No `Connection` object that is still there has this address. -/
def State.fresh (s : State) (con : Con) : Bool := (s.links.lookup con).isNone

def getSession (s : State) (osd : Osd) (con : Con) : Option State :=
  if s.lock ≠ .free ∨ osd = -1 then none
  else if (s.sessions.lookup osd).isSome then some s
  else if s.fresh con then
    some { s with
      sessions := s.sessions ++ [(osd, con)]
      links := (con, osd) :: s.links
      lock := if checkOsdValue osd then .connected con else .free }
  else none

/-- The session a connection belongs to. -/
def sessionOf (s : State) (con : Con) : Option (Osd × Con) := s.sessions.find? fun e => e.2 = con

def msHandleReset (s : State) (con : Con) (up : Bool) (con' : Con) : Option State :=
  if s.lock ≠ .free then none
  else
    match sessionOf s con with
    | none => some s
    | some (osd, _) =>
      if checkOsdValue osd then some { s with lock := .erasing [(osd, con)] }
      else if !up then some s
      else if s.fresh con' then
        -- `_reopen_session`
        some { s with
          sessions := s.sessions.map fun e => if e.1 = osd then (osd, con') else e
          links := (con', osd) :: s.links }
      else none

def proceed (s : State) : Option State :=
  match s.lock with
  | .free => none
  | .connected con => some { s with connections := con :: s.connections, lock := .free }
  | .erasing [] => some { s with lock := .free }
  | .erasing (e :: todo) =>
    some { s with connections := s.connections.filter (· ≠ e.2), lock := .closing e todo }
  -- `close_session`
  | .closing e todo =>
    some { s with sessions := s.sessions.filter fun e' => e'.1 ≠ e.1, lock := .erasing todo }

def step (s : State) : Act → Option State
  | .getSession osd con => getSession s osd con
  | .nodeChange clusterId nodeList =>
    match ccmNodeChangeNotify nodeList with
    | none => some s
    | some availableNodes =>
      if s.lock ≠ .free then none
      else
        some { s with
          lock := .erasing (s.sessions.filter fun e => gone clusterId availableNodes (.osd e.1)) }
  | .msHandleReset con up con' => msHandleReset s con up con'
  | .handleOsdMap down =>
    if s.lock ≠ .free then none
    else
      some { s with sessions := s.sessions.filter fun e => checkOsdValue e.1 || e.1 ∉ down }
  | .proceed => proceed s
  | .authStep con =>
    (s.links.lookup con).map fun osd =>
      { s with auths := s.auths ++ [(osd, decide (con ∈ s.connections))] }
  | .freeCon con =>
    if s.sessions.any (fun e => e.2 = con) then none
    else some { s with links := s.links.filter fun e => e.1 ≠ con }

end Step

/-! ## The invariant -/

/-- `con` is in a session and not in the set. -/
def Window : Lock → Con → Prop
  | .free, _ => False
  | .connected con', con => con = con'
  | .erasing _, _ => False
  | .closing e _, con => con = e.2

instance (lock : Lock) (con : Con) : Decidable (Window lock con) := by
  cases lock <;> unfold Window <;> infer_instance

/-- The session of `con` is open, and `con` is in no window. -/
def Registered (s : State) (con : Con) : Prop :=
  ∃ osd, (osd, con) ∈ s.sessions ∧ checkOsdValue osd = true ∧ ¬ Window s.lock con

/-- The sessions the thread with the lock works on. -/
def Lock.held : Lock → List (Osd × Con)
  | .erasing todo => todo
  | .closing e todo => e :: todo
  | _ => []

structure Inv (s : State) : Prop where
  osds : (s.sessions.map (·.1)).Nodup
  cons : (s.sessions.map (·.2)).Nodup
  links : ∀ e ∈ s.sessions, s.links.lookup e.2 = some e.1
  connections : ∀ con, con ∈ s.connections ↔ Registered s con
  connected : ∀ con, s.lock = .connected con →
    ∃ osd, (osd, con) ∈ s.sessions ∧ checkOsdValue osd = true
  held : ∀ e ∈ s.lock.held, e ∈ s.sessions ∧ checkOsdValue e.1 = true
  heldNodup : (s.lock.held.map (·.1)).Nodup
  auths : ∀ osd, (osd, true) ∈ s.auths → checkOsdValue osd = true

section Invariant

variable {s t : State} {osd osd' : Osd} {con con' : Con} {e e' : Osd × Con}

theorem Inv.start : Inv {} where
  osds := List.nodup_nil
  cons := List.nodup_nil
  links := by simp
  connections con := by simp [Registered]
  connected con h := by simp at h
  held := by simp [Lock.held]
  heldNodup := by simp [Lock.held]
  auths := by simp

theorem Inv.eq_of_con (hi : Inv s) (he : e ∈ s.sessions) (he' : e' ∈ s.sessions)
    (h : e.2 = e'.2) : e = e' :=
  List.inj_on_of_nodup_map hi.cons he he' h

theorem Inv.eq_of_osd (hi : Inv s) (he : e ∈ s.sessions) (he' : e' ∈ s.sessions)
    (h : e.1 = e'.1) : e = e' :=
  List.inj_on_of_nodup_map hi.osds he he' h

/-- An address that is free is no connection of a session. -/
theorem Inv.ne_of_fresh (hi : Inv s) (hfresh : s.fresh con = true) (he : e ∈ s.sessions) :
    e.2 ≠ con := by
  rintro rfl
  rw [State.fresh, hi.links e he] at hfresh
  contradiction

/-- `links` after a connection has been made. -/
theorem lookup_cons_of_ne {links : List (Con × Osd)} (h : con ≠ con') :
    List.lookup con ((con', osd) :: links) = links.lookup con := by
  simp [List.lookup_cons, beq_eq_false_iff_ne.mpr h]

theorem not_mem_of_lookup (h : ¬ (s.sessions.lookup osd).isSome = true) (con : Con) :
    (osd, con) ∉ s.sessions := by
  intro hmem
  rw [Option.not_isSome_iff_eq_none, List.lookup_eq_none_iff] at h
  simpa using h _ hmem

/-- With the lock free, the set is that of the open sessions with Global Cache. -/
theorem Inv.connections_of_free (hi : Inv s) (hfree : s.lock = .free) :
    con ∈ s.connections ↔ ∃ osd, (osd, con) ∈ s.sessions ∧ checkOsdValue osd = true := by
  rw [hi.connections, Registered, hfree]
  simp only [Window, not_false_eq_true, and_true]

/-- A new session; its connection comes into the set at the next step, if it does. -/
theorem Inv.openSession (hi : Inv s) (hfree : s.lock = .free)
    (hnew : ∀ con, (osd, con) ∉ s.sessions) (hfresh : s.fresh con = true) :
    Inv { s with
      sessions := s.sessions ++ [(osd, con)]
      links := (con, osd) :: s.links
      lock := if checkOsdValue osd then .connected con else .free } := by
  have hheld : (if checkOsdValue osd then Lock.connected con else .free).held = [] := by
    split_ifs
    · rfl
    · rfl
  have hwindow (c : Con) : Window (if checkOsdValue osd then .connected con else .free) c ↔
      checkOsdValue osd = true ∧ c = con := by
    split_ifs with hgc <;> simp [Window, hgc]
  refine ⟨?_, ?_, fun e he => ?_, fun c => ?_, fun c hc => ?_, ?_, ?_, hi.auths⟩
  · rw [List.map_append, List.nodup_append]
    refine ⟨hi.osds, by simp, fun o ho o' ho' hoo => ?_⟩
    obtain ⟨⟨o₁, c₁⟩, hmem, rfl⟩ := List.mem_map.mp ho
    obtain rfl : o' = osd := by simpa using ho'
    exact hnew c₁ (hoo ▸ hmem)
  · rw [List.map_append, List.nodup_append]
    refine ⟨hi.cons, by simp, fun c hc c' hc' hcc => ?_⟩
    obtain ⟨e, hmem, rfl⟩ := List.mem_map.mp hc
    obtain rfl : c' = con := by simpa using hc'
    exact hi.ne_of_fresh hfresh hmem hcc
  · rcases List.mem_append.mp he with he | he
    · rw [lookup_cons_of_ne (hi.ne_of_fresh hfresh he), hi.links e he]
    · obtain rfl : e = (osd, con) := by simpa using he
      simp
  · simp only [Registered, List.mem_append, List.mem_singleton, hwindow]
    rw [hi.connections_of_free hfree]
    constructor
    · rintro ⟨o, hmem, hgc⟩
      exact ⟨o, .inl hmem, hgc, fun hw => hi.ne_of_fresh hfresh hmem hw.2⟩
    · rintro ⟨o, hmem | heq, hgc, hw⟩
      · exact ⟨o, hmem, hgc⟩
      · obtain ⟨rfl, rfl⟩ := Prod.mk.inj heq
        exact absurd ⟨hgc, rfl⟩ hw
  · by_cases hgc : checkOsdValue osd = true
    · obtain rfl : con = c := by simpa [hgc] using hc
      exact ⟨osd, by simp, hgc⟩
    · simp [hgc] at hc
  · rw [hheld]
    exact fun e he => absurd he List.not_mem_nil
  · rw [hheld]
    exact List.nodup_nil

theorem Inv.getSession (hi : Inv s) (hstep : getSession s osd con = some t) : Inv t := by
  rw [GcSession.getSession] at hstep
  by_cases hlock : s.lock ≠ .free ∨ osd = -1
  · rw [if_pos hlock] at hstep
    contradiction
  · rw [if_neg hlock] at hstep
    obtain ⟨hfree, -⟩ := not_or.mp hlock
    rw [ne_eq, not_not] at hfree
    by_cases hknown : (s.sessions.lookup osd).isSome = true
    · rw [if_pos hknown] at hstep
      cases hstep
      exact hi
    · rw [if_neg hknown] at hstep
      by_cases hfresh : s.fresh con = true
      · rw [if_pos hfresh] at hstep
        cases hstep
        exact hi.openSession hfree (not_mem_of_lookup hknown) hfresh
      · simp [hfresh] at hstep

theorem Inv.handleOsdMap (hi : Inv s) (hfree : s.lock = .free) (down : List Osd) :
    Inv { s with sessions := s.sessions.filter fun e => checkOsdValue e.1 || e.1 ∉ down } := by
  have hsub := List.filter_sublist (l := s.sessions)
    (p := fun e => checkOsdValue e.1 || decide (e.1 ∉ down))
  refine ⟨hi.osds.sublist (hsub.map _), hi.cons.sublist (hsub.map _),
    fun e he => hi.links e (hsub.subset he), fun c => ?_, fun c hc => by simp [hfree] at hc,
    by simp [hfree, Lock.held], by simp [hfree, Lock.held], hi.auths⟩
  rw [hi.connections, Registered, Registered]
  -- a session with Global Cache stays
  refine exists_congr fun o => ?_
  rw [List.mem_filter]
  constructor
  · rintro ⟨hmem, hgc, hwindow⟩
    exact ⟨⟨hmem, by simp [hgc]⟩, hgc, hwindow⟩
  · rintro ⟨⟨hmem, -⟩, hgc, hwindow⟩
    exact ⟨hmem, hgc, hwindow⟩

/-- Some open sessions of Global Cache are going to be closed. -/
theorem Inv.erasing (hi : Inv s) (hfree : s.lock = .free) {todo : List (Osd × Con)}
    (htodo : ∀ e ∈ todo, e ∈ s.sessions ∧ checkOsdValue e.1 = true)
    (hnodup : (todo.map (·.1)).Nodup) : Inv { s with lock := .erasing todo } := by
  refine ⟨hi.osds, hi.cons, hi.links, fun c => ?_, fun c hc => by simp at hc, htodo, hnodup,
    hi.auths⟩
  rw [hi.connections, Registered, Registered, hfree]
  simp [Window]

theorem mem_of_sessionOf (h : sessionOf s con = some e) : e ∈ s.sessions ∧ e.2 = con := by
  rw [sessionOf] at h
  exact ⟨List.mem_of_find?_eq_some h, by simpa using List.find?_some h⟩

/-- A session with an osd gets a new connection. -/
theorem Inv.reopen (hi : Inv s) (hfree : s.lock = .free) (hmem : (osd, con) ∈ s.sessions)
    (hosd : checkOsdValue osd = false) (hfresh : s.fresh con' = true) :
    Inv { s with
      sessions := s.sessions.map fun e => if e.1 = osd then (osd, con') else e
      links := (con', osd) :: s.links } := by
  have hosds : (s.sessions.map fun e => if e.1 = osd then (osd, con') else e).map (·.1) =
      s.sessions.map (·.1) := by
    rw [List.map_map]
    refine List.map_congr_left fun e _ => ?_
    rw [Function.comp_apply]
    split_ifs with he
    · exact he.symm
    · rfl
  refine ⟨hosds ▸ hi.osds, ?_, fun e he => ?_, fun c => ?_, fun c hc => by simp [hfree] at hc,
    by simp [hfree, Lock.held], by simp [hfree, Lock.held], hi.auths⟩
  · rw [List.map_map]
    refine List.Nodup.map_on (fun e he e' he' heq => ?_) (List.Nodup.of_map _ hi.osds)
    simp only [Function.comp_apply] at heq
    split_ifs at heq with h h' h'
    · exact hi.eq_of_osd he he' (h.trans h'.symm)
    · exact absurd heq.symm (hi.ne_of_fresh hfresh he')
    · exact absurd heq (hi.ne_of_fresh hfresh he)
    · exact hi.eq_of_con he he' heq
  · obtain ⟨e₀, he₀, rfl⟩ := List.mem_map.mp he
    split_ifs with h
    · simp
    · rw [lookup_cons_of_ne (hi.ne_of_fresh hfresh he₀), hi.links e₀ he₀]
  · rw [hi.connections, Registered, Registered]
    refine exists_congr fun o => ?_
    constructor
    · rintro ⟨hmem, hgc, hwindow⟩
      refine ⟨List.mem_map.mpr ⟨(o, c), hmem, if_neg ?_⟩, hgc, hwindow⟩
      rintro rfl
      rw [hosd] at hgc
      contradiction
    · rintro ⟨hmem, hgc, hwindow⟩
      obtain ⟨e₀, he₀, heq⟩ := List.mem_map.mp hmem
      split_ifs at heq with h
      · obtain ⟨rfl, rfl⟩ := Prod.mk.inj heq
        rw [hosd] at hgc
        contradiction
      · exact ⟨heq ▸ he₀, hgc, hwindow⟩

theorem Inv.msHandleReset {up : Bool} (hi : Inv s)
    (hstep : msHandleReset s con up con' = some t) : Inv t := by
  rw [GcSession.msHandleReset] at hstep
  by_cases hlock : s.lock = .free
  case neg =>
    rw [if_pos hlock] at hstep
    contradiction
  rw [if_neg (not_not.mpr hlock)] at hstep
  cases hsession : sessionOf s con with
  | none =>
    rw [hsession] at hstep
    cases hstep
    exact hi
  | some e =>
    obtain ⟨osd, c⟩ := e
    obtain ⟨hmem, rfl⟩ := mem_of_sessionOf hsession
    simp only [hsession] at hstep
    by_cases hgc : checkOsdValue osd = true
    · rw [if_pos hgc] at hstep
      cases hstep
      exact hi.erasing hlock (by simpa using ⟨hmem, hgc⟩) (by simp)
    · rw [if_neg hgc] at hstep
      split_ifs at hstep with hup hfresh
      · cases hstep
        exact hi
      · cases hstep
        exact hi.reopen hlock hmem (by simpa using hgc) hfresh

theorem Inv.proceed (hi : Inv s) (hstep : proceed s = some t) : Inv t := by
  rw [GcSession.proceed] at hstep
  cases hlock : s.lock with
  | free => simp [hlock] at hstep
  | connected con =>
    rw [hlock] at hstep
    cases hstep
    obtain ⟨osd, hmem, hgc⟩ := hi.connected con hlock
    refine ⟨hi.osds, hi.cons, hi.links, fun c => ?_, fun c hc => by simp at hc,
      by simp [Lock.held], by simp [Lock.held], hi.auths⟩
    rw [List.mem_cons, hi.connections, Registered, Registered, hlock]
    simp only [Window, not_false_eq_true, and_true]
    constructor
    · rintro (rfl | ⟨o, ho, hgco, -⟩)
      · exact ⟨osd, hmem, hgc⟩
      · exact ⟨o, ho, hgco⟩
    · rintro ⟨o, ho, hgco⟩
      by_cases hc : c = con
      · exact .inl hc
      · exact .inr ⟨o, ho, hgco, hc⟩
  | erasing todo =>
    rw [hlock] at hstep
    have hheld := hi.held
    have hnodup := hi.heldNodup
    rw [hlock] at hheld hnodup
    cases todo with
    | nil =>
      cases hstep
      refine ⟨hi.osds, hi.cons, hi.links, fun c => ?_, fun c hc => by simp at hc,
        by simp [Lock.held], by simp [Lock.held], hi.auths⟩
      rw [hi.connections, Registered, Registered, hlock]
      simp [Window]
    | cons e todo =>
      cases hstep
      refine ⟨hi.osds, hi.cons, hi.links, fun c => ?_, fun c hc => by simp at hc, hheld, hnodup,
        hi.auths⟩
      rw [List.mem_filter, hi.connections, Registered, Registered, hlock]
      simp only [Window, not_false_eq_true, and_true, decide_eq_true_eq]
      constructor
      · rintro ⟨⟨o, ho, hgc⟩, hne⟩
        exact ⟨o, ho, hgc, hne⟩
      · rintro ⟨o, ho, hgc, hne⟩
        exact ⟨⟨o, ho, hgc⟩, hne⟩
  | closing e todo =>
    rw [hlock] at hstep
    have hheld := hi.held
    have hnodup := hi.heldNodup
    rw [hlock] at hheld hnodup
    simp only [Lock.held, List.mem_cons, forall_eq_or_imp] at hheld
    simp only [Lock.held, List.map_cons, List.nodup_cons] at hnodup
    cases hstep
    have hsub := List.filter_sublist (l := s.sessions) (p := fun e' => decide (e'.1 ≠ e.1))
    refine ⟨hi.osds.sublist (hsub.map _), hi.cons.sublist (hsub.map _),
      fun e he => hi.links e (hsub.subset he), fun c => ?_, fun c hc => by simp at hc,
      fun e' he' => ?_, hnodup.2, hi.auths⟩
    · rw [hi.connections, Registered, Registered, hlock]
      simp only [Window, not_false_eq_true, and_true, List.mem_filter, decide_eq_true_eq]
      refine exists_congr fun o => ?_
      constructor
      · rintro ⟨ho, hgc, hne⟩
        refine ⟨⟨ho, fun hoe => hne ?_⟩, hgc⟩
        rw [← hi.eq_of_osd ho hheld.1.1 hoe]
      · rintro ⟨⟨ho, hne⟩, hgc⟩
        refine ⟨ho, hgc, fun hce => hne ?_⟩
        rw [← hi.eq_of_con ho hheld.1.1 hce]
    · refine ⟨List.mem_filter.mpr ⟨(hheld.2 e' he').1, ?_⟩, (hheld.2 e' he').2⟩
      refine decide_eq_true fun heq => hnodup.1 ?_
      exact heq ▸ List.mem_map_of_mem he'

/-- A registered connection is one with a node of Global Cache. -/
theorem Inv.gc_of_mem (hi : Inv s) (hcon : con ∈ s.connections)
    (hlink : s.links.lookup con = some osd) : checkOsdValue osd = true := by
  obtain ⟨o, hmem, hgc, -⟩ := (hi.connections con).mp hcon
  obtain rfl : o = osd := by simpa [hi.links _ hmem] using hlink
  exact hgc

theorem Inv.step {a : Act} (hi : Inv s) (hstep : step s a = some t) : Inv t := by
  cases a with
  | getSession osd con => exact hi.getSession hstep
  | msHandleReset con up con' => exact hi.msHandleReset hstep
  | proceed => exact hi.proceed hstep
  | nodeChange clusterId nodeList =>
    simp only [GcSession.step] at hstep
    cases hnotify : ccmNodeChangeNotify nodeList with
    | none =>
      rw [hnotify] at hstep
      cases hstep
      exact hi
    | some availableNodes =>
      simp only [hnotify] at hstep
      split_ifs at hstep with hlock
      cases hstep
      refine hi.erasing (by simpa using hlock) (fun e he => ?_) ?_
      · obtain ⟨hmem, hgone⟩ := List.mem_filter.mp he
        simp only [gone, Bool.and_eq_true] at hgone
        exact ⟨hmem, hgone.1.1⟩
      · exact hi.osds.sublist (List.filter_sublist.map _)
  | handleOsdMap down =>
    simp only [GcSession.step] at hstep
    split_ifs at hstep with hlock
    cases hstep
    exact hi.handleOsdMap (by simpa using hlock) down
  | authStep con =>
    obtain ⟨osd, hlink, rfl⟩ := Option.map_eq_some_iff.mp hstep
    refine ⟨hi.osds, hi.cons, hi.links, hi.connections, hi.connected, hi.held, hi.heldNodup,
      fun o ho => ?_⟩
    rcases List.mem_append.mp ho with ho | ho
    · exact hi.auths o ho
    · obtain ⟨rfl, hdummy⟩ : o = osd ∧ con ∈ s.connections := by simpa using ho
      exact hi.gc_of_mem hdummy hlink
  | freeCon con =>
    simp only [GcSession.step] at hstep
    split_ifs at hstep with hused
    cases hstep
    refine ⟨hi.osds, hi.cons, fun e he => ?_, hi.connections, hi.connected, hi.held, hi.heldNodup,
      hi.auths⟩
    have hne : e.2 ≠ con := fun heq => hused (List.any_eq_true.mpr ⟨e, he, by simpa using heq⟩)
    rw [Cxx.lookup_filter_ne, if_neg hne, hi.links e he]

end Invariant

/-! ## The authentication -/

section Authentication

variable {s t : State} {as : List Act}

theorem inv_of_reach (hreach : Reach step Free {} s) : Inv s :=
  hreach.invariant .start fun _ _ _ hi _ hstep => hi.step hstep

/-- **The set in every state.** In any interleaving of the threads that open, reset and close
sessions with the messenger, the set holds the connections of the open sessions with Global Cache,
but for the one that is being opened or closed; there is one session for each osd and one for each
connection; and no step of the authentication with an OSD has been the dummy. -/
theorem connections_exact (hreach : Reach step Free {} s) :
    (∀ con, con ∈ s.connections ↔ Registered s con) ∧
      (s.sessions.map (·.1)).Nodup ∧ (s.sessions.map (·.2)).Nodup ∧
      ∀ osd, checkOsdValue osd = false → (osd, true) ∉ s.auths := by
  have hi := inv_of_reach hreach
  refine ⟨hi.connections, hi.osds, hi.cons, fun osd hosd hmem => ?_⟩
  have hgc := hi.auths osd hmem
  rw [hosd] at hgc
  contradiction

/-- A session with osd 3 and one with Global Cache, which is reset in the end. -/
def twoSessions : List Act :=
  [.getSession 3 7, .authStep 7, .getSession nodeOne 8, .proceed, .authStep 8, .authStep 8,
    .handleOsdMap [3], .msHandleReset 8 false 0, .proceed]

theorem connections_exact_two_sessions :
    ∃ s, Reach step Free {} s ∧ s.sessions = [(nodeOne, 8)] ∧ Window s.lock 8 ∧
      (8 ∈ s.connections ↔ Registered s 8) ∧ (3, true) ∉ s.auths := by
  obtain ⟨s, hreach, hp⟩ := exists_reach_of_run step Free {} twoSessions
    (fun s => s.sessions = [(nodeOne, 8)] ∧ Window s.lock 8) (by decide) fun _ _ _ => trivial
  have hs := of_decide_eq_true hp
  obtain ⟨hconnections, -, -, hauths⟩ := connections_exact hreach
  exact ⟨s, hreach, hs.1, hs.2, hconnections 8, hauths 3 rfl⟩

/-- A step of the authentication with a node of Global Cache comes when the connection is
registered. -/
def Timely (s : State) : Act → Prop
  | .authStep con =>
    ∀ osd, s.links.lookup con = some osd → checkOsdValue osd = true → Registered s con
  | _ => True

/-- The dummy is used for Global Cache and for nothing else. -/
def Matching (s : State) : Prop := ∀ e ∈ s.auths, e.2 = checkOsdValue e.1

theorem auths_step {a : Act} (hstep : step s a = some t) (ha : ∀ con, a ≠ .authStep con) :
    t.auths = s.auths := by
  cases a with
  | authStep con => exact absurd rfl (ha con)
  | getSession osd con =>
    simp only [step, getSession] at hstep
    split_ifs at hstep
    all_goals cases hstep; rfl
  | nodeChange clusterId nodeList =>
    simp only [step] at hstep
    cases hnotify : ccmNodeChangeNotify nodeList with
    | none =>
      rw [hnotify] at hstep
      cases hstep
      rfl
    | some availableNodes =>
      simp only [hnotify] at hstep
      split_ifs at hstep
      cases hstep
      rfl
  | msHandleReset con up con' =>
    simp only [step, msHandleReset] at hstep
    cases hsession : sessionOf s con with
    | none =>
      simp only [hsession] at hstep
      split_ifs at hstep
      cases hstep
      rfl
    | some e =>
      simp only [hsession] at hstep
      split_ifs at hstep
      all_goals cases hstep; rfl
  | handleOsdMap down =>
    simp only [step] at hstep
    split_ifs at hstep
    cases hstep
    rfl
  | proceed =>
    simp only [step, proceed] at hstep
    split at hstep
    · contradiction
    all_goals cases hstep; rfl
  | freeCon con =>
    simp only [step] at hstep
    split_ifs at hstep
    cases hstep
    rfl

/-- One step keeps the match exactly if it is timely. -/
theorem matching_step (a : Act) (hi : Inv s) (hstep : step s a = some t) :
    Matching t ↔ Matching s ∧ Timely s a := by
  by_cases ha : ∃ con, a = .authStep con
  · obtain ⟨con, rfl⟩ := ha
    obtain ⟨osd, hlink, rfl⟩ := Option.map_eq_some_iff.mp hstep
    have hdummy : decide (con ∈ s.connections) = checkOsdValue osd ↔ Timely s (.authStep con) := by
      rw [Timely, Bool.eq_iff_iff, decide_eq_true_eq]
      constructor
      · intro h o ho hgc
        rw [hlink, Option.some.injEq] at ho
        exact (hi.connections con).mp (h.mpr (ho ▸ hgc))
      · intro h
        exact ⟨fun hcon => hi.gc_of_mem hcon hlink,
          fun hgc => (hi.connections con).mpr (h osd hlink hgc)⟩
    rw [← hdummy]
    simp [Matching, or_imp, forall_and]
  · have hsame := auths_step hstep fun con h => ha ⟨con, h⟩
    have htimely : Timely s a := by
      cases a with
      | authStep con => exact absurd ⟨con, rfl⟩ ha
      | _ => trivial
    rw [Matching, hsame, Matching]
    exact (and_iff_left htimely).symm

/-- **When the authentication fits the peer.** In a run every step of the authentication is the
dummy with Global Cache and `cephx` with an OSD if and only if the messenger makes no step on a
connection with Global Cache before `_get_session` has inserted it or after its session has begun
to be closed. -/
theorem auths_match_iff (hrun : run step {} as = some s) :
    Matching s ↔ ForallSteps step Timely {} as := by
  have h := forallSteps_iff (P := Timely) (fun _ _ _ hi hstep => hi.step hstep)
    (fun _ a _ hi hstep => matching_step a hi hstep) hrun Inv.start
  rw [h]
  exact and_iff_right (by simp [Matching])

/-- With the connections above the steps are in time; a messenger that is faster than
`_get_session` authenticates with Global Cache. -/
theorem auths_match_iff_two_sessions :
    ForallSteps step Timely {} twoSessions ∧
      ¬ ForallSteps step Timely {} [.getSession nodeOne 8, .authStep 8, .proceed] := by
  have hmatch (as : List Act) (b : Bool)
      (h : (run step {} as).any (fun s =>
        (s.auths.all fun e => e.2 == checkOsdValue e.1) == b) = true) :
      ForallSteps step Timely {} as ↔ b = true := by
    obtain ⟨s, hrun, hs⟩ := (Option.any_eq_true _ _).mp h
    rw [← auths_match_iff hrun, ← eq_of_beq hs, List.all_eq_true]
    exact forall₂_congr fun e _ => (beq_iff_eq (α := Bool)).symm
  refine ⟨(hmatch _ true (by decide)).mpr rfl, fun h => ?_⟩
  simpa using (hmatch _ false (by decide)).mp h

end Authentication

end GcAdaptor.GcSession
