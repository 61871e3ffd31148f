/-
The **table of contexts by pool** (`ceph_proxy/PoolContext.h`) and its two users in
`ceph_proxy/CephProxy.cc`: `GetIoCtx` asks for a pool by name, `GetIoCtx2` by number.

Both look the pool up, create a context if there is none, and insert it. Lookup and insertion
hold the lock, each for itself, so another call may come between them, and then both create a
context. Of two insertions the table of names keeps the second one and the table of numbers the
first one; nobody looks at the result. Creation always succeeds here.

Contexts are numbered as they are created. `ioCtxTable_good_iff` says that the table is right in
the end exactly if no call looks its pool up while another call for it is between the two steps.
-/
import GcAdaptor.Interleave
import GcAdaptor.Cxx

set_option autoImplicit false

namespace GcAdaptor.IoCtxTable

open GcAdaptor.Wire GcAdaptor.Cxx GcAdaptor.Interleave

/-! ## The table and the calls -/

inductive Key
  | name (pool : Bytes)
  | id (poolId : ℤ)
  deriving DecidableEq

/-- Where a call stands. `hit` is whether it has found its context in the table. -/
inductive Pc
  | lookup
  | create
  | insert (ioctx : ℕ)
  | returned (ioctx : ℕ) (hit : Bool)

structure Call where
  key : Key
  pc : Pc := .lookup

/-- Context `h` was created by the call `created[h]`. -/
structure State where
  table1 : List (Bytes × ℕ) := []
  table2 : List (ℤ × ℕ) := []
  created : List ℕ := []
  calls : List Call := []

namespace State

def getIoCtx (s : State) : Key → Option ℕ
  | .name pool => s.table1.lookup pool
  | .id poolId => s.table2.lookup poolId

/-- An assignment for a name, `insert` only where there is nothing for a number. -/
def insert (s : State) (ioctx : ℕ) : Key → State
  | .name pool => { s with table1 := mapSet pool ioctx s.table1 }
  | .id poolId => { s with table2 := mapInsert poolId ioctx s.table2 }

/-- What `Clear` releases. -/
def clear (s : State) : List ℕ := s.table1.map (·.2) ++ s.table2.map (·.2)

/-- Call `i` goes on to `pc`. -/
def move (s : State) (i : ℕ) (c : Call) (pc : Pc) : State :=
  { s with calls := s.calls.set i { c with pc := pc } }

end State

inductive Act
  /-- a thread calls `GetIoCtx` or `GetIoCtx2` -/
  | call (key : Key)
  /-- call `i` takes its next step, if it has not returned -/
  | next (i : ℕ)

def step (s : State) : Act → State
  | .call key => { s with calls := s.calls ++ [{ key := key }] }
  | .next i =>
    match s.calls[i]? with
    | none => s
    | some c =>
      match c.pc with
      | .lookup =>
        match s.getIoCtx c.key with
        | some ioctx => s.move i c (.returned ioctx true)
        | none => s.move i c .create
      | .create => { s.move i c (.insert s.created.length) with created := s.created ++ [i] }
      | .insert ioctx => (s.insert ioctx c.key).move i c (.returned ioctx false)
      | .returned _ _ => s

/-! ## What the calls should get -/

/-- The call has found nothing. -/
def Call.missed (c : Call) : Bool :=
  match c.pc with
  | .lookup => false
  | .returned _ hit => !hit
  | _ => true

/-- It has found nothing and has not inserted its context. -/
def Call.pending (c : Call) : Bool :=
  match c.pc with
  | .create | .insert _ => true
  | _ => false

/-- The context it has created. -/
def Call.own (c : Call) : Option ℕ :=
  match c.pc with
  | .insert ioctx | .returned ioctx false => some ioctx
  | _ => none

/-- One context a pool, and every context is in one of the tables when `Clear` runs. -/
structure Good (s : State) : Prop where
  same : ∀ c ∈ s.calls, ∀ c' ∈ s.calls, ∀ ioctx hit ioctx' hit', c.key = c'.key →
    c.pc = .returned ioctx hit → c'.pc = .returned ioctx' hit' → ioctx = ioctx'
  released : s.clear.Perm (List.range s.created.length)

/-- A call that looks its pool up is the only one for it before its insertion. -/
def Alone (s : State) : Act → Prop
  | .call _ => True
  | .next i => ∀ c, s.calls[i]? = some c → c.pc = .lookup →
      ∀ c' ∈ s.calls, c'.key = c.key → c'.pending = false

/-! ## One step -/

/-- What a step does. -/
inductive Stepped (s : State) : Act → State → Prop
  | call (key : Key) : Stepped s (.call key) { s with calls := s.calls ++ [{ key := key }] }
  | hit {i ioctx : ℕ} {c : Call} (hc : s.calls[i]? = some c) (hpc : c.pc = .lookup)
      (hfound : s.getIoCtx c.key = some ioctx) :
      Stepped s (.next i) (s.move i c (.returned ioctx true))
  | miss {i : ℕ} {c : Call} (hc : s.calls[i]? = some c) (hpc : c.pc = .lookup)
      (hnone : s.getIoCtx c.key = none) : Stepped s (.next i) (s.move i c .create)
  | create {i : ℕ} {c : Call} (hc : s.calls[i]? = some c) (hpc : c.pc = .create) :
      Stepped s (.next i)
        { s.move i c (.insert s.created.length) with created := s.created ++ [i] }
  | insert {i ioctx : ℕ} {c : Call} (hc : s.calls[i]? = some c) (hpc : c.pc = .insert ioctx) :
      Stepped s (.next i) ((s.insert ioctx c.key).move i c (.returned ioctx false))
  | idle {i : ℕ} (hidle : ∀ c, s.calls[i]? = some c → ∃ ioctx hit, c.pc = .returned ioctx hit) :
      Stepped s (.next i) s

theorem stepped (s : State) (a : Act) : Stepped s a (step s a) := by
  cases a with
  | call key => exact .call key
  | next i =>
    rw [step]
    cases hc : s.calls[i]? with
    | none => exact .idle fun c h => by rw [hc] at h; cases h
    | some c =>
      dsimp only
      cases hpc : c.pc with
      | lookup =>
        dsimp only
        cases hfound : s.getIoCtx c.key with
        | some ioctx => exact .hit hc hpc hfound
        | none => exact .miss hc hpc hfound
      | create => exact .create hc hpc
      | insert ioctx => exact .insert hc hpc
      | returned ioctx hit =>
        refine .idle fun c' h => ⟨ioctx, hit, ?_⟩
        obtain rfl := Option.some.inj (hc.symm.trans h)
        exact hpc

section Step

variable {s : State} {a : Act} {i : ℕ} {c : Call} {pc : Pc}

theorem getIoCtx_insert (s : State) (ioctx : ℕ) (key key' : Key) :
    (s.insert ioctx key).getIoCtx key' =
      if key' = key then some (match key with | .name _ => ioctx | .id _ => (s.getIoCtx key).getD ioctx)
      else s.getIoCtx key' := by
  cases key with
  | name pool =>
    cases key' with
    | name pool' => simp [State.insert, State.getIoCtx, lookup_mapSet]
    | id poolId' => simp [State.insert, State.getIoCtx]
  | id poolId =>
    cases key' with
    | name pool' => simp [State.insert, State.getIoCtx]
    | id poolId' => simp [State.insert, State.getIoCtx, lookup_mapInsert]

/-- What is found after an insertion was found before or has been inserted. -/
theorem getIoCtx_insert_cases {ioctx ioctx' : ℕ} {key key' : Key}
    (h : (s.insert ioctx key).getIoCtx key' = some ioctx') :
    key' = key ∧ ioctx' = ioctx ∨ s.getIoCtx key' = some ioctx' := by
  rw [getIoCtx_insert] at h
  split_ifs at h with hkey
  · subst hkey
    cases key' with
    | name pool => exact .inl ⟨rfl, (Option.some.inj h).symm⟩
    | id poolId =>
      cases hfound : s.getIoCtx (.id poolId) with
      | none =>
        rw [hfound] at h
        exact .inl ⟨rfl, (Option.some.inj h).symm⟩
      | some first =>
        rw [hfound] at h
        exact .inr h
  · exact .inr h

theorem isSome_insert {ioctx : ℕ} {key key' : Key}
    (h : key' = key ∨ (s.getIoCtx key').isSome) :
    ((s.insert ioctx key).getIoCtx key').isSome := by
  rw [getIoCtx_insert]
  split_ifs with hkey
  · rfl
  · exact h.resolve_left hkey

theorem getElem?_move (hc : s.calls[i]? = some c) (j : ℕ) :
    (s.move i c pc).calls[j]? = if j = i then some { c with pc := pc } else s.calls[j]? :=
  getElem?_set_of_some hc j

theorem mem_move_cases {c' : Call} (h : c' ∈ (s.move i c pc).calls) :
    c' = { c with pc := pc } ∨ c' ∈ s.calls := by
  rcases List.mem_or_eq_of_mem_set h with h | h
  · exact .inr h
  · exact .inl h

/-- A call that has returned stays as it is. -/
theorem mem_move_of_returned {c' : Call} {ioctx : ℕ} {hit : Bool} (hc : s.calls[i]? = some c)
    (hnot : ∀ ioctx hit, c.pc ≠ .returned ioctx hit) (h : c' ∈ s.calls)
    (hret : c'.pc = .returned ioctx hit) : c' ∈ (s.move i c pc).calls := by
  obtain ⟨j, hj⟩ := List.getElem?_of_mem h
  refine List.mem_of_getElem? (i := j) ?_
  rw [getElem?_move hc, if_neg, hj]
  rintro rfl
  obtain rfl := Option.some.inj (hc.symm.trans hj)
  exact hnot _ _ hret

/-- The books: who has created what, what the tables hold, and what calls have found. -/
structure Inv (s : State) : Prop where
  creator : ∀ ioctx j : ℕ, s.created[ioctx]? = some j ↔
    ∃ c : Call, s.calls[j]? = some c ∧ c.own = some ioctx
  found : ∀ key ioctx, s.getIoCtx key = some ioctx →
    ∃ c ∈ s.calls, c.key = key ∧ c.pc = .returned ioctx false
  hit : ∀ c ∈ s.calls, ∀ ioctx, c.pc = .returned ioctx true →
    ∃ c' ∈ s.calls, c'.key = c.key ∧ c'.pc = .returned ioctx false
  inserted : ∀ c ∈ s.calls, ∀ ioctx, c.pc = .returned ioctx false → (s.getIoCtx c.key).isSome

/-- A step of a call that has not returned and creates nothing. `t` is `s` with the tables as
the step leaves them. -/
theorem Inv.move {t : State} (hs : Inv s) (hcalls : t.calls = s.calls)
    (hcreated : t.created = s.created) (hc : s.calls[i]? = some c)
    (hnot : ∀ ioctx hit, c.pc ≠ .returned ioctx hit)
    (hown : ({ c with pc := pc } : Call).own = c.own)
    (hfound : ∀ key ioctx, t.getIoCtx key = some ioctx →
      key = c.key ∧ pc = .returned ioctx false ∨ s.getIoCtx key = some ioctx)
    (hkept : ∀ key, (s.getIoCtx key).isSome → (t.getIoCtx key).isSome)
    (hhit : ∀ ioctx, pc = .returned ioctx true → s.getIoCtx c.key = some ioctx)
    (hinserted : ∀ ioctx, pc = .returned ioctx false → (t.getIoCtx c.key).isSome) :
    Inv (t.move i c pc) := by
  have hct : t.calls[i]? = some c := hcalls ▸ hc
  -- the witnesses of the books are calls that have returned, and they do not move
  have hstays : ∀ c' ∈ s.calls, ∀ ioctx hit, c'.pc = .returned ioctx hit →
      c' ∈ (t.move i c pc).calls :=
    fun c' hc' _ _ hret => mem_move_of_returned hct hnot (hcalls ▸ hc') hret
  refine ⟨?_, ?_, ?_, ?_⟩
  · intro ioctx j
    show t.created[ioctx]? = some j ↔ _
    rw [hcreated, hs.creator, getElem?_move hct, hcalls]
    split_ifs with hj
    · subst hj
      simp only [hc, Option.some.injEq, exists_eq_left', hown]
    · rfl
  · intro key ioctx h
    rcases hfound key ioctx h with ⟨rfl, hpc⟩ | h
    · refine ⟨{ c with pc := pc }, List.mem_of_getElem? (i := i) ?_, rfl, hpc⟩
      rw [getElem?_move hct, if_pos rfl]
    · obtain ⟨c', hc', hkey, hret⟩ := hs.found key ioctx h
      exact ⟨c', hstays c' hc' _ _ hret, hkey, hret⟩
  · intro c' hc' ioctx hret
    have hbefore : ∃ d ∈ s.calls, d.key = c'.key ∧ d.pc = .returned ioctx false := by
      rcases mem_move_cases hc' with rfl | hc'
      · exact hs.found _ _ (hhit ioctx hret)
      · exact hs.hit c' (hcalls ▸ hc') ioctx hret
    obtain ⟨d, hd, hkey, hdret⟩ := hbefore
    exact ⟨d, hstays d hd _ _ hdret, hkey, hdret⟩
  · intro c' hc' ioctx hret
    rcases mem_move_cases hc' with rfl | hc'
    · exact hinserted ioctx hret
    · exact hkept _ (hs.inserted c' (hcalls ▸ hc') ioctx hret)

/-- A new context belongs to the call that creates it. -/
theorem Inv.create (hs : Inv s) (hc : s.calls[i]? = some c) (hpc : c.pc = .create) :
    Inv { s.move i c (.insert s.created.length) with created := s.created ++ [i] } := by
  have hnot : ∀ ioctx hit, c.pc ≠ .returned ioctx hit := by
    intro ioctx hit h
    rw [hpc] at h
    cases h
  refine ⟨?_, ?_, ?_, ?_⟩
  · intro ioctx j
    show (s.created ++ [i])[ioctx]? = some j ↔
      ∃ d, (s.move i c (.insert s.created.length)).calls[j]? = some d ∧ d.own = some ioctx
    -- the call has created nothing before
    have hself : ∀ ioctx : ℕ, s.created[ioctx]? ≠ some i := by
      intro ioctx h
      obtain ⟨d, hd, hown⟩ := (hs.creator ioctx i).mp h
      obtain rfl := Option.some.inj (hc.symm.trans hd)
      simp [Call.own, hpc] at hown
    rw [getElem?_move hc]
    split_ifs with hj
    · subst hj
      simp only [Option.some.injEq, exists_eq_left', Call.own]
      constructor
      · intro h
        rcases getElem?_concat_cases h with h | h
        · exact absurd h (hself ioctx)
        · exact h.1.symm
      · rintro rfl
        exact List.getElem?_concat_length
    · rw [← hs.creator]
      constructor
      · intro h
        rcases getElem?_concat_cases h with h | h
        · exact h
        · exact absurd h.2 hj
      · intro h
        exact getElem?_append_of_some h
  · intro key ioctx h
    obtain ⟨c', hc', hkey, hret⟩ := hs.found key ioctx h
    exact ⟨c', mem_move_of_returned hc hnot hc' hret, hkey, hret⟩
  · intro c' hc' ioctx hret
    rcases mem_move_cases hc' with rfl | hc'
    · cases hret
    · obtain ⟨d, hd, hkey, hdret⟩ := hs.hit c' hc' ioctx hret
      exact ⟨d, mem_move_of_returned hc hnot hd hdret, hkey, hdret⟩
  · intro c' hc' ioctx hret
    rcases mem_move_cases hc' with rfl | hc'
    · cases hret
    · exact hs.inserted c' hc' ioctx hret

theorem Inv.call (hs : Inv s) (key : Key) : Inv { s with calls := s.calls ++ [{ key := key }] } := by
  refine ⟨?_, ?_, ?_, ?_⟩
  · intro ioctx j
    show s.created[ioctx]? = some j ↔ _
    rw [hs.creator]
    constructor
    · rintro ⟨c, hc, hown⟩
      exact ⟨c, getElem?_append_of_some hc, hown⟩
    · rintro ⟨c, hc, hown⟩
      rcases getElem?_concat_cases hc with hc | ⟨-, rfl⟩
      · exact ⟨c, hc, hown⟩
      · cases hown
  · intro key' ioctx h
    obtain ⟨c, hc, hkey, hret⟩ := hs.found key' ioctx h
    exact ⟨c, List.mem_append_left _ hc, hkey, hret⟩
  · intro c hc ioctx hret
    rcases List.mem_append.mp hc with hc | hc
    · obtain ⟨d, hd, hkey, hdret⟩ := hs.hit c hc ioctx hret
      exact ⟨d, List.mem_append_left _ hd, hkey, hdret⟩
    · obtain rfl := List.mem_singleton.mp hc
      cases hret
  · intro c hc ioctx hret
    rcases List.mem_append.mp hc with hc | hc
    · exact hs.inserted c hc ioctx hret
    · obtain rfl := List.mem_singleton.mp hc
      cases hret

theorem Inv.step (hs : Inv s) (a : Act) : Inv (step s a) := by
  have hstep := stepped s a
  generalize IoCtxTable.step s a = t at hstep ⊢
  cases hstep with
  | call key => exact hs.call key
  | hit hc hpc hfound =>
    refine hs.move rfl rfl hc (by simp [hpc]) (by simp [Call.own, hpc]) (fun _ _ h => .inr h)
      (fun _ h => h) ?_ (by simp)
    rintro ioctx' ⟨⟩
    exact hfound
  | miss hc hpc hnone =>
    exact hs.move rfl rfl hc (by simp [hpc]) (by simp [Call.own, hpc]) (fun _ _ h => .inr h)
      (fun _ h => h) (by simp) (by simp)
  | create hc hpc => exact hs.create hc hpc
  | @insert i ioctx c hc hpc =>
    refine hs.move ?_ ?_ hc (by simp [hpc]) (by simp [Call.own, hpc]) ?_
      (fun _ h => isSome_insert (.inr h)) (by simp) fun _ _ => isSome_insert (.inl rfl)
    · cases c.key <;> rfl
    · cases c.key <;> rfl
    · intro key ioctx' h
      rcases getIoCtx_insert_cases h with ⟨rfl, rfl⟩ | h
      · exact .inl ⟨rfl, rfl⟩
      · exact .inr h
  | idle => exact hs

/-! Calls that find nothing. -/

/-- No two calls for one pool have found nothing. -/
def Distinct (s : State) : Prop :=
  ∀ (i j : ℕ) (c d : Call), s.calls[i]? = some c → s.calls[j]? = some d → c.key = d.key →
    c.missed = true → d.missed = true → i = j

/-- A call that has found nothing is pending or has inserted its context. -/
theorem missed_cases (h : c.missed = true) :
    c.pending = true ∨ ∃ ioctx, c.pc = .returned ioctx false := by
  cases hpc : c.pc with
  | returned ioctx hit => cases hit <;> simp_all [Call.missed]
  | _ => simp_all [Call.missed, Call.pending]

/-- A call stays one that has found nothing, for its pool. -/
theorem missed_step (hc : s.calls[i]? = some c) (hmissed : c.missed = true) (a : Act) :
    ∃ c', (step s a).calls[i]? = some c' ∧ c'.key = c.key ∧ c'.missed = true := by
  have hmove : ∀ {t : State} {j : ℕ} {d : Call} {pc : Pc}, t.calls = s.calls →
      s.calls[j]? = some d → (d.missed = true → ({ d with pc := pc } : Call).missed = true) →
      ∃ c', (t.move j d pc).calls[i]? = some c' ∧ c'.key = c.key ∧ c'.missed = true := by
    intro t j d pc hcalls hd hkeep
    rw [getElem?_move (hcalls ▸ hd), hcalls]
    split_ifs with hij
    · subst hij
      obtain rfl := Option.some.inj (hc.symm.trans hd)
      exact ⟨_, rfl, rfl, hkeep hmissed⟩
    · exact ⟨c, hc, rfl, hmissed⟩
  have hstep := stepped s a
  generalize step s a = t at hstep ⊢
  cases hstep with
  | call key =>
    exact ⟨c, getElem?_append_of_some hc, rfl, hmissed⟩
  | hit hd hpc => exact hmove rfl hd (by simp [Call.missed, hpc])
  | miss hd hpc => exact hmove rfl hd (by simp [Call.missed])
  | create hd hpc => exact hmove rfl hd (by simp [Call.missed])
  | @insert _ ioctx d hd hpc =>
    refine hmove ?_ hd (by simp [Call.missed])
    cases d.key <;> rfl
  | idle => exact ⟨c, hc, rfl, hmissed⟩

/-- So two of them stay two. -/
theorem distinct_of_step (h : Distinct (step s a)) : Distinct s := by
  intro i j c d hc hd hkey hcm hdm
  obtain ⟨c', hc', hckey, hcm'⟩ := missed_step hc hcm a
  obtain ⟨d', hd', hdkey, hdm'⟩ := missed_step hd hdm a
  exact h i j c' d' hc' hd' (by rw [hckey, hdkey, hkey]) hcm' hdm'

/-- A call that has found nothing had found nothing before the step, or it is the one that has
just looked. -/
theorem missed_before {j : ℕ} {d : Call} (hd : (step s a).calls[j]? = some d)
    (hmissed : d.missed = true) :
    (∃ d', s.calls[j]? = some d' ∧ d'.key = d.key ∧ d'.missed = true) ∨
      a = .next j ∧ ∃ c, s.calls[j]? = some c ∧ c.key = d.key ∧ c.pc = .lookup ∧
        s.getIoCtx c.key = none := by
  -- a step that is not a lookup leaves the flag of its call, and all others
  have hmove : ∀ {t : State} {i : ℕ} {c : Call} {pc : Pc}, t.calls = s.calls →
      s.calls[i]? = some c → (({ c with pc := pc } : Call).missed = true → c.missed = true) →
      (t.move i c pc).calls[j]? = some d →
      ∃ d', s.calls[j]? = some d' ∧ d'.key = d.key ∧ d'.missed = true := by
    intro t i c pc hcalls hc hkeep hd
    rw [getElem?_move (hcalls ▸ hc), hcalls] at hd
    split_ifs at hd with hji
    · subst hji
      obtain rfl := Option.some.inj hd
      exact ⟨c, hc, rfl, hkeep hmissed⟩
    · exact ⟨d, hd, rfl, hmissed⟩
  have hstep := stepped s a
  generalize step s a = t at hstep hd
  cases hstep with
  | call key =>
    rcases getElem?_concat_cases hd with hd | ⟨-, rfl⟩
    · exact .inl ⟨d, hd, rfl, hmissed⟩
    · cases hmissed
  | hit hc hpc => exact .inl (hmove rfl hc (by simp [Call.missed]) hd)
  | @miss i c hc hpc hnone =>
    rw [getElem?_move hc] at hd
    split_ifs at hd with hji
    · subst hji
      obtain rfl := Option.some.inj hd
      exact .inr ⟨rfl, c, hc, rfl, hpc, hnone⟩
    · exact .inl ⟨d, hd, rfl, hmissed⟩
  | create hc hpc => exact .inl (hmove rfl hc (by simp [Call.missed, hpc]) hd)
  | @insert _ ioctx c hc hpc =>
    refine .inl (hmove ?_ hc (by simp [Call.missed, hpc]) hd)
    cases c.key <;> rfl
  | idle => exact .inl ⟨d, hd, rfl, hmissed⟩

theorem missed_of_pending (h : c.pending = true) : c.missed = true := by
  cases hpc : c.pc <;> simp_all [Call.pending, Call.missed]

/-- A call that looks its pool up while another one is pending is the second to find nothing. -/
theorem alone_of_distinct_step (hs : Inv s) (h : Distinct (step s a)) : Alone s a := by
  cases a with
  | call key => trivial
  | next i =>
    intro c hc hpc c' hc' hkey
    by_contra hpending
    rw [Bool.not_eq_false] at hpending
    obtain ⟨j, hj⟩ := List.getElem?_of_mem hc'
    have hmissed := missed_of_pending hpending
    cases hfound : s.getIoCtx c.key with
    | some ioctx =>
      -- then somebody else has found nothing either
      obtain ⟨d, hd, hdkey, hdret⟩ := hs.found _ _ hfound
      obtain ⟨l, hl⟩ := List.getElem?_of_mem hd
      have hjl := distinct_of_step h j l c' d hj hl (by rw [hkey, hdkey]) hmissed
        (by simp [Call.missed, hdret])
      subst hjl
      obtain rfl := Option.some.inj (hj.symm.trans hl)
      simp [Call.pending, hdret] at hpending
    | none =>
      have hmove : step s (.next i) = s.move i c .create := by
        simp only [step, hc, hpc, hfound]
      have hne : j ≠ i := by
        rintro rfl
        obtain rfl := Option.some.inj (hc.symm.trans hj)
        simp [Call.pending, hpc] at hpending
      rw [hmove] at h
      have hi : (s.move i c .create).calls[i]? = some { c with pc := .create } := by
        rw [getElem?_move hc, if_pos rfl]
      have hj' : (s.move i c .create).calls[j]? = some c' := by
        rw [getElem?_move hc, if_neg hne, hj]
      exact hne (h j i c' _ hj' hi hkey hmissed rfl)

/-- A call that is alone and finds nothing is the first one. -/
theorem not_missed_of_alone {j : ℕ} {d : Call} (hs : Inv s) (halone : Alone s (.next i))
    (hc : s.calls[i]? = some c) (hpc : c.pc = .lookup) (hnone : s.getIoCtx c.key = none)
    (hd : s.calls[j]? = some d) (hkey : d.key = c.key) : d.missed ≠ true := by
  intro hmissed
  have hmem := List.mem_of_getElem? hd
  rcases missed_cases hmissed with hpending | ⟨ioctx, hret⟩
  · rw [halone c hc hpc d hmem hkey] at hpending
    cases hpending
  · have hsome := hs.inserted d hmem ioctx hret
    rw [hkey, hnone] at hsome
    cases hsome

theorem distinct_step (hs : Inv s) (h : Distinct s) (halone : Alone s a) :
    Distinct (step s a) := by
  intro i j c d hc hd hkey hcm hdm
  -- each of the two had found nothing before, or has just looked
  rcases missed_before hc hcm with ⟨c', hc', hckey, hcm'⟩ | ⟨rfl, c', hc', hckey, hpc, hnone⟩
  · rcases missed_before hd hdm with ⟨d', hd', hdkey, hdm'⟩ | ⟨rfl, d', hd', hdkey, hpc, hnone⟩
    · exact h i j c' d' hc' hd' (by rw [hckey, hdkey, hkey]) hcm' hdm'
    · exact absurd hcm'
        (not_missed_of_alone hs halone hd' hpc hnone hc' (by rw [hckey, hdkey, hkey]))
  · rcases missed_before hd hdm with ⟨d', hd', hdkey, hdm'⟩ | ⟨ha, -⟩
    · exact absurd hdm'
        (not_missed_of_alone hs halone hc' hpc hnone hd' (by rw [hckey, hdkey, hkey]))
    · exact Act.next.inj ha

/-- Neither table has two entries for a pool. -/
structure Keys (s : State) : Prop where
  names : (s.table1.map (·.1)).Nodup
  ids : (s.table2.map (·.1)).Nodup

/-- Without two for a pool, an insertion finds nothing to replace. -/
theorem getIoCtx_of_insert {ioctx : ℕ} (hs : Inv s) (h : Distinct s) (hc : s.calls[i]? = some c)
    (hpc : c.pc = .insert ioctx) : s.getIoCtx c.key = none := by
  rw [Option.eq_none_iff_forall_ne_some]
  intro ioctx' hfound
  obtain ⟨d, hd, hkey, hret⟩ := hs.found _ _ hfound
  obtain ⟨j, hj⟩ := List.getElem?_of_mem hd
  have hij := h i j c d hc hj hkey.symm (by simp [Call.missed, hpc]) (by simp [Call.missed, hret])
  subst hij
  obtain rfl := Option.some.inj (hc.symm.trans hj)
  rw [hpc] at hret
  cases hret

theorem Keys.step (hk : Keys s) (hs : Inv s) (h : Distinct s) (a : Act) : Keys (step s a) := by
  have hstep := stepped s a
  generalize IoCtxTable.step s a = t at hstep ⊢
  cases hstep with
  | @insert i ioctx c hc hpc =>
    have hnone := getIoCtx_of_insert hs h hc hpc
    cases hkey : c.key with
    | name pool =>
      rw [hkey] at hnone
      exact ⟨nodup_keys_mapSet ioctx hk.names (not_mem_keys_of_lookup hnone), hk.ids⟩
    | id poolId =>
      rw [hkey] at hnone
      have hfresh := not_mem_keys_of_lookup hnone
      refine ⟨hk.names, ?_⟩
      show ((mapInsert poolId ioctx s.table2).map (·.1)).Nodup
      rw [mapInsert, if_neg hfresh]
      exact nodup_keys_mapSet ioctx hk.ids hfresh
  | call => exact ⟨hk.names, hk.ids⟩
  | hit => exact ⟨hk.names, hk.ids⟩
  | miss => exact ⟨hk.names, hk.ids⟩
  | create => exact ⟨hk.names, hk.ids⟩
  | idle => exact hk

end Step

/-! ## The end of a run -/

section Final

variable {s : State}

/-- All calls have returned. -/
def Done (s : State) : Prop := ∀ c ∈ s.calls, ∃ ioctx hit, c.pc = .returned ioctx hit

theorem mem_clear_iff (hk : Keys s) {ioctx : ℕ} :
    ioctx ∈ s.clear ↔ ∃ key, s.getIoCtx key = some ioctx := by
  rw [State.clear, List.mem_append, List.mem_map, List.mem_map]
  constructor
  · rintro (⟨⟨pool, ioctx⟩, hmem, rfl⟩ | ⟨⟨poolId, ioctx⟩, hmem, rfl⟩)
    · exact ⟨.name pool, lookup_of_mem hk.names hmem⟩
    · exact ⟨.id poolId, lookup_of_mem hk.ids hmem⟩
  · rintro ⟨key, h⟩
    cases key with
    | name pool => exact .inl ⟨_, mem_of_lookup h, rfl⟩
    | id poolId => exact .inr ⟨_, mem_of_lookup h, rfl⟩

theorem Inv.creator_of_returned (hs : Inv s) {i ioctx : ℕ} {c : Call} (hi : s.calls[i]? = some c)
    (hret : c.pc = .returned ioctx false) : s.created[ioctx]? = some i :=
  (hs.creator ioctx i).mpr ⟨c, hi, by simp [Call.own, hret]⟩

/-- A context is in the tables for the one pool its creator was called for. -/
theorem key_unique (hs : Inv s) (key key' : Key) {ioctx : ℕ} (h : s.getIoCtx key = some ioctx)
    (h' : s.getIoCtx key' = some ioctx) : key = key' := by
  obtain ⟨c, hc, rfl, hret⟩ := hs.found _ _ h
  obtain ⟨d, hd, rfl, hret'⟩ := hs.found _ _ h'
  obtain ⟨i, hi⟩ := List.getElem?_of_mem hc
  obtain ⟨j, hj⟩ := List.getElem?_of_mem hd
  have hci := hs.creator_of_returned hi hret
  have hdj := hs.creator_of_returned hj hret'
  obtain rfl := Option.some.inj (hci.symm.trans hdj)
  rw [Option.some.inj (hi.symm.trans hj)]

theorem nodup_clear (hs : Inv s) (hk : Keys s) : s.clear.Nodup := by
  rw [State.clear, List.nodup_append']
  refine ⟨hk.names.of_map.map_on ?_, hk.ids.of_map.map_on ?_, ?_⟩
  · rintro ⟨pool, ioctx⟩ hmem ⟨pool', ioctx'⟩ hmem' rfl
    have hkey := key_unique hs (.name pool) (.name pool')
      (lookup_of_mem hk.names hmem) (lookup_of_mem hk.names hmem')
    rw [Key.name.inj hkey]
  · rintro ⟨poolId, ioctx⟩ hmem ⟨poolId', ioctx'⟩ hmem' rfl
    have hkey := key_unique hs (.id poolId) (.id poolId')
      (lookup_of_mem hk.ids hmem) (lookup_of_mem hk.ids hmem')
    rw [Key.id.inj hkey]
  · intro ioctx hname hid
    obtain ⟨⟨pool, _⟩, hmem, rfl⟩ := List.mem_map.mp hname
    obtain ⟨⟨poolId, _⟩, hmem', rfl⟩ := List.mem_map.mp hid
    have hkey := key_unique hs (.name pool) (.id poolId)
      (lookup_of_mem hk.names hmem) (lookup_of_mem hk.ids hmem')
    cases hkey

/-- What a call has returned was created by a call for the same pool. -/
theorem exists_creator (hs : Inv s) {c : Call} {ioctx : ℕ} {hit : Bool} (hc : c ∈ s.calls)
    (hret : c.pc = .returned ioctx hit) :
    ∃ (i : ℕ) (d : Call), s.calls[i]? = some d ∧ d.key = c.key ∧ d.pc = .returned ioctx false := by
  cases hit with
  | false =>
    obtain ⟨i, hi⟩ := List.getElem?_of_mem hc
    exact ⟨i, c, hi, rfl, hret⟩
  | true =>
    obtain ⟨d, hd, hkey, hdret⟩ := hs.hit c hc ioctx hret
    obtain ⟨i, hi⟩ := List.getElem?_of_mem hd
    exact ⟨i, d, hi, hkey, hdret⟩

/-- Two calls that have returned contexts of their own for a pool have returned different ones. -/
theorem distinct_of_good (hs : Inv s) (hdone : Done s) (h : Good s) : Distinct s := by
  intro i j c d hi hj hkey hcm hdm
  have hown : ∀ {l : ℕ} {e : Call}, s.calls[l]? = some e → e.missed = true →
      ∃ ioctx, e.pc = .returned ioctx false := by
    intro l e he hmissed
    obtain ⟨ioctx, hit, hret⟩ := hdone e (List.mem_of_getElem? he)
    cases hit with
    | false => exact ⟨ioctx, hret⟩
    | true => simp [Call.missed, hret] at hmissed
  obtain ⟨ioctx, hret⟩ := hown hi hcm
  obtain ⟨ioctx', hret'⟩ := hown hj hdm
  have hsame := h.same c (List.mem_of_getElem? hi) d (List.mem_of_getElem? hj) _ _ _ _ hkey
    hret hret'
  subst hsame
  have hci := hs.creator_of_returned hi hret
  have hdj := hs.creator_of_returned hj hret'
  exact Option.some.inj (hci.symm.trans hdj)

theorem Distinct.unique (h : Distinct s) {i j : ℕ} {c d : Call} {ioctx ioctx' : ℕ}
    (hi : s.calls[i]? = some c) (hj : s.calls[j]? = some d) (hkey : c.key = d.key)
    (hret : c.pc = .returned ioctx false) (hret' : d.pc = .returned ioctx' false) :
    ioctx = ioctx' := by
  have hij := h i j c d hi hj hkey (by simp [Call.missed, hret]) (by simp [Call.missed, hret'])
  subst hij
  obtain rfl := Option.some.inj (hi.symm.trans hj)
  rw [hret] at hret'
  cases hret'
  rfl

/-- What a call has created is in its table when all have returned. -/
theorem exists_key_of_lt (hs : Inv s) (h : Distinct s) (hdone : Done s) {ioctx : ℕ}
    (hlt : ioctx < s.created.length) : ∃ key, s.getIoCtx key = some ioctx := by
  obtain ⟨c, hc, hown⟩ := (hs.creator ioctx _).mp (List.getElem?_eq_getElem hlt)
  have hmem := List.mem_of_getElem? hc
  obtain ⟨ioctx', hit, hret⟩ := hdone c hmem
  obtain rfl : hit = false := by
    cases hit with
    | false => rfl
    | true => simp [Call.own, hret] at hown
  obtain rfl : ioctx' = ioctx := by simpa [Call.own, hret] using hown
  -- the table has something for its pool, and nobody else has created for it
  obtain ⟨found, hfound⟩ := Option.isSome_iff_exists.mp (hs.inserted c hmem ioctx' hret)
  obtain ⟨d, hd, hkey, hdret⟩ := hs.found _ _ hfound
  obtain ⟨j, hj⟩ := List.getElem?_of_mem hd
  obtain rfl := h.unique hj hc hkey hdret hret
  exact ⟨c.key, hfound⟩

theorem good_of_distinct (hs : Inv s) (hk : Keys s) (hdone : Done s) (h : Distinct s) :
    Good s := by
  refine ⟨?_, ?_⟩
  · intro c hc c' hc' ioctx hit ioctx' hit' hkey hret hret'
    obtain ⟨i, d, hi, hdkey, hdret⟩ := exists_creator hs hc hret
    obtain ⟨j, d', hj, hdkey', hdret'⟩ := exists_creator hs hc' hret'
    exact h.unique hi hj (by rw [hdkey, hdkey', hkey]) hdret hdret'
  · rw [List.perm_ext_iff_of_nodup (nodup_clear hs hk) List.nodup_range]
    intro ioctx
    rw [mem_clear_iff hk, List.mem_range]
    refine ⟨?_, exists_key_of_lt hs h hdone⟩
    rintro ⟨key, hfound⟩
    obtain ⟨c, hc, -, hret⟩ := hs.found _ _ hfound
    obtain ⟨i, hi⟩ := List.getElem?_of_mem hc
    exact (List.getElem?_eq_some_iff.mp (hs.creator_of_returned hi hret)).1

end Final

/-! ## Whole runs -/

/-- The state after the first `n` steps. -/
def after (acts : List Act) (n : ℕ) : State := Interleave.after step {} acts n

section Run

variable (acts : List Act)

theorem inv_after (n : ℕ) : Inv (after acts n) := by
  refine Interleave.after_invariant Free ⟨?_, ?_, ?_, ?_⟩ (fun s a hs _ => hs.step a)
    (fun _ _ _ => trivial) n
  · simp
  · intro key ioctx h
    cases key <;> cases h
  · rintro c ⟨⟩
  · rintro c ⟨⟩

/-- While every call is alone no two find nothing, and no insertion replaces anything. -/
theorem distinct_of_alone (h : ∀ n a, acts[n]? = some a → Alone (after acts n) a) (n : ℕ) :
    Inv (after acts n) ∧ Distinct (after acts n) ∧ Keys (after acts n) := by
  refine Interleave.after_invariant Alone (I := fun s => Inv s ∧ Distinct s ∧ Keys s)
    ⟨inv_after [] 0, ?_, ⟨List.nodup_nil, List.nodup_nil⟩⟩ ?_ h n
  · rintro i j c d ⟨⟩
  · rintro s a ⟨hs, hd, hk⟩ ha
    exact ⟨hs.step a, distinct_step hs hd ha, hk.step hs hd a⟩

/-- Two calls that have found nothing are there to the end. -/
theorem distinct_of_later {n : ℕ} (m : ℕ) (h : Distinct (after acts (n + m))) :
    Distinct (after acts n) := by
  induction m with
  | zero => exact h
  | succ m ih =>
    refine ih ?_
    cases ha : acts[n + m]? with
    | none =>
      rw [after, ← Nat.add_assoc, after_of_none ha] at h
      exact h
    | some a =>
      rw [after, ← Nat.add_assoc, after_succ ha] at h
      exact distinct_of_step h

theorem alone_of_distinct (h : Distinct (after acts acts.length)) (n : ℕ) (a : Act)
    (ha : acts[n]? = some a) : Alone (after acts n) a := by
  have hlt := (List.getElem?_eq_some_iff.mp ha).1
  have hnext : Distinct (after acts (n + 1)) := by
    refine distinct_of_later acts (acts.length - (n + 1)) ?_
    rwa [show n + 1 + (acts.length - (n + 1)) = acts.length by omega]
  rw [after, after_succ ha] at hnext
  exact alone_of_distinct_step (inv_after acts n) hnext

/-- **The table of contexts by pool.** When all calls have returned, they have one context a
pool, and `Clear` releases every context created, once, exactly if no call has looked its pool up
while another call for it was between its lookup and its insertion. -/
theorem ioCtxTable_good_iff (hdone : Done (after acts acts.length)) :
    Good (after acts acts.length) ↔ ∀ n a, acts[n]? = some a → Alone (after acts n) a := by
  have hs := inv_after acts acts.length
  constructor
  · intro h
    exact alone_of_distinct acts (distinct_of_good hs hdone h)
  · intro h
    obtain ⟨-, hd, hk⟩ := distinct_of_alone acts h acts.length
    exact good_of_distinct hs hk hdone hd

end Run

/-- One call for a name after the other. -/
def oneByOne : List Act :=
  [.call (.name [97]), .next 0, .next 0, .next 0, .call (.name [97]), .next 1]

instance (s : State) : Decidable (Done s) :=
  decidable_of_iff (s.calls.all fun c => match c.pc with | .returned _ _ => true | _ => false) <| by
    rw [List.all_eq_true, Done]
    refine forall₂_congr fun c _ => ?_
    cases c.pc <;> simp

theorem ioCtxTable_good_one_by_one :
    Good (after oneByOne oneByOne.length) ↔
      ∀ n a, oneByOne[n]? = some a → Alone (after oneByOne n) a :=
  ioCtxTable_good_iff oneByOne (by decide)

/-- Two calls for one pool that look it up before either has inserted its context. -/
def together (key : Key) : List Act :=
  [.call key, .call key, .next 0, .next 1, .next 0, .next 1, .next 0, .next 1]

/-- They return two contexts, and `Clear` releases one: the second of a name, the first of a
number. -/
theorem ioCtxTable_loses_context :
    (Done (after (together (.name [97])) 8) ∧ ¬ Good (after (together (.name [97])) 8) ∧
      (after (together (.name [97])) 8).clear = [1]) ∧
      Done (after (together (.id 5)) 8) ∧ ¬ Good (after (together (.id 5)) 8) ∧
        (after (together (.id 5)) 8).clear = [0] := by
  refine ⟨⟨by decide, ?_, by decide⟩, by decide, ?_, by decide⟩
  · intro h
    exact absurd h.released.length_eq (by decide)
  · intro h
    exact absurd h.released.length_eq (by decide)

end GcAdaptor.IoCtxTable
