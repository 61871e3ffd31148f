/-
What `CephLibrbdDiskUsage` counts (`ceph_proxy/RbdWrapper.cc`).

Where it succeeds, every pool that was listed has been opened by its name, every image in it has
been compared with its last snapshot, and every snapshot with the one before. The result is made
of exactly these comparisons.
-/
import GcAdaptor.RbdCalls

set_option autoImplicit false

namespace GcAdaptor.DiskUsage

open GcAdaptor.Wire GcAdaptor.Cxx GcAdaptor.CallTrace GcAdaptor.RbdCalls

/-! ## What is counted -/

/-- `snap` was compared with `fromSnap` from 0 to `size`, and these extents came back. -/
structure Diff where
  fromSnap : Option Bytes
  snap : Option Bytes
  size : ℕ
  extents : List (ℕ × Bool)

def diffOf : (Σ c, Answer c) → Option Diff
  | ⟨.diffIterate2 snap fromSnap size, r⟩ => some ⟨fromSnap, snap, size, r.2⟩
  | _ => none

def diffs (tr : Trace Answer) : List Diff := tr.filterMap diffOf

/-- What was compared with what, and how much of it. -/
def Diff.ends (d : Diff) : Option Bytes × Option Bytes × ℕ := (d.fromSnap, d.snap, d.size)

/-- The bytes of the extents that exist. -/
def Diff.used (d : Diff) : ℕ := ((d.extents.filter (·.2)).map (·.1)).sum

/-- The bytes that exist in all comparisons of a run. -/
def used (tr : Trace Answer) : ℕ := ((diffs tr).map Diff.used).sum

/-- Each snapshot with the one before it, and the image of this size with the last one. -/
def chain (snaps : List SnapInfo) (size : ℕ) : List (Option Bytes × Option Bytes × ℕ) :=
  (none :: snaps.map (snapFrom ·.name)).zip
    (snaps.map (fun snap => (some snap.name, snap.size)) ++ [(none, size)])

/-- The calls `tr` measure an image: its size is read and its snapshots are listed, and all of them
are compared in a chain. -/
def Measures (imageName : Bytes) (tr : Trace Answer) : Prop :=
  ∃ r state ret snaps, (∃ ret, ⟨.openReadOnly imageName none, ret⟩ ∈ tr) ∧
    ⟨.stat, (r, state)⟩ ∈ tr ∧ ⟨.snapList, (ret, snaps)⟩ ∈ tr ∧
    (diffs tr).map Diff.ends = chain snaps state.size

/-- The calls `tr` measure a pool: its images are listed, and each one is measured. -/
def Surveys (poolName : Bytes) (tr : Trace Answer) : Prop :=
  ∃ before ret images parts, tr = before ++ (parts.flatten ++ [⟨.ioctxClose, ()⟩]) ∧
    (∃ ret, ⟨.ioctxCreate poolName, ret⟩ ∈ before) ∧ ⟨.list2, (ret, images)⟩ ∈ before ∧
    diffs before = [] ∧ List.Forall₂ Measures images parts

variable {tr tr₁ tr₂ : Trace Answer}

@[simp] theorem diffs_nil : diffs [] = [] := rfl

@[simp] theorem diffs_append : diffs (tr₁ ++ tr₂) = diffs tr₁ ++ diffs tr₂ := List.filterMap_append

@[simp] theorem used_append : used (tr₁ ++ tr₂) = used tr₁ + used tr₂ := by simp [used]

/-- A part in which images are not compared. -/
theorem diffs_of_quiet {α : Type} {held : List Resource} {p : M α} {a : α}
    {held' : α → List Resource} {Q : α → Prop} (hp : Triple quiet held p held' Q)
    (h : Runs p tr a) : diffs tr = [] := by
  refine List.filterMap_eq_nil_iff.mpr ?_
  rintro ⟨c, r⟩ he
  have hquiet : (quiet ⟨c, r⟩).isSome := isSome_of_settle (hp tr a h).1 _ he
  cases c with
  | diffIterate2 => cases hquiet
  | _ => rfl

/-! The images. -/

theorem used_singleton (d : Diff) (e : Σ c, Answer c) (h : diffOf e = some d) :
    used [e] = d.used := by
  simp [used, diffs, h]

/-- The callback adds up the extents that exist. -/
theorem diffUsed_eq (d : Diff) : diffUsed d.extents = d.used % 2 ^ 64 := by
  have hgen (es : List (ℕ × Bool)) (n : ℕ) (hn : n < 2 ^ 64) :
      es.foldl (fun used e => if e.2 then add64 used e.1 else used) n =
        (n + ((es.filter (·.2)).map (·.1)).sum) % 2 ^ 64 := by
    induction es generalizing n with
    | nil => exact (Nat.mod_eq_of_lt hn).symm
    | cons e es ih =>
      rw [List.foldl_cons, List.filter_cons]
      split_ifs with he
      · rw [ih (add64 n e.1) (Nat.mod_lt _ (by norm_num)), List.map_cons, List.sum_cons, add64]
        omega
      · exact ih n hn
  rw [diffUsed, hgen _ 0 (by norm_num), Nat.zero_add, Diff.used]

/-- What is known of the loop over the snapshots where it ends well: the comparisons, with one of
the image behind them, and what they add up to. -/
structure Chained (snaps : List SnapInfo) (s : ℕ × Bytes) (tr : Trace Answer) (t : ℕ × Bytes) :
    Prop where
  ends (size : ℕ) : (diffs tr).map Diff.ends ++ [(snapFrom t.2, none, size)] =
    (snapFrom s.2 :: snaps.map (snapFrom ·.name)).zip
      (snaps.map (fun snap => (some snap.name, snap.size)) ++ [(none, size)])
  usage : s.1 < 2 ^ 64 → t.1 = (s.1 + used tr) % 2 ^ 64

theorem runs_snapTurn {imageName : Bytes} {s t : ℕ × Bytes} {snap : SnapInfo}
    (h : Runs (snapTurn imageName s snap) tr (.ok t)) :
    ∃ d : Diff, diffs tr = [d] ∧ d.ends = (snapFrom s.2, some snap.name, snap.size) ∧
      t = ((s.1 + d.used) % 2 ^ 64, snap.name) := by
  obtain ⟨r, tr₁, hopen, rfl⟩ := runs_perform_bind.mp h
  split_ifs at hopen
  · cases (runs_pure.mp hopen).2
  obtain ⟨⟨r', extents⟩, tr₂, hdiff, rfl⟩ := runs_perform_bind.mp hopen
  obtain ⟨u, tr₃, hclose, rfl⟩ := runs_perform_bind.mp hdiff
  split_ifs at hclose
  · cases (runs_pure.mp hclose).2
  obtain ⟨rfl, ht⟩ := runs_pure.mp hclose
  let d : Diff := ⟨snapFrom s.2, some snap.name, snap.size, extents⟩
  refine ⟨d, rfl, rfl, ?_⟩
  rw [Except.ok.inj ht, add64, diffUsed_eq d, Nat.add_mod_mod]

theorem runs_snapLoop {imageName : Bytes} {snaps : List SnapInfo} {s t : ℕ × Bytes}
    (h : Runs (loop (snapTurn imageName) snaps s) tr (.ok t)) : Chained snaps s tr t := by
  refine runs_loop Chained ?_ ?_ h
  · intro s
    exact ⟨fun _ => rfl, fun hs => (Nat.mod_eq_of_lt hs).symm⟩
  · intro snap snaps s s' t tr tr' hturn hrest
    obtain ⟨d, hd, hends, rfl⟩ := runs_snapTurn hturn
    refine ⟨fun size => ?_, fun hs => ?_⟩
    · rw [diffs_append, hd, List.map_append, List.append_assoc, hrest.ends size]
      simp [hends]
    · rw [hrest.usage (Nat.mod_lt _ (by norm_num)), used_append]
      simp only [used, hd, List.map_singleton, List.sum_singleton]
      omega

theorem runs_imageUsage {imageName : Bytes} {usage usage' : ℕ} {ret : ℤ}
    (h : Runs (imageUsage imageName usage) tr (.ok (ret, usage'))) :
    0 ≤ ret ∧ (usage < 2 ^ 64 → usage' = (usage + used tr) % 2 ^ 64) ∧
      ∃ r state r' snaps, ⟨.stat, (r, state)⟩ ∈ tr ∧ ⟨.snapList, (r', snaps)⟩ ∈ tr ∧
        (diffs tr).map Diff.ends = chain snaps state.size := by
  obtain ⟨⟨r, state⟩, tr₁, hstat, rfl⟩ := runs_perform_bind.mp h
  dsimp only at hstat
  split_ifs at hstat
  · cases (runs_pure.mp hstat).2
  obtain ⟨⟨r', snaps⟩, tr₂, hlist, rfl⟩ := runs_perform_bind.mp hstat
  dsimp only at hlist
  split_ifs at hlist
  · cases (runs_pure.mp hlist).2
  obtain ⟨tr₃, res, tr₄, hloop, hlast, rfl⟩ := runs_bind.mp hlist
  rcases res with e | ⟨usage₁, lastSnap⟩
  · cases (runs_pure.mp hlast).2
  obtain ⟨⟨r'', extents⟩, tr₅, hdiff, rfl⟩ := runs_perform_bind.mp hlast
  dsimp only at hdiff
  split_ifs at hdiff with hret
  · cases (runs_pure.mp hdiff).2
  obtain ⟨rfl, ht⟩ := runs_pure.mp hdiff
  obtain ⟨rfl, rfl⟩ := Prod.mk.inj (Except.ok.inj ht)
  have hchain := runs_snapLoop hloop
  -- the snapshots, and the image itself behind them
  let d : Diff := ⟨snapFrom lastSnap, none, state.size, extents⟩
  have hdiffs : diffs (⟨.stat, (r, state)⟩ :: ⟨.snapList, (r', snaps)⟩ :: (tr₃ ++
      [⟨.diffIterate2 none (snapFrom lastSnap) state.size, (ret, extents)⟩])) =
      diffs tr₃ ++ [d] := diffs_append
  refine ⟨not_lt.mp hret, fun hu => ?_, r, state, r', snaps, by simp, by simp, ?_⟩
  · have husage : usage₁ = (usage + used tr₃) % 2 ^ 64 := hchain.usage hu
    rw [used, hdiffs, List.map_append, List.sum_append, add64, diffUsed_eq d, husage, used]
    simp only [List.map_singleton, List.sum_singleton]
    omega
  · rw [hdiffs, List.map_append]
    exact hchain.ends state.size

theorem runs_calImageUsage {imageName : Bytes} {s t : ℤ × ℕ}
    (h : Runs (calImageUsage s imageName) tr (.ok t)) :
    0 ≤ t.1 ∧ (s.2 < 2 ^ 64 → t.2 = (s.2 + used tr) % 2 ^ 64) ∧ Measures imageName tr := by
  obtain ⟨r, tr₁, hopen, rfl⟩ := runs_perform_bind.mp h
  split_ifs at hopen
  · cases (runs_pure.mp hopen).2
  obtain ⟨tr₂, res, tr₃, himage, hclose, rfl⟩ := runs_bind.mp hopen
  obtain ⟨u, tr₄, hret, rfl⟩ := runs_perform_bind.mp hclose
  obtain ⟨rfl, rfl⟩ := runs_pure.mp hret
  obtain ⟨hnonneg, husage, r', state, r'', snaps, hstat, hsnaps, hends⟩ := runs_imageUsage himage
  have hdiffs : diffs (⟨.openReadOnly imageName none, r⟩ :: (tr₂ ++ [⟨.imageClose none, u⟩])) =
      diffs tr₂ := diffs_append.trans (List.append_nil _)
  refine ⟨hnonneg, fun hs => ?_, r', state, r'', snaps, ⟨r, by simp⟩, by simp [hstat],
    by simp [hsnaps], ?_⟩
  · rw [husage hs, used, used, hdiffs]
  · rw [hdiffs, hends]

/-- What is known of the loop over the images where it ends well. -/
structure Counted (images : List Bytes) (s : ℤ × ℕ) (tr : Trace Answer) (t : ℤ × ℕ) : Prop where
  ret : 0 ≤ s.1 → 0 ≤ t.1
  usage : s.2 < 2 ^ 64 → t.2 = (s.2 + used tr) % 2 ^ 64
  parts : ∃ parts, tr = List.flatten parts ∧ List.Forall₂ Measures images parts

theorem runs_imageLoop {images : List Bytes} {s t : ℤ × ℕ}
    (h : Runs (loop calImageUsage images s) tr (.ok t)) : Counted images s tr t := by
  refine runs_loop Counted ?_ ?_ h
  · intro s
    exact ⟨id, fun hs => (Nat.mod_eq_of_lt hs).symm, [], rfl, .nil⟩
  · intro image images s s' t tr tr' hturn hrest
    obtain ⟨hret, husage, hmeasures⟩ := runs_calImageUsage hturn
    obtain ⟨parts, rfl, hparts⟩ := hrest.parts
    refine ⟨fun _ => hrest.ret hret, fun hs => ?_, tr :: parts, rfl, .cons hmeasures hparts⟩
    rw [hrest.usage (by rw [husage hs]; exact Nat.mod_lt _ (by norm_num)), husage hs, used_append]
    omega

/-- The context is opened by the name of the pool. -/
theorem runs_ioctxInit {poolName ns : Bytes} {poolId ret : ℤ} (hname : poolName ≠ [])
    (h : Runs (ioctxInit poolName poolId ns) tr ret) (hret : ret ≠ -1) :
    ∃ r, ⟨.ioctxCreate poolName, r⟩ ∈ tr := by
  obtain ⟨flag, tr₁, hflag, rfl⟩ := runs_perform_bind.mp h
  split_ifs at hflag
  · exact absurd (runs_pure.mp hflag).2 hret
  rw [ioctxCreate, if_pos hname] at hflag
  obtain ⟨r, tr₂, hcreate, rfl⟩ := runs_perform_bind.mp hflag
  exact ⟨r, by simp⟩

theorem runs_poolUsage {s t : ℤ × List (SigPoolInfo × ℕ)} {info : SigPoolInfo}
    (hname : info.poolName ≠ []) (h : Runs (poolUsage s info) tr (.ok t)) :
    0 ≤ t.1 ∧ t.2 = s.2 ++ [(info, used tr % 2 ^ 64)] ∧ Surveys info.poolName tr := by
  obtain ⟨tr₁, r, tr₂, hinit, hlist, rfl⟩ := runs_bind.mp h
  split_ifs at hlist with hr
  · cases (runs_pure.mp hlist).2
  obtain ⟨⟨r', images⟩, tr₃, himages, rfl⟩ := runs_perform_bind.mp hlist
  dsimp only at himages
  split_ifs at himages with hr'
  · obtain ⟨u, tr₄, hfail, rfl⟩ := runs_perform_bind.mp himages
    cases (runs_pure.mp hfail).2
  obtain ⟨tr₄, res, tr₅, hloop, hclose, rfl⟩ := runs_bind.mp himages
  obtain ⟨u, tr₆, hret, rfl⟩ := runs_perform_bind.mp hclose
  rcases res with e | ⟨ret, usage⟩
  · cases (runs_pure.mp hret).2
  obtain ⟨rfl, ht⟩ := runs_pure.mp hret
  obtain rfl := Except.ok.inj ht
  have hcounted := runs_imageLoop hloop
  have hquiet := diffs_of_quiet (ioctxInit_triple _ _ _) hinit
  obtain ⟨parts, rfl, hparts⟩ := hcounted.parts
  refine ⟨hcounted.ret (not_lt.mp hr'), ?_, tr₁ ++ [⟨.list2, (r', images)⟩], r', images, parts,
    by simp, ?_, by simp, ?_, hparts⟩
  · have hused : used (tr₁ ++ ⟨.list2, (r', images)⟩ :: (parts.flatten ++ [⟨.ioctxClose, u⟩])) =
        used parts.flatten := by
      have hrest : diffs (⟨.list2, (r', images)⟩ :: (parts.flatten ++ [⟨.ioctxClose, u⟩])) =
          diffs parts.flatten := diffs_append.trans (List.append_nil _)
      rw [used, diffs_append, hquiet, hrest]
      rfl
    have husage : usage = (0 + used parts.flatten) % 2 ^ 64 := hcounted.usage (by norm_num)
    rw [hused, husage, Nat.zero_add]
  · obtain ⟨r'', hmem⟩ := runs_ioctxInit hname hinit (by omega)
    exact ⟨r'', List.mem_append_left _ hmem⟩
  · rw [diffs_append, hquiet]
    rfl

/-- What is known of the loop over the pools where it ends well. -/
structure Surveyed (infos : List SigPoolInfo) (s : ℤ × List (SigPoolInfo × ℕ)) (tr : Trace Answer)
    (t : ℤ × List (SigPoolInfo × ℕ)) : Prop where
  ret : 0 ≤ s.1 → 0 ≤ t.1
  parts : ∃ parts : List (SigPoolInfo × Trace Answer), parts.map (·.1) = infos ∧
    tr = (parts.map (·.2)).flatten ∧ t.2 = s.2 ++ parts.map (fun p => (p.1, used p.2 % 2 ^ 64)) ∧
    ∀ p ∈ parts, Surveys p.1.poolName p.2

theorem runs_usageLoop {infos : List SigPoolInfo} {s t : ℤ × List (SigPoolInfo × ℕ)}
    (hnames : ∀ info ∈ infos, info.poolName ≠ [])
    (h : Runs (loop poolUsage infos s) tr (.ok t)) : Surveyed infos s tr t := by
  refine runs_loop (fun infos s tr t => (∀ info ∈ infos, info.poolName ≠ []) →
    Surveyed infos s tr t) ?_ ?_ h hnames
  · intro s _
    exact ⟨id, [], rfl, rfl, by simp, by simp⟩
  · intro info infos s s' t tr tr' hturn hrest hnames
    obtain ⟨hret, hdone, hsurveys⟩ := runs_poolUsage (hnames info (by simp)) hturn
    obtain ⟨hret', parts, rfl, rfl, ht, hparts⟩ := hrest fun i hi => hnames i (by simp [hi])
    refine ⟨fun _ => hret' hret, (info, tr) :: parts, rfl, rfl, ?_, ?_⟩
    · rw [ht, hdone, List.append_assoc]
      rfl
    · rintro p hp
      rcases List.mem_cons.mp hp with rfl | hp
      · exact hsurveys
      · exact hparts p hp

/-! The pools. -/

/-- The numbers and the names in the reply of `ceph osd lspools`. -/
def listed (out : Bytes) : List (Bytes × Bytes) := (strtok 10 (cStr out)).filterMap poolLine

def entry (p : ℤ × Bytes × Bytes) : ℤ × SigPoolInfo := (p.1, { poolId := p.1, poolName := p.2.2 })

/-- No number has been refused. -/
def Accepted (tr : Trace Answer) : Prop := ∀ text r, ⟨.strtol text, r⟩ ∈ tr → r.2 = false

/-- What the loop over the lines has read: `ids` are the numbers of the first of them. -/
structure Read (lines : List (Bytes × Bytes)) (tr : Trace Answer) (ids : List ℤ) : Prop where
  le : ids.length ≤ lines.length
  all : Accepted tr → ids.length = lines.length
  answers : ∀ p ∈ ids.zip lines, ⟨.strtol p.2.1, (p.1, false)⟩ ∈ tr

theorem Read.mono {lines : List (Bytes × Bytes)} {ids : List ℤ} (h : Read lines tr₁ ids)
    (hsub : tr₁ ⊆ tr₂) : Read lines tr₂ ids :=
  ⟨h.le, fun hall => h.all fun text r hr => hall text r (hsub hr),
    fun p hp => hsub (h.answers p hp)⟩

theorem runs_poolLoop {lines : List Bytes} {poolMap poolMap' : List (ℤ × SigPoolInfo)}
    (h : Runs (poolLoop lines poolMap) tr poolMap') :
    ∃ ids : List ℤ, Read (lines.filterMap poolLine) tr ids ∧
      poolMap' = ((ids.zip (lines.filterMap poolLine)).map entry).foldl
        (fun m p => mapSet p.1 p.2 m) poolMap := by
  induction lines generalizing poolMap tr with
  | nil =>
    obtain ⟨-, rfl⟩ := runs_pure.mp h
    exact ⟨[], ⟨le_rfl, fun _ => rfl, by simp⟩, rfl⟩
  | cons line lines ih =>
    rw [poolLoop] at h
    rw [List.filterMap_cons]
    cases hline : poolLine line with
    | none =>
      rw [hline] at h
      exact ih h
    | some p =>
      rw [hline] at h
      obtain ⟨⟨poolId, refused⟩, tr₁, hread, rfl⟩ := runs_perform_bind.mp h
      dsimp only at hread ⊢
      cases refused with
      | true =>
        -- the pools behind a refused number are left out
        obtain ⟨rfl, rfl⟩ := runs_pure.mp hread
        refine ⟨[], ⟨Nat.zero_le _, fun hall => ?_, by simp⟩, rfl⟩
        cases hall p.1 (poolId, true) List.mem_cons_self
      | false =>
        obtain ⟨ids, hids, rfl⟩ := ih hread
        have hrest := hids.mono (List.subset_cons_self ⟨.strtol p.1, (poolId, false)⟩ tr₁)
        refine ⟨poolId :: ids, ⟨?_, ?_, ?_⟩, rfl⟩
        · exact Nat.succ_le_succ hrest.le
        · exact fun hall => congrArg Nat.succ (hrest.all hall)
        · rw [List.zip_cons_cons, List.forall_mem_cons]
          exact ⟨List.mem_cons_self, hrest.answers⟩

theorem ne_nil_of_mem_listed {out : Bytes} {p : Bytes × Bytes} (h : p ∈ listed out) : p.2 ≠ [] := by
  obtain ⟨line, -, hline⟩ := List.mem_filterMap.mp h
  unfold poolLine at hline
  dsimp only at hline
  split_ifs at hline with hcond
  obtain rfl := Option.some.inj hline
  exact hcond.2.2.1

/-- The names in the map are names that were listed. -/
theorem name_ne_nil_of_mem_mapOf {ids : List ℤ} {out : Bytes} {e : ℤ × SigPoolInfo}
    (h : e ∈ mapOf ((ids.zip (listed out)).map entry)) : e.2.poolName ≠ [] := by
  obtain ⟨p, hp, rfl⟩ := List.mem_map.mp ((mapOf_subperm _).subset h)
  exact ne_nil_of_mem_listed (List.of_mem_zip hp).2

/-- `z` is what was read behind `key` in one of the lines. -/
def ReadFrom (lines : List Bytes) (key : Bytes) (tr : Trace Answer) (z : ℤ) : Prop :=
  ∃ text r, (key, text) ∈ lines.filterMap assignLine ∧ ⟨.strtol text, r⟩ ∈ tr ∧ z = int32 r.1

/-- What the loop over the lines of a profile does to a pool. -/
structure Scale (lines : List Bytes) (tr : Trace Answer) (info info' : SigPoolInfo) : Prop where
  id : info'.poolId = info.poolId
  name : info'.poolName = info.poolName
  profile : info'.ecProfileName = info.ecProfileName
  k : info'.k = info.k ∨ ReadFrom lines (ascii ['k']) tr info'.k
  m : info'.m = info.m ∨ ReadFrom lines (ascii ['m']) tr info'.m

theorem ReadFrom.mono {lines lines' : List Bytes} {key : Bytes} {z : ℤ}
    (h : ReadFrom lines key tr₁ z) (hlines : lines ⊆ lines') (htr : tr₁ ⊆ tr₂) :
    ReadFrom lines' key tr₂ z := by
  obtain ⟨text, r, hline, hr, hz⟩ := h
  exact ⟨text, r, List.filterMap_subset _ hlines hline, htr hr, hz⟩

theorem Scale.mono {lines lines' : List Bytes} {info info' : SigPoolInfo}
    (h : Scale lines tr₁ info info') (hlines : lines ⊆ lines') (htr : tr₁ ⊆ tr₂) :
    Scale lines' tr₂ info info' :=
  ⟨h.id, h.name, h.profile, h.k.imp_right (·.mono hlines htr), h.m.imp_right (·.mono hlines htr)⟩

theorem Scale.trans {lines : List Bytes} {i j k : SigPoolInfo} (h₁ : Scale lines tr i j)
    (h₂ : Scale lines tr j k) : Scale lines tr i k where
  id := h₂.id.trans h₁.id
  name := h₂.name.trans h₁.name
  profile := h₂.profile.trans h₁.profile
  k := by
    rcases h₂.k with heq | hread
    · rw [heq]
      exact h₁.k
    · exact .inr hread
  m := by
    rcases h₂.m with heq | hread
    · rw [heq]
      exact h₁.m
    · exact .inr hread

theorem runs_scaleLoop {lines : List Bytes} {info info' : SigPoolInfo}
    (h : Runs (scaleLoop lines info) tr info') : Scale lines tr info info' := by
  induction lines generalizing info tr with
  | nil =>
    obtain ⟨-, rfl⟩ := runs_pure.mp h
    exact ⟨rfl, rfl, rfl, .inl rfl, .inl rfl⟩
  | cons line lines ih =>
    have hlines : lines ⊆ line :: lines := List.subset_cons_self line lines
    rw [scaleLoop] at h
    cases hline : assignLine line with
    | none =>
      rw [hline] at h
      exact (ih h).mono hlines fun _ he => he
    | some p =>
      obtain ⟨key, val⟩ := p
      have hmem : (key, val) ∈ (line :: lines).filterMap assignLine := by
        rw [List.filterMap_cons_some hline]
        exact List.mem_cons_self
      rw [hline] at h
      dsimp only at h
      split_ifs at h with hk hm
      · obtain ⟨⟨n, refused⟩, tr₁, hread, rfl⟩ := runs_perform_bind.mp h
        subst hk
        have hstep : Scale (line :: lines) (⟨.strtol val, (n, refused)⟩ :: tr₁) info
            { info with k := int32 n } :=
          ⟨rfl, rfl, rfl, .inr ⟨val, (n, refused), hmem, List.mem_cons_self, rfl⟩, .inl rfl⟩
        cases refused with
        | true =>
          obtain ⟨rfl, rfl⟩ := runs_pure.mp hread
          exact hstep
        | false => exact hstep.trans ((ih hread).mono hlines (List.subset_cons_self _ _))
      · obtain ⟨⟨n, refused⟩, tr₁, hread, rfl⟩ := runs_perform_bind.mp h
        subst hm
        have hstep : Scale (line :: lines) (⟨.strtol val, (n, refused)⟩ :: tr₁) info
            { info with m := int32 n } :=
          ⟨rfl, rfl, rfl, .inl rfl, .inr ⟨val, (n, refused), hmem, List.mem_cons_self, rfl⟩⟩
        cases refused with
        | true =>
          obtain ⟨rfl, rfl⟩ := runs_pure.mp hread
          exact hstep
        | false => exact hstep.trans ((ih hread).mono hlines (List.subset_cons_self _ _))
      · exact (ih h).mono hlines fun _ he => he

theorem runs_monCommand {cmd out : Bytes} {ret : ℤ} (h : Runs (monCommand cmd) tr (ret, out))
    (hret : ret ≠ -1) : ∃ r out', ⟨.monCommand cmd, (r, out')⟩ ∈ tr ∧
      (ret < 0 ∧ r = ret ∨ 0 ≤ r ∧ 0 ≤ ret ∧ out = cStr out') := by
  obtain ⟨flag, tr₁, hflag, rfl⟩ := runs_perform_bind.mp h
  split_ifs at hflag
  · obtain ⟨rfl, -⟩ := Prod.mk.inj (runs_pure.mp hflag).2
    exact absurd rfl hret
  obtain ⟨⟨r, out'⟩, tr₂, hmon, rfl⟩ := runs_perform_bind.mp hflag
  dsimp only at hmon
  split_ifs at hmon with hr
  · obtain ⟨rfl, hout⟩ := Prod.mk.inj (runs_pure.mp hmon).2
    exact ⟨ret, out', by simp, .inl ⟨hr, rfl⟩⟩
  · obtain ⟨rfl, rfl⟩ := Prod.mk.inj (runs_pure.mp hmon).2
    exact ⟨r, out', by simp, .inr ⟨not_lt.mp hr, le_rfl, rfl⟩⟩

theorem runs_getECPoolScale {info info' : SigPoolInfo}
    (h : Runs (getECPoolScale info) tr (.ok info')) :
    ∃ r out, ⟨.monCommand (profileGet info.ecProfileName), (r, out)⟩ ∈ tr ∧
      Scale (strtok 10 (cStr out)) tr info info' := by
  obtain ⟨tr₁, ⟨ret, outs⟩, tr₂, hmon, halloc, rfl⟩ := runs_bind.mp h
  dsimp only at halloc
  split_ifs at halloc with hret
  · cases (runs_pure.mp halloc).2
  obtain ⟨allocated, tr₃, hloop, rfl⟩ := runs_perform_bind.mp halloc
  split_ifs at hloop
  · cases (runs_pure.mp hloop).2
  obtain ⟨tr₄, info₁, tr₅, hscale, hdelete, rfl⟩ := runs_bind.mp hloop
  obtain ⟨u, tr₆, hok, rfl⟩ := runs_perform_bind.mp hdelete
  obtain rfl := Except.ok.inj (runs_pure.mp hok).2
  obtain rfl : ret = 0 := not_not.mp hret
  obtain ⟨r, out, hmem, ⟨hneg, -⟩ | ⟨-, -, rfl⟩⟩ := runs_monCommand hmon (by decide)
  · exact absurd hneg (lt_irrefl 0)
  refine ⟨r, out, List.mem_append_left _ hmem, (runs_scaleLoop hscale).mono (fun _ h => h) ?_⟩
  intro e he
  simp [he]

/-- The monitor has told `k` and `m` of the pool: it is replicated, or its profile has both. -/
def Rated (tr : Trace Answer) (info : SigPoolInfo) : Prop :=
  ∃ ret out, ⟨.monCommand (poolGet info.poolName), (ret, out)⟩ ∈ tr ∧
    (ret = -EACCES ∧ info.k = 1 ∧ info.m = 2 ∨
    0 ≤ ret ∧ profileLine (cStr out) = some info.ecProfileName ∧ ∃ ret' out',
      ⟨.monCommand (profileGet info.ecProfileName), (ret', out')⟩ ∈ tr ∧
      ReadFrom (strtok 10 (cStr out')) (ascii ['k']) tr info.k ∧
      ReadFrom (strtok 10 (cStr out')) (ascii ['m']) tr info.m)

/-- A pool of the map, with its scale. -/
structure Scaled (tr : Trace Answer) (e : ℤ × SigPoolInfo) (info : SigPoolInfo) : Prop where
  id : info.poolId = e.2.poolId
  name : info.poolName = e.2.poolName
  rated : Rated tr info
  divides : word64 info.k ≠ 0

theorem Rated.mono {info : SigPoolInfo} (h : Rated tr₁ info) (hsub : tr₁ ⊆ tr₂) :
    Rated tr₂ info := by
  obtain ⟨ret, out, hmem, hreplica | ⟨hret, hprofile, ret', out', hmem', hk, hm⟩⟩ := h
  · exact ⟨ret, out, hsub hmem, .inl hreplica⟩
  · exact ⟨ret, out, hsub hmem, .inr ⟨hret, hprofile, ret', out', hsub hmem',
      hk.mono (fun _ h => h) hsub, hm.mono (fun _ h => h) hsub⟩⟩

theorem Scaled.mono {e : ℤ × SigPoolInfo} {info : SigPoolInfo} (h : Scaled tr₁ e info)
    (hsub : tr₁ ⊆ tr₂) : Scaled tr₂ e info :=
  ⟨h.id, h.name, h.rated.mono hsub, h.divides⟩

/-- An `int` that is not 0 does not become 0 in a product of words. -/
theorem word64_int32_ne_zero {z : ℤ} (hz : int32 z ≠ 0) : word64 (int32 z) ≠ 0 := by
  unfold int32 at hz ⊢
  unfold word64
  omega

theorem runs_poolProperty {e : ℤ × SigPoolInfo} {info : SigPoolInfo}
    (h : Runs (poolProperty e.2) tr (.ok info)) : Scaled tr e info := by
  obtain ⟨tr₁, ⟨ret, outs⟩, tr₂, hmon, hrest, rfl⟩ := runs_bind.mp h
  dsimp only at hrest
  split_ifs at hrest with hneg hacces
  · obtain rfl := Except.ok.inj (runs_pure.mp hrest).2
    obtain ⟨r, out, hmem, ⟨-, rfl⟩ | ⟨-, hnonneg, -⟩⟩ :=
      runs_monCommand hmon (by rw [hacces]; decide)
    · have hone : word64 1 ≠ 0 := by decide
      exact ⟨rfl, rfl, ⟨r, out, List.mem_append_left _ hmem, .inl ⟨hacces, rfl, rfl⟩⟩, hone⟩
    · exact absurd hneg (not_lt.mpr hnonneg)
  · cases (runs_pure.mp hrest).2
  cases hprofile : profileLine outs with
  | none =>
    rw [hprofile] at hrest
    cases (runs_pure.mp hrest).2
  | some name =>
    rw [hprofile] at hrest
    obtain ⟨tr₃, r, tr₄, hscale, hcheck, rfl⟩ := runs_bind.mp hrest
    rcases r with err | info₁
    · cases (runs_pure.mp hcheck).2
    dsimp only at hcheck
    split_ifs at hcheck with hzero
    · cases (runs_pure.mp hcheck).2
    obtain ⟨rfl, hok⟩ := runs_pure.mp hcheck
    obtain rfl := Except.ok.inj hok
    obtain ⟨hk, hm⟩ := not_or.mp hzero
    obtain ⟨r, out, hmem, ⟨hlt, -⟩ | ⟨hr, -, rfl⟩⟩ :=
      runs_monCommand hmon (fun hret => hneg (by rw [hret]; decide))
    · exact absurd hlt hneg
    obtain ⟨r', out', hmem', hscaled⟩ := runs_getECPoolScale hscale
    have hsub : tr₃ ⊆ tr₁ ++ (tr₃ ++ []) := by
      intro x hx
      simp [hx]
    -- both start as 0, so that both have been read
    have hreadK := hscaled.k.resolve_left hk
    have hreadM := hscaled.m.resolve_left hm
    refine ⟨hscaled.id, hscaled.name, ⟨r, out, ?_, .inr ⟨hr, ?_, r', out', ?_,
      hreadK.mono (fun _ h => h) hsub, hreadM.mono (fun _ h => h) hsub⟩⟩, ?_⟩
    · rw [hscaled.name]
      exact List.mem_append_left _ hmem
    · rw [hscaled.profile]
      exact hprofile
    · rw [hscaled.profile]
      exact hsub hmem'
    · obtain ⟨text, r, -, -, hr⟩ := hreadK
      rw [hr] at hk ⊢
      exact word64_int32_ne_zero hk

theorem runs_calPoolProperty {poolMap : List (ℤ × SigPoolInfo)} {infos : List SigPoolInfo}
    (h : Runs (calPoolProperty poolMap) tr (.ok infos)) :
    List.Forall₂ (Scaled tr) poolMap infos := by
  have hloop : ∃ scaled, infos = [] ++ scaled ∧ List.Forall₂ (Scaled tr) poolMap scaled := by
    refine runs_loop (fun poolMap done tr infos =>
      ∃ scaled, infos = done ++ scaled ∧ List.Forall₂ (Scaled tr) poolMap scaled) ?_ ?_ h
    · intro done
      exact ⟨[], (List.append_nil _).symm, .nil⟩
    · intro e poolMap done done' infos tr tr' hturn hrest
      obtain ⟨tr₁, r, tr₂, hprop, hret, rfl⟩ := runs_bind.mp hturn
      rcases r with err | info
      · cases (runs_pure.mp hret).2
      obtain ⟨rfl, hok⟩ := runs_pure.mp hret
      obtain rfl := Except.ok.inj hok
      obtain ⟨scaled, rfl, hall⟩ := hrest
      refine ⟨info :: scaled, List.append_assoc .., .cons ?_ ?_⟩
      · exact (runs_poolProperty hprop).mono fun x hx => by simp [hx]
      · exact hall.imp fun e i h => h.mono (List.subset_append_right _ _)
  obtain ⟨scaled, rfl, hforall⟩ := hloop
  exact hforall

/-- `usage` is what the comparisons in `tr` come to: `out` is the list of pools, `ids` are the
numbers that were read in it, and each of `pools` has the calls that were made for it. -/
structure Reports (tr : Trace Answer) (usage : ℕ) (out : Bytes) (ids : List ℤ)
    (before : Trace Answer) (pools : List (SigPoolInfo × Trace Answer)) : Prop where
  listed_in : ∃ ret, ⟨.monCommand lspools, (ret, out)⟩ ∈ before
  calls : tr = before ++ (pools.map (·.2)).flatten
  before_quiet : diffs before = []
  read : Read (listed out) before ids
  all_pools : pools.map (fun p => (p.1.poolId, p.1.poolName)) =
    (mapOf ((ids.zip (listed out)).map entry)).map fun e => (e.2.poolId, e.2.poolName)
  surveyed : ∀ p ∈ pools, Surveys p.1.poolName p.2
  rated : ∀ p ∈ pools, Rated before p.1 ∧ word64 p.1.k ≠ 0
  usage_eq : usage =
    (pools.map fun p => share p.1 (used p.2 % 2 ^ 64)).sum % 2 ^ 64 / MB

theorem totalUsage_eq (pools : List (SigPoolInfo × ℕ)) :
    totalUsage pools = (pools.map fun p => share p.1 p.2).sum % 2 ^ 64 / MB := by
  have hgen (pools : List (SigPoolInfo × ℕ)) (n : ℕ) (hn : n < 2 ^ 64) :
      pools.foldl (fun usage p => add64 usage (share p.1 p.2)) n =
        (n + (pools.map fun p => share p.1 p.2).sum) % 2 ^ 64 := by
    induction pools generalizing n with
    | nil => exact (Nat.mod_eq_of_lt hn).symm
    | cons p pools ih =>
      rw [List.foldl_cons, ih (add64 n (share p.1 p.2)) (Nat.mod_lt _ (by norm_num)), List.map_cons,
        List.sum_cons, add64]
      omega
  rw [totalUsage, hgen _ 0 (by norm_num), Nat.zero_add]

theorem runs_parsePoolMap {out : Bytes} {poolMap : List (ℤ × SigPoolInfo)}
    (h : Runs (parsePoolMap (cStr out)) tr (.ok poolMap)) :
    ∃ ids : List ℤ, Read (listed out) tr ids ∧
      poolMap = mapOf ((ids.zip (listed out)).map entry) := by
  obtain ⟨allocated, tr₁, halloc, rfl⟩ := runs_perform_bind.mp h
  split_ifs at halloc
  · cases (runs_pure.mp halloc).2
  obtain ⟨tr₂, poolMap₁, tr₃, hloop, hdelete, rfl⟩ := runs_bind.mp halloc
  obtain ⟨u, tr₄, hret, rfl⟩ := runs_perform_bind.mp hdelete
  obtain rfl := Except.ok.inj (runs_pure.mp hret).2
  obtain ⟨ids, hread, heq⟩ := runs_poolLoop hloop
  exact ⟨ids, hread.mono fun e he => List.mem_cons_of_mem _ (List.mem_append_left _ he), heq⟩

theorem map_eq_of_scaled {poolMap : List (ℤ × SigPoolInfo)} {infos : List SigPoolInfo}
    (h : List.Forall₂ (Scaled tr) poolMap infos) :
    infos.map (fun info => (info.poolId, info.poolName)) =
      poolMap.map fun e => (e.2.poolId, e.2.poolName) := by
  induction h with
  | nil => rfl
  | cons hscaled _ ih => rw [List.map_cons, List.map_cons, ih, hscaled.id, hscaled.name]

theorem exists_of_scaled {poolMap : List (ℤ × SigPoolInfo)} {infos : List SigPoolInfo}
    (h : List.Forall₂ (Scaled tr) poolMap infos) :
    ∀ info ∈ infos, ∃ e ∈ poolMap, Scaled tr e info := by
  induction h with
  | nil => simp
  | cons hscaled _ ih =>
    intro info hinfo
    rcases List.mem_cons.mp hinfo with rfl | hinfo
    · exact ⟨_, List.mem_cons_self, hscaled⟩
    · obtain ⟨e, he, h⟩ := ih info hinfo
      exact ⟨e, List.mem_cons_of_mem _ he, h⟩

/-- Between `RadosInit` and `RadosShutdown`. -/
theorem runs_diskUsage {ret : ℤ} {usage : Option ℕ} (h : Runs diskUsage tr (ret, usage)) :
    ret < 0 ∧ usage = none ∨ 0 ≤ ret ∧ ∃ u out ids before pools, usage = some u ∧
      Reports tr u out ids before pools := by
  have hneg := (diskUsage_triple tr _ h).2
  obtain ⟨tr₁, ⟨ret₁, outs⟩, tr₂, hmon, hparse, rfl⟩ := runs_bind.mp h
  dsimp only at hparse
  split_ifs at hparse with hret₁
  · obtain ⟨rfl, rfl⟩ := Prod.mk.inj (runs_pure.mp hparse).2
    exact .inl ⟨hneg rfl, rfl⟩
  obtain ⟨tr₃, r, tr₄, hmap, hscale, rfl⟩ := runs_bind.mp hparse
  rcases r with e | poolMap
  · obtain ⟨rfl, rfl⟩ := Prod.mk.inj (runs_pure.mp hscale).2
    exact .inl ⟨hneg rfl, rfl⟩
  obtain ⟨tr₅, r, tr₆, hprop, husage, rfl⟩ := runs_bind.mp hscale
  rcases r with e | infos
  · obtain ⟨rfl, rfl⟩ := Prod.mk.inj (runs_pure.mp husage).2
    exact .inl ⟨hneg rfl, rfl⟩
  obtain ⟨tr₇, r, tr₈, hloop, hret, rfl⟩ := runs_bind.mp husage
  rcases r with e | ⟨ret', done⟩
  · obtain ⟨rfl, rfl⟩ := Prod.mk.inj (runs_pure.mp hret).2
    exact .inl ⟨hneg rfl, rfl⟩
  obtain ⟨rfl, hres⟩ := runs_pure.mp hret
  obtain ⟨rfl, rfl⟩ := Prod.mk.inj hres
  obtain ⟨r, out, hout, ⟨hlt, -⟩ | ⟨-, -, rfl⟩⟩ :=
    runs_monCommand hmon (fun hret => hret₁ (by rw [hret]; decide))
  · exact absurd hlt hret₁
  obtain ⟨ids, hread, rfl⟩ := runs_parsePoolMap hmap
  have hforall := runs_calPoolProperty hprop
  have hnames : ∀ info ∈ infos, info.poolName ≠ [] := by
    intro info hinfo
    obtain ⟨e, he, hscaled⟩ := exists_of_scaled hforall info hinfo
    rw [hscaled.name]
    exact name_ne_nil_of_mem_mapOf he
  obtain ⟨hnonneg, pools, rfl, rfl, rfl, hsurveys⟩ := runs_usageLoop hnames hloop
  have hquiet : diffs (tr₁ ++ (tr₃ ++ tr₅)) = [] := by
    rw [diffs_append, diffs_append, diffs_of_quiet (monCommand_triple _) hmon,
      diffs_of_quiet (parsePoolMap_triple _) hmap,
      diffs_of_quiet (calPoolProperty_triple _) hprop]
    rfl
  refine .inr ⟨hnonneg le_rfl, _, out, ids, tr₁ ++ (tr₃ ++ tr₅), pools, rfl, ?_⟩
  exact
    { listed_in := ⟨r, List.mem_append_left _ hout⟩
      calls := by simp
      before_quiet := hquiet
      read := hread.mono fun e he => List.mem_append_right _ (List.mem_append_left _ he)
      all_pools := by rw [← map_eq_of_scaled hforall, List.map_map]; rfl
      surveyed := hsurveys
      rated := fun p hp => by
        obtain ⟨e, -, hscaled⟩ := exists_of_scaled hforall p.1 (List.mem_map_of_mem hp)
        exact ⟨hscaled.rated.mono fun e he => by simp [he], hscaled.divides⟩
      usage_eq := by
        rw [totalUsage_eq, List.nil_append, List.map_map]
        rfl }

/-- **The disk usage is exact.** A call either fails and writes nothing, or it has joined the
client, surveyed every pool that was listed, left the client again, and what it writes is what
the comparisons come to. -/
theorem diskUsage_exact (usagePtr : Bool) (tr : Trace Answer) (ret : ℤ) (usage : Option ℕ)
    (h : Runs (cephLibrbdDiskUsage usagePtr) tr (ret, usage)) :
    ret < 0 ∧ usage = none ∨
    0 ≤ ret ∧ ∃ confMap r inner u out ids before pools,
      tr = ⟨.radosInit confMap, r⟩ :: (inner ++ [⟨.radosShutdown, ()⟩]) ∧ usage = some u ∧
        Reports inner u out ids before pools := by
  unfold cephLibrbdDiskUsage at h
  split_ifs at h
  · obtain ⟨rfl, rfl⟩ := Prod.mk.inj (runs_pure.mp h).2
    exact .inl ⟨by decide, rfl⟩
  obtain ⟨r, tr₁, hinit, rfl⟩ := runs_perform_bind.mp h
  split_ifs at hinit with hr
  · obtain ⟨rfl, rfl⟩ := Prod.mk.inj (runs_pure.mp hinit).2
    exact .inl ⟨hr, rfl⟩
  obtain ⟨inner, ⟨ret', usage'⟩, tr₂, hinner, hshutdown, rfl⟩ := runs_bind.mp hinit
  obtain ⟨u, tr₃, hret, rfl⟩ := runs_perform_bind.mp hshutdown
  obtain ⟨rfl, hres⟩ := runs_pure.mp hret
  obtain ⟨rfl, rfl⟩ := Prod.mk.inj hres
  rcases runs_diskUsage hinner with hfail | ⟨hnonneg, usage, out, ids, before, pools, rfl, hreports⟩
  · exact .inl hfail
  · exact .inr ⟨hnonneg, noWritethrough, r, inner, usage, out, ids, before, pools, rfl, rfl,
      hreports⟩

/-- Answers for one replicated pool with one image, which has one snapshot. -/
def onePool : (c : Call) → Answer c
  | .monCommand cmd => if cmd = lspools then (0, ascii "1 rbd\n".toList) else (-EACCES, [])
  | .strtol _ => (1, false)
  | .list2 => (0, [ascii "img".toList])
  | .stat => (0, { size := 8, numObjs := 2 })
  | .snapList => (0, [{ name := ascii ['s'], size := 4 }])
  | .diffIterate2 .. => (0, [(MB, true), (MB, false)])
  | c => opening 0 c

theorem diskUsage_exact_one_pool :
    ∃ inner out ids before pools, Reports inner 6 out ids before pools := by
  have hrun : Runs (cephLibrbdDiskUsage true) ((cephLibrbdDiskUsage true).run onePool).1
      (0, some 6) := Prog.runs_run onePool (cephLibrbdDiskUsage true)
  obtain ⟨-, h⟩ | ⟨-, -, -, inner, u, out, ids, before, pools, -, hu, h⟩ :=
    diskUsage_exact true _ 0 (some 6) hrun
  · cases h
  · obtain rfl := Option.some.inj hu
    exact ⟨inner, out, ids, before, pools, h⟩

end GcAdaptor.DiskUsage
