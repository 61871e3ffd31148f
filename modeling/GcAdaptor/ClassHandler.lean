/-
The object classes of the server: `ClassHandler` (`server_adaptor/ClassHandler.cc`), which loads
`libcls_<name>.so` and first the classes that library depends on.

`_load_class` calls itself for every dependency that is not open yet. Nothing marks a class that
is being loaded, so a class that needs itself is opened again and again: `loadClass` has fuel,
and `none` is a call that is still running. `Loadable` says when a call ends well: the least set
of classes that are open or whose library is there and needs only classes of that set.

`needs` is the relation everything is about. A call changes only classes its argument needs
(`Below`), and a class that is loadable does not need itself, so no call meets a class that an
outer call is loading unless it fails. `Inv` is what holds between two calls: an open class has
open dependencies only, each of them opened before it, and no other class has a method.
-/
import GcAdaptor.Cxx
import GcAdaptor.Interleave
import Mathlib.Logic.Relation

set_option autoImplicit false

namespace GcAdaptor.ClassHandler

open GcAdaptor.Wire GcAdaptor.Cxx GcAdaptor.Interleave

/-! ## The classes -/

def EPERM : ℤ := 1
def EIO : ℤ := 5

/-- `ClassData::Status`. -/
inductive Status
  | unknown | missing | missingDeps | initializing | opened
  deriving DecidableEq

/-- `ClassMethod`; a function pointer is a number. -/
structure ClassMethod where
  flags : ℤ := 0
  func : Option ℕ := none
  cxxFunc : Option ℕ := none
  deriving DecidableEq

/-- A call `__cls_init` makes for a class it has registered. -/
inductive MethodCall
  | method (mname : Bytes) (flags : ℤ) (func : ℕ)
  | cxxMethod (mname : Bytes) (flags : ℤ) (func : ℕ)

/-- `cls_register` and what the library registers with the handle it gets. -/
structure Registration where
  cname : Bytes
  calls : List MethodCall

/-- What `dlsym` finds in a library: the names of `class_deps`, and what `__cls_init` does, if it
is there. -/
structure Library where
  deps : List Bytes
  clsInit : Option (List Registration)

structure ClassData where
  status : Status := .unknown
  handle : Option Library := none
  methodsMap : List (Bytes × ClassMethod) := []
  dependencies : List Bytes := []
  missingDependencies : List Bytes := []

/-- `classes`. `opened` has the classes that have become `CLASS_OPEN`, in this order. -/
structure Handler where
  classes : List (Bytes × ClassData) := []
  opened : List Bytes := []

/-- What `dlopen` gives, and `stat` where it gives nothing. -/
inductive Dlopen
  | noFile (errno : ℕ) (pos : 0 < errno)
  | notLibrary
  | library (lib : Library)

/-- The rest of the process during a call. `arrange` is the order of the addresses of the classes
in a `set<ClassData *>`. -/
structure Env where
  loadList : Bytes
  classPath : Bytes
  dlopen : Bytes → Dlopen
  arrange : List Bytes → List Bytes
  arrange_perm : ∀ l, (arrange l).Perm l

/-! ## The functions -/

section Functions

/-- The words an `istream_iterator<string>` reads. -/
def words (list : Bytes) : List Bytes :=
  (list.splitOnP isSpace).filter fun w => !w.isEmpty

def inClassList (cname list : Bytes) : Bool :=
  (words list).any fun w => w = cname ∨ w = ascii ['*']

def Handler.get (h : Handler) (c : Bytes) : ClassData := (h.classes.lookup c).getD {}

def Handler.update (h : Handler) (c : Bytes) (f : ClassData → ClassData) : Handler :=
  { h with classes := mapSet c (f (h.get c)) h.classes }

/-- `_get_class(c, false)`. -/
def Handler.addClass (h : Handler) (c : Bytes) : Handler :=
  if (h.classes.lookup c).isSome then h else h.update c id

/-- `_get_class(c, true)`. -/
def Handler.getClass (env : Env) (h : Handler) (c : Bytes) : Option Handler :=
  if (h.classes.lookup c).isNone && !inClassList c env.loadList then none else some (h.addClass c)

/-- The buffer of `snprintf` has `PATH_MAX` bytes. -/
def fname (env : Env) (c : Bytes) : Bytes :=
  (env.classPath ++ ascii "/libcls_".toList ++ cStr c ++ ascii ".so".toList).take 4095

def registerMethod (m : List (Bytes × ClassMethod)) : MethodCall → List (Bytes × ClassMethod)
  | .method mname flags func =>
    if flags = 0 then m
    else mapSet mname { (m.lookup mname).getD {} with flags := flags, func := some func } m
  | .cxxMethod mname flags func =>
    mapSet mname { (m.lookup mname).getD {} with flags := flags, cxxFunc := some func } m

/-- `cls_register`: only a class that is being initialised gets a handle. -/
def register (h : Handler) (r : Registration) : Handler :=
  let h := h.addClass r.cname
  if (h.get r.cname).status = .initializing then
    h.update r.cname fun cls =>
      { cls with methodsMap := r.calls.foldl registerMethod cls.methodsMap }
  else h

/-- One name of `class_deps`. -/
def addDep (c : Bytes) (h : Handler) (d : Bytes) : Handler :=
  let h := h.addClass d
  let isOpen := (h.get d).status = .opened
  h.update c fun cls =>
    { cls with
      dependencies := setInsert d cls.dependencies
      missingDependencies :=
        if isOpen then cls.missingDependencies else setInsert d cls.missingDependencies }

/-- `dlopen` and the dependencies. -/
def openLibrary (env : Env) (h : Handler) (c : Bytes) : ℤ × Handler :=
  match env.dlopen (fname env c) with
  | .noFile errno _ =>
    (-errno, h.update c fun cls => { cls with handle := none, status := .missing })
  | .notLibrary =>
    (- EIO, h.update c fun cls => { cls with handle := none, status := .missing })
  | .library lib =>
    (0, lib.deps.foldl (addDep c) (h.update c fun cls => { cls with handle := some lib }))

/-- The loop over the missing dependencies `ds`. -/
def resolve (load : Handler → Bytes → Option (ℤ × Handler)) (c : Bytes) :
    List Bytes → Handler → Option (ℤ × Handler)
  | [], h => some (0, h)
  | d :: ds, h =>
    match load h d with
    | none => none
    | some (r, h) =>
      if r < 0 then some (r, h.update c fun cls => { cls with status := .missingDeps })
      else
        resolve load c ds (h.update c fun cls =>
          { cls with missingDependencies := cls.missingDependencies.filter (· ≠ d) })

/-- `cls->status = CLASS_OPEN`. -/
def Handler.setOpen (h : Handler) (c : Bytes) : Handler :=
  { h.update c fun cls => { cls with status := .opened } with opened := h.opened ++ [c] }

/-- `__cls_init`, and after it the class is open. -/
def initClass (h : Handler) (c : Bytes) : Handler :=
  match (h.get c).handle.bind Library.clsInit with
  | some rs =>
    (rs.foldl register (h.update c fun cls => { cls with status := .initializing })).setOpen c
  | none => h.setOpen c

/-- Whether `_load_class` opens the library of a class of this status. -/
def Status.closed : Status → Bool
  | .unknown | .missing => true
  | _ => false

/-- The first part of `_load_class`, for a class that is not open. -/
def beginLoad (env : Env) (h : Handler) (c : Bytes) : ℤ × Handler :=
  if (h.get c).status.closed then openLibrary env h c else (0, h)

def loadClass (env : Env) : ℕ → Handler → Bytes → Option (ℤ × Handler)
  | 0, _, _ => none
  | fuel + 1, h, c =>
    if (h.get c).status = .opened then some (0, h)
    else if (beginLoad env h c).1 < 0 then some (beginLoad env h c)
    else
      let h := (beginLoad env h c).2
      match resolve (loadClass env fuel) c (env.arrange (h.get c).missingDependencies) h with
      | none => none
      | some (r, h) => if r < 0 then some (r, h) else some (0, initClass h c)

def openClass (env : Env) (fuel : ℕ) (h : Handler) (c : Bytes) : Option (ℤ × Handler) :=
  match h.getClass env c with
  | none => some (-EPERM, h)
  | some h => loadClass env fuel h c

/-- What is done to a handler. -/
inductive Event
  | openClass (env : Env) (c : Bytes) (fuel : ℕ)
  | shutdown

def step (h : Handler) : Event → Option Handler
  | .openClass env c fuel => (openClass env fuel h c).map Prod.snd
  | .shutdown => some {}

/-- An environment for the runs below: `a` is listed and needs `b`, and `c` is listed and needs
itself. -/
def threeLibraries : Env where
  loadList := ascii ['a', ' ', 'c']
  classPath := []
  dlopen path :=
    if path = ascii "/libcls_a.so".toList then .library ⟨[ascii ['b']], none⟩
    else if path = ascii "/libcls_b.so".toList then
      .library ⟨[], some [⟨ascii ['b'], [.method (ascii ['m']) 1 7]⟩]⟩
    else if path = ascii "/libcls_c.so".toList then .library ⟨[ascii ['c']], none⟩
    else .noFile 2 (by decide)
  arrange := id
  arrange_perm := List.Perm.refl

end Functions

/-! ## Entries -/

section Entries

variable {env : Env} {h : Handler} {c x d : Bytes} {f : ClassData → ClassData}

@[simp] theorem Handler.get_empty : ({} : Handler).get x = {} := rfl

@[simp] theorem Handler.opened_update : (h.update c f).opened = h.opened := rfl

theorem Handler.get_update : (h.update c f).get x = if x = c then f (h.get c) else h.get x := by
  rw [Handler.get, Handler.update, lookup_mapSet]
  split_ifs
  · rfl
  · rfl

@[simp] theorem Handler.get_update_self : (h.update c f).get c = f (h.get c) := by
  rw [get_update, if_pos rfl]

theorem Handler.get_update_of_ne (hx : x ≠ c) : (h.update c f).get x = h.get x := by
  rw [get_update, if_neg hx]

@[simp] theorem Handler.get_addClass : (h.addClass d).get x = h.get x := by
  rw [addClass]
  split_ifs
  · rfl
  · rw [get_update]
    split_ifs with hx
    · rw [hx, id]
    · rfl

@[simp] theorem Handler.opened_addClass : (h.addClass d).opened = h.opened := by
  rw [addClass]
  split_ifs
  · rfl
  · rfl

@[simp] theorem Handler.opened_setOpen : (h.setOpen c).opened = h.opened ++ [c] := rfl

@[simp] theorem Handler.get_setOpen_self :
    (h.setOpen c).get c = { h.get c with status := .opened } :=
  get_update_self (f := fun cls => { cls with status := .opened })

theorem Handler.get_setOpen_of_ne (hx : x ≠ c) : (h.setOpen c).get x = h.get x :=
  get_update_of_ne (f := fun cls => { cls with status := .opened }) hx

/-- `CLASS_OPEN`. -/
def Handler.IsOpen (h : Handler) (c : Bytes) : Prop := (h.get c).status = .opened

instance : Decidable (h.IsOpen c) := inferInstanceAs (Decidable (_ = _))

theorem Handler.IsOpen.ne (hx : h.IsOpen x) (hc : ¬ h.IsOpen c) : x ≠ c := fun hxc => hc (hxc ▸ hx)

theorem Handler.get_addDep_of_ne (hx : x ≠ c) : (addDep c h d).get x = h.get x := by
  rw [addDep, get_update_of_ne hx, get_addClass]

/-- What reading `class_deps` does to the entry of the class itself. -/
structure DepsRead (h : Handler) (ds : List Bytes) (cls cls' : ClassData) : Prop where
  status : cls'.status = cls.status
  handle : cls'.handle = cls.handle
  methodsMap : cls'.methodsMap = cls.methodsMap
  mem_dependencies : ∀ d, d ∈ cls'.dependencies ↔ d ∈ ds ∨ d ∈ cls.dependencies
  mem_missing : ∀ d, d ∈ cls'.missingDependencies ↔
    (d ∈ ds ∧ ¬ h.IsOpen d) ∨ d ∈ cls.missingDependencies

theorem foldl_addDep (ds : List Bytes) (h : Handler) :
    (ds.foldl (addDep c) h).opened = h.opened ∧
      (∀ x, x ≠ c → (ds.foldl (addDep c) h).get x = h.get x) ∧
      DepsRead h ds (h.get c) ((ds.foldl (addDep c) h).get c) := by
  induction ds generalizing h with
  | nil => exact ⟨rfl, fun _ _ => rfl, rfl, rfl, rfl, by simp, by simp⟩
  | cons d ds ih =>
    obtain ⟨hopened, hother, hread⟩ := ih (addDep c h d)
    have hself : (addDep c h d).get c =
        { h.get c with
          dependencies := setInsert d (h.get c).dependencies
          missingDependencies :=
            if h.IsOpen d then (h.get c).missingDependencies
            else setInsert d (h.get c).missingDependencies } := by
      simp only [addDep, Handler.get_update_self, Handler.get_addClass]
      rfl
    -- the statuses do not change while the names are read
    have hisOpen (x : Bytes) : (addDep c h d).IsOpen x ↔ h.IsOpen x := by
      by_cases hx : x = c
      · subst hx
        rw [Handler.IsOpen, hself]
        rfl
      · rw [Handler.IsOpen, Handler.get_addDep_of_ne hx, Handler.IsOpen]
    refine ⟨?_, fun x hx => ?_, ?_⟩
    · rw [List.foldl_cons, hopened, addDep, Handler.opened_update, Handler.opened_addClass]
    · rw [List.foldl_cons, hother x hx, Handler.get_addDep_of_ne hx]
    · rw [hself] at hread
      obtain ⟨hstatus, hhandle, hmethods, hdeps, hmissing⟩ := hread
      refine ⟨hstatus, hhandle, hmethods, fun x => ?_, fun x => ?_⟩
      · rw [List.foldl_cons, hdeps x, mem_setInsert, List.mem_cons]
        tauto
      · rw [List.foldl_cons, hmissing x, hisOpen, List.mem_cons]
        split_ifs with hd
        · by_cases hx : x = d
          · subst hx
            tauto
          · tauto
        · rw [mem_setInsert]
          by_cases hx : x = d
          · subst hx
            tauto
          · tauto

/-- What the registrations `rs` of a library leave in the methods of `c` itself. -/
def ownMethods (rs : List Registration) (c : Bytes) (m : List (Bytes × ClassMethod)) :
    List (Bytes × ClassMethod) :=
  rs.foldl (fun m r => if r.cname = c then r.calls.foldl registerMethod m else m) m

/-- Only the class that is being initialised gets the methods registered for it. -/
theorem foldl_register (rs : List Registration) (h : Handler)
    (hself : (h.get c).status = .initializing)
    (hother : ∀ x, x ≠ c → (h.get x).status ≠ .initializing) :
    (rs.foldl register h).opened = h.opened ∧
      (∀ x, x ≠ c → (rs.foldl register h).get x = h.get x) ∧
      (rs.foldl register h).get c =
        { h.get c with methodsMap := ownMethods rs c (h.get c).methodsMap } := by
  induction rs generalizing h with
  | nil => exact ⟨rfl, fun _ _ => rfl, rfl⟩
  | cons r rs ih =>
    have hget (x : Bytes) (hx : x ≠ c) : (register h r).get x = h.get x := by
      simp only [register]
      split_ifs with hr
      · rw [Handler.get_addClass] at hr
        have hrc : r.cname = c := by_contra fun hne => hother _ hne hr
        rw [hrc, Handler.get_update_of_ne hx, Handler.get_addClass]
      · rw [Handler.get_addClass]
    have hgetSelf : (register h r).get c =
        { h.get c with
          methodsMap :=
            if r.cname = c then r.calls.foldl registerMethod (h.get c).methodsMap
            else (h.get c).methodsMap } := by
      simp only [register, Handler.get_addClass]
      by_cases hr : r.cname = c
      · rw [hr, if_pos hself, if_pos rfl, Handler.get_update_self, Handler.get_addClass]
      · rw [if_neg (hother _ hr), if_neg hr, Handler.get_addClass]
    have hopened : (register h r).opened = h.opened := by
      simp only [register]
      split_ifs
      · rw [Handler.opened_update, Handler.opened_addClass]
      · rw [Handler.opened_addClass]
    obtain ⟨ihOpened, ihOther, ihSelf⟩ :=
      ih (register h r) (by rw [hgetSelf]; exact hself) fun x hx => by
        rw [hget x hx]
        exact hother x hx
    refine ⟨by rw [List.foldl_cons, ihOpened, hopened], fun x hx => ?_, ?_⟩
    · rw [List.foldl_cons, ihOther x hx, hget x hx]
    · rw [List.foldl_cons, ihSelf, hgetSelf]
      rfl

/-- The methods of a class once `__cls_init` of `handle` has run. -/
def initMethods (handle : Option Library) (c : Bytes) (m : List (Bytes × ClassMethod)) :
    List (Bytes × ClassMethod) :=
  match handle.bind Library.clsInit with
  | some rs => ownMethods rs c m
  | none => m

theorem initClass_spec (hsettled : ∀ x, (h.get x).status ≠ .initializing) :
    (initClass h c).opened = h.opened ++ [c] ∧
      (∀ x, x ≠ c → (initClass h c).get x = h.get x) ∧
      (initClass h c).get c =
        { h.get c with
          status := .opened
          methodsMap := initMethods (h.get c).handle c (h.get c).methodsMap } := by
  cases hinit : (h.get c).handle.bind Library.clsInit with
  | none =>
    simp only [initClass, initMethods, hinit]
    exact ⟨rfl, fun x hx => Handler.get_setOpen_of_ne hx, Handler.get_setOpen_self⟩
  | some rs =>
    obtain ⟨hopened, hother, hself⟩ := foldl_register (c := c) rs
      (h.update c fun cls => { cls with status := .initializing })
      (by rw [Handler.get_update_self]) fun x hx => by
        rw [Handler.get_update_of_ne hx]
        exact hsettled x
    simp only [initClass, initMethods, hinit]
    refine ⟨by rw [Handler.opened_setOpen, hopened, Handler.opened_update], fun x hx => ?_, ?_⟩
    · rw [Handler.get_setOpen_of_ne hx, hother x hx, Handler.get_update_of_ne hx]
    · rw [Handler.get_setOpen_self, hself, Handler.get_update_self]

end Entries

/-! ## What a class needs -/

section Needs

variable {env : Env} {h h' : Handler} {c d x : Bytes}

/-- The library of `c` can be opened, or need not be. -/
def Available (env : Env) (h : Handler) (c : Bytes) : Prop :=
  (h.get c).status.closed = true → ∃ lib, env.dlopen (fname env c) = .library lib

/-- `d` is among the classes `_load_class` of `c` loads, or is open already. -/
def Needs (env : Env) (h : Handler) (c d : Bytes) : Prop :=
  ¬ h.IsOpen c ∧
    (d ∈ (h.get c).missingDependencies ∨
      (h.get c).status.closed = true ∧
        ∃ lib, env.dlopen (fname env c) = .library lib ∧ d ∈ lib.deps)

/-- `c` is open, or its library is there and all it needs is loadable: a class that needs itself
is not. -/
inductive Loadable (env : Env) (h : Handler) : Bytes → Prop
  | intro {c : Bytes} (avail : Available env h c)
      (needs : ∀ d, Needs env h c d → Loadable env h d) :
      Loadable env h c

/-- `x` is `c`, or something `c` needs needs it. -/
def Below (env : Env) (h : Handler) : Bytes → Bytes → Prop := Relation.ReflTransGen (Needs env h)

theorem Loadable.of_isOpen (hc : h.IsOpen c) : Loadable env h c := by
  refine .intro (fun hclosed => ?_) fun d hd => absurd hc hd.1
  rw [Handler.IsOpen] at hc
  rw [hc] at hclosed
  contradiction

theorem Loadable.not_needs_self (hc : Loadable env h c) :
    ¬ ∃ d, Needs env h c d ∧ Below env h d c := by
  induction hc with
  | intro _ _ ih =>
    rintro ⟨d, hd, hbelow⟩
    -- then `d` needs itself too, by way of `c`
    rcases Relation.ReflTransGen.cases_head hbelow with rfl | ⟨e, he, hrest⟩
    · exact ih _ hd ⟨_, hd, .refl⟩
    · exact ih d hd ⟨e, he, hrest.tail hd⟩

/-- Every class needs less in `h'` than in `h`. -/
def Narrows (env : Env) (h h' : Handler) : Prop :=
  ∀ x, (Available env h x → Available env h' x) ∧ ∀ d, Needs env h' x d → Needs env h x d

theorem Narrows.trans {h'' : Handler} (h₁ : Narrows env h h') (h₂ : Narrows env h' h'') :
    Narrows env h h'' :=
  fun x => ⟨fun ha => (h₂ x).1 ((h₁ x).1 ha), fun d hd => (h₁ x).2 d ((h₂ x).2 d hd)⟩

theorem Narrows.below (hn : Narrows env h h') (hb : Below env h' c x) : Below env h c x := by
  induction hb with
  | refl => exact .refl
  | tail _ hd ih => exact ih.tail ((hn _).2 _ hd)

end Needs

/-! ## The invariant -/

/-- What holds between two calls, and also while a class is being loaded. -/
structure Inv (h : Handler) : Prop where
  settled : ∀ x, (h.get x).status ≠ .initializing
  /-- a class whose library is not opened again has one -/
  handled : ∀ x, (h.get x).status.closed = false → (h.get x).handle.isSome = true
  nodup : h.opened.Nodup
  mem_opened : ∀ x, x ∈ h.opened ↔ h.IsOpen x
  deps : ∀ x lib, (h.get x).handle = some lib → ∀ d ∈ lib.deps, d ∈ (h.get x).dependencies
  known : ∀ x, ∀ d ∈ (h.get x).dependencies, d ∈ (h.get x).missingDependencies ∨ h.IsOpen d
  before : ∀ l₁ x l₂, h.opened = l₁ ++ x :: l₂ → ∀ d ∈ (h.get x).dependencies, d ∈ l₁
  methods : ∀ x, (h.get x).methodsMap =
    if h.IsOpen x then initMethods (h.get x).handle x [] else []

section Invariant

variable {env : Env} {h h' : Handler} {c d x : Bytes}

theorem Inv.empty : Inv {} where
  settled _ := by simp
  handled x hx := by simp [Status.closed] at hx
  nodup := List.nodup_nil
  mem_opened x := by simp [Handler.IsOpen]
  deps x lib hlib := by simp at hlib
  known x d hd := by simp at hd
  before l₁ x l₂ heq := by simp at heq
  methods x := by simp [Handler.IsOpen]

/-- A change of one class that is not open and stays so. -/
theorem Inv.change (hi : Inv h) (hc : ¬ h.IsOpen c) (hopened : h'.opened = h.opened)
    (hother : ∀ x, x ≠ c → h'.get x = h.get x) (hc' : ¬ h'.IsOpen c)
    (hsettled : (h'.get c).status ≠ .initializing)
    (hhandled : (h'.get c).status.closed = false → (h'.get c).handle.isSome = true)
    (hdeps : ∀ lib, (h'.get c).handle = some lib → ∀ d ∈ lib.deps, d ∈ (h'.get c).dependencies)
    (hknown : ∀ d ∈ (h'.get c).dependencies, d ∈ (h'.get c).missingDependencies ∨ h.IsOpen d)
    (hmethods : (h'.get c).methodsMap = (h.get c).methodsMap) : Inv h' := by
  have hisOpen (x : Bytes) : h'.IsOpen x ↔ h.IsOpen x := by
    by_cases hx : x = c
    · subst hx
      exact iff_of_false hc' hc
    · rw [Handler.IsOpen, hother x hx, Handler.IsOpen]
  refine ⟨fun x => ?_, fun x => ?_, hopened ▸ hi.nodup, fun x => ?_, fun x => ?_, fun x => ?_,
    fun l₁ x l₂ heq => ?_, fun x => ?_⟩
  · by_cases hx : x = c
    · rwa [hx]
    · rw [hother x hx]
      exact hi.settled x
  · by_cases hx : x = c
    · rwa [hx]
    · rw [hother x hx]
      exact hi.handled x
  · rw [hopened, hi.mem_opened, hisOpen]
  · by_cases hx : x = c
    · rwa [hx]
    · rw [hother x hx]
      exact hi.deps x
  · simp only [hisOpen]
    by_cases hx : x = c
    · rwa [hx]
    · rw [hother x hx]
      exact hi.known x
  · rw [hopened] at heq
    have hxOpen : h.IsOpen x := (hi.mem_opened x).mp (by rw [heq]; simp)
    rw [hother x (hxOpen.ne hc)]
    exact hi.before l₁ x l₂ heq
  · simp only [hisOpen]
    by_cases hx : x = c
    · rw [hx, hmethods, hi.methods c, if_neg hc, if_neg hc]
    · rw [hother x hx]
      exact hi.methods x

/-- A class is opened once all it waits for is open. -/
theorem Inv.initClass (hi : Inv h) (hc : ¬ h.IsOpen c) (hheld : (h.get c).handle.isSome = true)
    (hmissing : (h.get c).missingDependencies = []) : Inv (initClass h c) := by
  obtain ⟨hopened, hother, hself⟩ := initClass_spec (c := c) hi.settled
  have hcOpen : (ClassHandler.initClass h c).IsOpen c := by
    rw [Handler.IsOpen, hself]
  have hisOpen (x : Bytes) (hx : x ≠ c) :
      (ClassHandler.initClass h c).IsOpen x ↔ h.IsOpen x := by
    rw [Handler.IsOpen, hother x hx, Handler.IsOpen]
  have hdeps : ∀ d ∈ (h.get c).dependencies, h.IsOpen d := fun d hd =>
    (hi.known c d hd).resolve_left fun hmem => by simp [hmissing] at hmem
  have hcnot : c ∉ h.opened := fun hmem => hc ((hi.mem_opened c).mp hmem)
  refine ⟨fun x => ?_, fun x => ?_, ?_, fun x => ?_, fun x => ?_, fun x d hd => ?_,
    fun l₁ x l₂ heq d hd => ?_, fun x => ?_⟩
  · by_cases hx : x = c
    · rw [hx, hself]
      simp
    · rw [hother x hx]
      exact hi.settled x
  · by_cases hx : x = c
    · rw [hx, hself]
      exact fun _ => hheld
    · rw [hother x hx]
      exact hi.handled x
  · rw [hopened, List.nodup_append]
    refine ⟨hi.nodup, List.nodup_singleton c, fun a ha b hb hab => hcnot ?_⟩
    rwa [← List.mem_singleton.mp hb, ← hab]
  · rw [hopened, List.mem_append, List.mem_singleton, hi.mem_opened]
    by_cases hx : x = c
    · rw [hx]
      exact iff_of_true (.inr rfl) hcOpen
    · rw [hisOpen x hx]
      simp [hx]
  · by_cases hx : x = c
    · rw [hx, hself]
      exact hi.deps c
    · rw [hother x hx]
      exact hi.deps x
  · by_cases hdc : d = c
    · rw [hdc]
      exact .inr hcOpen
    · rw [hisOpen d hdc]
      by_cases hx : x = c
      · rw [hx, hself] at hd
        exact .inr (hdeps d hd)
      · rw [hother x hx] at hd ⊢
        exact hi.known x d hd
  · rw [hopened] at heq
    rcases List.append_eq_append_iff.mp heq with ⟨l, hl₁, hl⟩ | ⟨l, hl₁, hl⟩
    · -- `x` is the class that has just been opened
      cases l with
      | nil =>
        obtain ⟨rfl, -⟩ : x = c ∧ l₂ = [] := by simpa [eq_comm] using hl
        rw [hself] at hd
        rw [hl₁, List.append_nil]
        exact (hi.mem_opened d).mpr (hdeps d hd)
      | cons y l => simp at hl
    · cases l with
      | nil =>
        obtain ⟨rfl, -⟩ : x = c ∧ l₂ = [] := by simpa using hl
        rw [hself] at hd
        rw [List.append_nil] at hl₁
        exact hl₁ ▸ (hi.mem_opened d).mpr (hdeps d hd)
      | cons y l =>
        obtain ⟨rfl, -⟩ : x = y ∧ l₂ = l ++ [c] := by simpa using hl
        have hxOpen : h.IsOpen x := (hi.mem_opened x).mp (by rw [hl₁]; simp)
        rw [hother x (hxOpen.ne hc)] at hd
        exact hi.before l₁ x l hl₁ d hd
  · by_cases hx : x = c
    · rw [hx, if_pos hcOpen, hself, hi.methods c, if_neg hc]
    · simp only [hisOpen x hx]
      rw [hother x hx]
      exact hi.methods x

end Invariant

/-! ## A call -/

section Call

variable {env : Env} {h h' : Handler} {c d x : Bytes} {r : ℤ}

/-- What `_load_class` of `c` does in `h` when it returns `r`. -/
structure Outcome (env : Env) (h : Handler) (c : Bytes) (r : ℤ) (h' : Handler) : Prop where
  inv : Inv h'
  nonpos : r ≤ 0
  held : ∀ x, Available env h x → (h.get x).handle.isSome = true →
    Available env h' x ∧ (h'.get x).handle.isSome = true
  kept : ∀ x, h.IsOpen x → h'.get x = h.get x
  fresh : ∀ x, h'.IsOpen x → h.IsOpen x ∨ Below env h c x ∧ Loadable env h x
  done : ¬ r < 0 → Loadable env h c ∧ h'.IsOpen c ∧ ∀ x, ¬ h'.IsOpen x → h'.get x = h.get x

/-- The state of the loop over the missing dependencies of `c`, in a call that began in `h`. -/
structure Progress (env : Env) (h : Handler) (c : Bytes) (h' : Handler) : Prop where
  inv : Inv h'
  avail : Available env h c
  held : (h'.get c).handle.isSome = true
  status : (h'.get c).status = (h.get c).status
  missing : ∀ d ∈ (h'.get c).missingDependencies, Needs env h c d
  needs : ∀ d, Needs env h c d → h'.IsOpen d ∨ d ∈ (h'.get c).missingDependencies
  kept : ∀ x, h.IsOpen x → h'.get x = h.get x
  fresh : ∀ x, h'.IsOpen x → h.IsOpen x ∨ Below env h c x ∧ Loadable env h x
  other : ∀ x, x ≠ c → ¬ h'.IsOpen x → h'.get x = h.get x

theorem available_of_isOpen (hx : h.IsOpen x) : Available env h x := by
  intro hclosed
  rw [Handler.IsOpen] at hx
  rw [hx] at hclosed
  contradiction

namespace Progress

theorem narrows (hp : Progress env h c h') : Narrows env h h' := by
  intro x
  by_cases hx : h'.IsOpen x
  · exact ⟨fun _ => available_of_isOpen hx, fun d hd => absurd hx hd.1⟩
  · by_cases hxc : x = c
    · subst hxc
      refine ⟨fun havail => ?_, fun d hd => ?_⟩
      · rwa [Available, hp.status]
      · rcases hd with ⟨hnot, hmem | ⟨hclosed, hlib⟩⟩
        · exact hp.missing d hmem
        · rw [hp.status] at hclosed
          refine ⟨?_, .inr ⟨hclosed, hlib⟩⟩
          rwa [Handler.IsOpen, ← hp.status]
    · rw [Available, Available, hp.other x hxc hx]
      refine ⟨id, fun d hd => ?_⟩
      rwa [Needs, Handler.IsOpen, hp.other x hxc hx] at hd

/-- What has become open was loadable, so nothing has become loadable. -/
theorem loadable (hp : Progress env h c h') (hx : Loadable env h' x) : Loadable env h x := by
  have hopen (y : Bytes) (hy : h'.IsOpen y) : Loadable env h y := by
    rcases hp.fresh y hy with hy | ⟨-, hy⟩
    · exact .of_isOpen hy
    · exact hy
  induction hx with
  | @intro x havail _ ih =>
    by_cases hx : h'.IsOpen x
    · exact hopen x hx
    · by_cases hxc : x = c
      · subst hxc
        refine .intro hp.avail fun d hd => ?_
        rcases hp.needs d hd with hd | hmem
        · exact hopen d hd
        · exact ih d ⟨hx, .inl hmem⟩
      · rw [Available, hp.other x hxc hx] at havail
        refine .intro havail fun d hd => ih d ?_
        rwa [Needs, Handler.IsOpen, hp.other x hxc hx]

theorem held_of_held (hp : Progress env h c h') (havail : Available env h x)
    (hheld : (h.get x).handle.isSome = true) :
    Available env h' x ∧ (h'.get x).handle.isSome = true := by
  refine ⟨(hp.narrows x).1 havail, ?_⟩
  by_cases hx : h'.IsOpen x
  · refine hp.inv.handled x ?_
    rw [Handler.IsOpen] at hx
    rw [hx]
    rfl
  · by_cases hxc : x = c
    · exact hxc ▸ hp.held
    · rwa [hp.other x hxc hx]

variable {hj : Handler}

/-- The call for a dependency does not open the class it is needed by: that class would need
itself. -/
theorem not_isOpen (hp : Progress env h c h') (hc : ¬ h.IsOpen c) (hd : Needs env h c d)
    (ho : Outcome env h' d r hj) : ¬ hj.IsOpen c := by
  intro hcj
  rcases ho.fresh c hcj with hopen | ⟨hbelow, hloadable⟩
  · rw [Handler.IsOpen, hp.status] at hopen
    exact hc hopen
  · exact (hp.loadable hloadable).not_needs_self ⟨d, hd, hp.narrows.below hbelow⟩

theorem fresh_of_outcome (hp : Progress env h c h') (hd : Needs env h c d)
    (ho : Outcome env h' d r hj) (hx : hj.IsOpen x) :
    h.IsOpen x ∨ Below env h c x ∧ Loadable env h x := by
  rcases ho.fresh x hx with hopen | ⟨hbelow, hloadable⟩
  · exact hp.fresh x hopen
  · exact .inr ⟨.head hd (hp.narrows.below hbelow), hp.loadable hloadable⟩

theorem kept_of_outcome (hp : Progress env h c h') (ho : Outcome env h' d r hj)
    (hx : h.IsOpen x) : hj.get x = h.get x := by
  have hx' : h'.IsOpen x := by rwa [Handler.IsOpen, hp.kept x hx]
  rw [ho.kept x hx', hp.kept x hx]

/-- A dependency could not be loaded. -/
theorem fail (hp : Progress env h c h') (hc : ¬ h.IsOpen c) (hd : Needs env h c d)
    (ho : Outcome env h' d r hj) (hr : r < 0) :
    Outcome env h c r (hj.update c fun cls => { cls with status := .missingDeps }) := by
  have hcj := hp.not_isOpen hc hd ho
  have hheld := ho.held c ((hp.narrows c).1 hp.avail) hp.held
  refine ⟨?_, hr.le, fun x havail hhandle => ?_, fun x hx => ?_, fun x hx => ?_,
    fun hnot => absurd hr hnot⟩
  · refine ho.inv.change hcj rfl (fun x hx => Handler.get_update_of_ne hx) ?_ ?_ ?_ ?_ ?_ ?_
    · rw [Handler.IsOpen, Handler.get_update_self]
      simp
    · simp
    · simpa using fun _ => hheld.2
    · simpa using ho.inv.deps c
    · simpa using ho.inv.known c
    · simp
  · obtain ⟨havail', hhandle'⟩ := hp.held_of_held havail hhandle
    obtain ⟨havailj, hhandlej⟩ := ho.held x havail' hhandle'
    by_cases hxc : x = c
    · rw [hxc, Available, Handler.get_update_self]
      exact ⟨fun hclosed => by simp [Status.closed] at hclosed, hheld.2⟩
    · rw [Available, Handler.get_update_of_ne hxc]
      exact ⟨havailj, hhandlej⟩
  · rw [Handler.get_update_of_ne (hx.ne hc), hp.kept_of_outcome ho hx]
  · have hxc : x ≠ c := by
      rintro rfl
      rw [Handler.IsOpen, Handler.get_update_self] at hx
      simp at hx
    rw [Handler.IsOpen, Handler.get_update_of_ne hxc] at hx
    exact hp.fresh_of_outcome hd ho hx

/-- A dependency has been loaded. -/
theorem next (hp : Progress env h c h') (hc : ¬ h.IsOpen c) (hd : Needs env h c d)
    (ho : Outcome env h' d r hj) (hr : ¬ r < 0) :
    Progress env h c (hj.update c fun cls =>
      { cls with missingDependencies := cls.missingDependencies.filter (· ≠ d) }) := by
  have hcj := hp.not_isOpen hc hd ho
  obtain ⟨-, hdj, hsame⟩ := ho.done hr
  have hcsame : hj.get c = h'.get c := hsame c hcj
  have hisOpen (x : Bytes) : (hj.update c fun cls =>
      { cls with missingDependencies := cls.missingDependencies.filter (· ≠ d) }).IsOpen x ↔
        hj.IsOpen x := by
    by_cases hx : x = c
    · rw [hx, Handler.IsOpen, Handler.get_update_self]
      rfl
    · rw [Handler.IsOpen, Handler.get_update_of_ne hx, Handler.IsOpen]
  refine ⟨?_, hp.avail, ?_, ?_, fun e he => ?_, fun e he => ?_, fun x hx => ?_, fun x hx => ?_,
    fun x hxc hx => ?_⟩
  · refine ho.inv.change hcj rfl (fun x hx => Handler.get_update_of_ne hx)
      (by rwa [hisOpen]) ?_ ?_ ?_ ?_ ?_
    · simpa using ho.inv.settled c
    · simpa using ho.inv.handled c
    · simpa using ho.inv.deps c
    · rw [Handler.get_update_self]
      intro e he
      by_cases hed : e = d
      · exact .inr (hed ▸ hdj)
      · exact (ho.inv.known c e he).imp_left fun hmem => by simp [hmem, hed]
    · simp
  · rw [Handler.get_update_self, hcsame]
    exact hp.held
  · rw [Handler.get_update_self, hcsame]
    exact hp.status
  · rw [Handler.get_update_self, hcsame] at he
    exact hp.missing e (List.mem_filter.mp he).1
  · rw [hisOpen, Handler.get_update_self, hcsame]
    by_cases hed : e = d
    · exact .inl (hed ▸ hdj)
    · rcases hp.needs e he with hopen | hmem
      · left
        rwa [Handler.IsOpen, ho.kept e hopen]
      · right
        exact List.mem_filter.mpr ⟨hmem, by simpa using hed⟩
  · rw [Handler.get_update_of_ne (hx.ne hc), hp.kept_of_outcome ho hx]
  · exact hp.fresh_of_outcome hd ho ((hisOpen x).mp hx)
  · rw [hisOpen] at hx
    have hx' : ¬ h'.IsOpen x := fun hopen => hx (by rwa [Handler.IsOpen, ho.kept x hopen])
    rw [Handler.get_update_of_ne hxc, hsame x hx, hp.other x hxc hx']

/-- Nothing is missing any more. -/
theorem finish (hp : Progress env h c h') (hc : ¬ h.IsOpen c)
    (hmissing : (h'.get c).missingDependencies = []) : Outcome env h c 0 (initClass h' c) := by
  have hc' : ¬ h'.IsOpen c := by rwa [Handler.IsOpen, hp.status]
  obtain ⟨-, hother, hself⟩ := initClass_spec (c := c) hp.inv.settled
  have hcOpen : (initClass h' c).IsOpen c := by rw [Handler.IsOpen, hself]
  have hload : Loadable env h c := by
    refine .intro hp.avail fun d hd => ?_
    rcases hp.needs d hd with hopen | hmem
    · exact hp.loadable (.of_isOpen hopen)
    · simp [hmissing] at hmem
  refine ⟨hp.inv.initClass hc' hp.held hmissing, le_rfl, fun x havail hhandle => ?_, fun x hx => ?_,
    fun x hx => ?_, fun _ => ⟨hload, hcOpen, fun x hx => ?_⟩⟩
  · obtain ⟨havail', hhandle'⟩ := hp.held_of_held havail hhandle
    by_cases hxc : x = c
    · rw [hxc]
      refine ⟨available_of_isOpen hcOpen, ?_⟩
      rw [hself]
      exact hp.held
    · rw [Available, hother x hxc]
      exact ⟨havail', hhandle'⟩
  · rw [hother x (hx.ne hc), hp.kept x hx]
  · by_cases hxc : x = c
    · rw [hxc]
      exact .inr ⟨.refl, hload⟩
    · rw [Handler.IsOpen, hother x hxc] at hx
      exact hp.fresh x hx
  · have hxc : x ≠ c := (hcOpen.ne hx).symm
    rw [Handler.IsOpen, hother x hxc] at hx
    rw [hother x hxc, hp.other x hxc hx]

end Progress

/-- The class is not open and its library is there. -/
theorem openLibrary_ok (hi : Inv h) (hclosed : (h.get c).status.closed = true) {lib : Library}
    (hlib : env.dlopen (fname env c) = .library lib) :
    (openLibrary env h c).1 = 0 ∧ Progress env h c (openLibrary env h c).2 := by
  have hc : ¬ h.IsOpen c := fun hopen => by
    rw [Handler.IsOpen] at hopen
    rw [hopen] at hclosed
    contradiction
  obtain ⟨hopened, hother, hread⟩ := foldl_addDep (c := c) lib.deps
    (h.update c fun cls => { cls with handle := some lib })
  have hisOpen (x : Bytes) :
      (h.update c fun cls => { cls with handle := some lib }).IsOpen x ↔ h.IsOpen x := by
    by_cases hx : x = c
    · rw [hx, Handler.IsOpen, Handler.get_update_self]
      rfl
    · rw [Handler.IsOpen, Handler.get_update_of_ne hx, Handler.IsOpen]
  simp only [openLibrary, hlib]
  generalize lib.deps.foldl (addDep c) (h.update c fun cls => { cls with handle := some lib }) = h₁
    at hopened hother hread
  replace hother : ∀ x, x ≠ c → h₁.get x = h.get x := fun x hx => by
    rw [hother x hx, Handler.get_update_of_ne hx]
  rw [Handler.get_update_self] at hread
  obtain ⟨hstatus, hhandle, hmethods, hdeps, hmissing⟩ := hread
  simp only [hisOpen] at hmissing
  have hc₁ : ¬ h₁.IsOpen c := by rwa [Handler.IsOpen, hstatus]
  refine ⟨trivial, ?_, fun _ => ⟨lib, hlib⟩, by rw [hhandle]; rfl, hstatus, fun d hd => ?_,
    fun d hd => ?_, fun x hx => hother x (hx.ne hc), fun x hx => ?_, fun x hxc _ => hother x hxc⟩
  · refine hi.change hc hopened hother hc₁ ?_ ?_ ?_ (fun d hd => ?_) hmethods
    · rw [hstatus]
      exact hi.settled c
    · rw [hhandle]
      exact fun _ => rfl
    · rw [hhandle]
      rintro _ ⟨⟩ d hd
      exact (hdeps d).mpr (.inl hd)
    · rw [hmissing]
      rcases (hdeps d).mp hd with hmem | hmem
      · by_cases hd' : h.IsOpen d
        · exact .inr hd'
        · exact .inl (.inl ⟨hmem, hd'⟩)
      · exact (hi.known c d hmem).imp_left .inr
  · rcases (hmissing d).mp hd with ⟨hmem, -⟩ | hmem
    · exact ⟨hc, .inr ⟨hclosed, lib, hlib, hmem⟩⟩
    · exact ⟨hc, .inl hmem⟩
  · rw [hmissing]
    rcases hd with ⟨-, hmem | ⟨-, lib', hlib', hmem⟩⟩
    · exact .inr (.inr hmem)
    · obtain rfl : lib = lib' := by simpa [hlib] using hlib'
      by_cases hdOpen : h.IsOpen d
      · left
        rwa [Handler.IsOpen, hother d (hdOpen.ne hc)]
      · exact .inr (.inl ⟨hmem, hdOpen⟩)
  · have hxc := hx.ne hc₁
    rw [Handler.IsOpen, hother x hxc] at hx
    exact .inl hx

theorem openLibrary_fail (hi : Inv h) (hclosed : (h.get c).status.closed = true)
    (hlib : ¬ ∃ lib, env.dlopen (fname env c) = .library lib) :
    (openLibrary env h c).1 < 0 ∧
      Outcome env h c (openLibrary env h c).1 (openLibrary env h c).2 := by
  have hc : ¬ h.IsOpen c := fun hopen => by
    rw [Handler.IsOpen] at hopen
    rw [hopen] at hclosed
    contradiction
  have hget (x : Bytes) (hx : x ≠ c) :=
    Handler.get_update_of_ne (h := h)
      (f := fun cls => { cls with handle := none, status := .missing })
      hx
  have hcall : (openLibrary env h c).1 < 0 ∧ (openLibrary env h c).2 =
      h.update c fun cls => { cls with handle := none, status := .missing } := by
    rw [openLibrary]
    cases hopen : env.dlopen (fname env c) with
    | noFile errno hpos => exact ⟨by simpa using hpos, rfl⟩
    | notLibrary => exact ⟨by norm_num [ EIO], rfl⟩
    | library lib => exact absurd ⟨lib, hopen⟩ hlib
  obtain ⟨hr, heq⟩ := hcall
  have hc' :
      ¬ (h.update c fun cls => { cls with handle := none, status := .missing }).IsOpen c := by
    rw [Handler.IsOpen, Handler.get_update_self]
    simp
  rw [heq]
  refine ⟨hr, ?_, hr.le, fun x havail hhandle => ?_, fun x hx => hget x (hx.ne hc), fun x hx => ?_,
    fun hnot => absurd hr hnot⟩
  · refine hi.change hc rfl hget hc' ?_ ?_ ?_ ?_ ?_
    · simp
    · simp [Status.closed]
    · simp
    · simpa using hi.known c
    · simp
  · have hxc : x ≠ c := by
      rintro rfl
      exact hlib (havail hclosed)
    rw [Available, hget x hxc]
    exact ⟨havail, hhandle⟩
  · have hxc := hx.ne hc'
    rw [Handler.IsOpen, hget x hxc] at hx
    exact .inl hx

theorem resolve_spec {load : Handler → Bytes → Option (ℤ × Handler)}
    (hload : ∀ h d r h', Inv h → load h d = some (r, h') → Outcome env h d r h')
    (hc : ¬ h.IsOpen c) (ds : List Bytes) (hi : Handler) (hp : Progress env h c hi)
    (hds : ∀ d ∈ ds, Needs env h c d) (hmissing : ∀ d ∈ (hi.get c).missingDependencies, d ∈ ds)
    (hres : resolve load c ds hi = some (r, h')) :
    r < 0 ∧ Outcome env h c r h' ∨
      r = 0 ∧ Progress env h c h' ∧ (h'.get c).missingDependencies = [] := by
  induction ds generalizing hi with
  | nil =>
    simp only [resolve, Option.some.injEq, Prod.mk.injEq] at hres
    obtain ⟨rfl, rfl⟩ := hres
    exact .inr ⟨rfl, hp,
      List.eq_nil_iff_forall_not_mem.mpr fun d hd => by simpa using hmissing d hd⟩
  | cons d ds ih =>
    have hd := hds d (by simp)
    rw [resolve] at hres
    cases hj : load hi d with
    | none => simp [hj] at hres
    | some p =>
      obtain ⟨rj, hj'⟩ := p
      have ho := hload _ _ _ _ hp.inv hj
      simp only [hj] at hres
      split_ifs at hres with hr
      · simp only [Option.some.injEq, Prod.mk.injEq] at hres
        obtain ⟨rfl, rfl⟩ := hres
        exact .inl ⟨hr, hp.fail hc hd ho hr⟩
      · refine ih _ (hp.next hc hd ho hr) (fun e he => hds e (by simp [he])) (fun e he => ?_) hres
        obtain ⟨-, -, hsame⟩ := ho.done hr
        rw [Handler.get_update_self, hsame c (hp.not_isOpen hc hd ho)] at he
        obtain ⟨hmem, hne⟩ := List.mem_filter.mp he
        simpa [of_decide_eq_true hne] using hmissing e hmem

theorem beginLoad_ok (hi : Inv h) (hc : ¬ h.IsOpen c) (havail : Available env h c) :
    (beginLoad env h c).1 = 0 ∧ Progress env h c (beginLoad env h c).2 := by
  rw [beginLoad]
  split_ifs with hclosed
  · obtain ⟨lib, hlib⟩ := havail hclosed
    exact openLibrary_ok hi hclosed hlib
  · have hclosed' : (h.get c).status.closed = false := by simpa using hclosed
    exact ⟨rfl, hi, havail, hi.handled c hclosed', rfl, fun d hd => ⟨hc, .inl hd⟩,
      fun d hd => .inr (hd.2.resolve_right fun hx => hclosed hx.1), fun _ _ => rfl,
      fun x hx => .inl hx, fun _ _ _ => rfl⟩

theorem beginLoad_fail (hi : Inv h) (havail : ¬ Available env h c) :
    (beginLoad env h c).1 < 0 ∧ Outcome env h c (beginLoad env h c).1 (beginLoad env h c).2 := by
  rw [Available, Classical.not_imp] at havail
  rw [beginLoad, if_pos havail.1]
  exact openLibrary_fail hi havail.1 havail.2

theorem loadClass_of_isOpen (hc : h.IsOpen c) (fuel : ℕ) :
    loadClass env (fuel + 1) h c = some (0, h) := by
  rw [loadClass]
  exact if_pos hc

theorem loadClass_of_fail (hc : ¬ h.IsOpen c) (hr : (beginLoad env h c).1 < 0) (fuel : ℕ) :
    loadClass env (fuel + 1) h c = some (beginLoad env h c) := by
  rw [loadClass]
  exact (if_neg hc).trans (if_pos hr)

theorem loadClass_of_begin (hc : ¬ h.IsOpen c) (hr : ¬ (beginLoad env h c).1 < 0) (fuel : ℕ) :
    loadClass env (fuel + 1) h c =
      match resolve (loadClass env fuel) c
        (env.arrange ((beginLoad env h c).2.get c).missingDependencies) (beginLoad env h c).2 with
      | none => none
      | some (r, h) => if r < 0 then some (r, h) else some (0, initClass h c) := by
  rw [loadClass]
  exact (if_neg hc).trans (if_neg hr)

/-- **Every call.** -/
theorem loadClass_spec (env : Env) (fuel : ℕ) (hi : Inv h)
    (hcall : loadClass env fuel h c = some (r, h')) : Outcome env h c r h' := by
  induction fuel generalizing h c r h' with
  | zero => simp [loadClass] at hcall
  | succ fuel ih =>
    by_cases hc : h.IsOpen c
    · rw [loadClass_of_isOpen hc] at hcall
      cases hcall
      exact ⟨hi, le_rfl, fun _ => .intro, fun _ _ => rfl, fun _ hx => .inl hx,
        fun _ => ⟨.of_isOpen hc, hc, fun _ _ => rfl⟩⟩
    · by_cases havail : Available env h c
      · obtain ⟨hr, hp⟩ := beginLoad_ok hi hc havail
        rw [loadClass_of_begin hc (by rw [hr]; exact lt_irrefl 0)] at hcall
        generalize (beginLoad env h c).2 = h₁ at hp hcall
        have hmem (d : Bytes) : d ∈ env.arrange (h₁.get c).missingDependencies ↔
            d ∈ (h₁.get c).missingDependencies := (env.arrange_perm _).mem_iff
        cases hres : resolve (loadClass env fuel) c
            (env.arrange (h₁.get c).missingDependencies) h₁ with
        | none => simp [hres] at hcall
        | some q =>
          obtain ⟨r₂, h₂⟩ := q
          simp only [hres] at hcall
          rcases resolve_spec (fun h d r h' hi => ih hi) hc _ _ hp
            (fun d hd => hp.missing d ((hmem d).mp hd)) (fun d hd => (hmem d).mpr hd) hres
            with ⟨hr₂, ho⟩ | ⟨hr₂, hp₂, hmissing⟩
          · rw [if_pos hr₂] at hcall
            cases hcall
            exact ho
          · rw [hr₂, if_neg (lt_irrefl 0)] at hcall
            cases hcall
            exact hp₂.finish hc hmissing
      · obtain ⟨hr, ho⟩ := beginLoad_fail hi havail
        rw [loadClass_of_fail hc hr, Option.some.injEq] at hcall
        rwa [hcall] at ho

end Call

/-! ## Calls that end -/

section Termination

variable {env : Env} {h h' h₀ : Handler} {c d x : Bytes} {r : ℤ} {fuel fuel' : ℕ}

theorem resolve_mono {load load' : Handler → Bytes → Option (ℤ × Handler)}
    (hle : ∀ h d p, load h d = some p → load' h d = some p) (ds : List Bytes)
    {p : ℤ × Handler} (hres : resolve load c ds h = some p) : resolve load' c ds h = some p := by
  induction ds generalizing h with
  | nil => exact hres
  | cons d ds ih =>
    rw [resolve] at hres ⊢
    cases hd : load h d with
    | none => simp [hd] at hres
    | some q =>
      simp only [hd] at hres
      simp only [hle h d q hd]
      split_ifs at hres ⊢ with hr
      · exact hres
      · exact ih hres

theorem loadClass_mono (hle : fuel ≤ fuel') {p : ℤ × Handler}
    (hcall : loadClass env fuel h c = some p) : loadClass env fuel' h c = some p := by
  induction fuel generalizing fuel' h c p with
  | zero => simp [loadClass] at hcall
  | succ fuel ih =>
    obtain ⟨fuel', rfl⟩ := Nat.exists_eq_add_of_le' (Nat.lt_of_lt_of_le fuel.succ_pos hle)
    have hle' : fuel ≤ fuel' := Nat.succ_le_succ_iff.mp hle
    by_cases hc : h.IsOpen c
    · rwa [loadClass_of_isOpen hc] at hcall ⊢
    · by_cases hr : (beginLoad env h c).1 < 0
      · rwa [loadClass_of_fail hc hr] at hcall ⊢
      · rw [loadClass_of_begin hc hr] at hcall ⊢
        cases hres : resolve (loadClass env fuel) c
            (env.arrange ((beginLoad env h c).2.get c).missingDependencies)
            (beginLoad env h c).2 with
        | none => simp [hres] at hcall
        | some q =>
          rw [resolve_mono (fun h d p => ih hle') _ hres]
          rwa [hres] at hcall

/-- The loop ends if the calls it makes do, in whatever state they are made. -/
theorem exists_resolve (hc : ¬ h.IsOpen c) (hn : Narrows env h₀ h) (ds : List Bytes)
    (hds : ∀ d ∈ ds, Needs env h c d)
    (hend : ∀ d ∈ ds, ∀ hi, Inv hi → Narrows env h₀ hi →
      ∃ fuel h', loadClass env fuel hi d = some (0, h'))
    (hi : Handler) (hp : Progress env h c hi) :
    ∃ fuel h', resolve (loadClass env fuel) c ds hi = some (0, h') := by
  induction ds generalizing hi with
  | nil => exact ⟨0, hi, rfl⟩
  | cons d ds ih =>
    obtain ⟨fuel₁, hj, hcall⟩ := hend d (by simp) hi hp.inv (hn.trans hp.narrows)
    have ho := loadClass_spec env fuel₁ hp.inv hcall
    have hp' := hp.next hc (hds d (by simp)) ho (lt_irrefl 0)
    obtain ⟨fuel₂, h', hres⟩ := ih (fun e he => hds e (by simp [he]))
      (fun e he => hend e (by simp [he])) _ hp'
    refine ⟨max fuel₁ fuel₂, h', ?_⟩
    rw [resolve, loadClass_mono (le_max_left fuel₁ fuel₂) hcall]
    simp only [lt_irrefl, if_false]
    exact resolve_mono (fun h d p => loadClass_mono (le_max_right fuel₁ fuel₂)) ds hres

/-- A class that was loadable is loaded, whatever has been loaded since. -/
theorem exists_loadClass (hc : Loadable env h₀ c) :
    ∀ h, Inv h → Narrows env h₀ h → ∃ fuel h', loadClass env fuel h c = some (0, h') := by
  induction hc with
  | @intro c havail _ ih =>
    intro h hi hn
    by_cases hc : h.IsOpen c
    · exact ⟨1, h, loadClass_of_isOpen hc 0⟩
    · obtain ⟨hr, hp⟩ := beginLoad_ok hi hc ((hn c).1 havail)
      have hneeds : ∀ d ∈ env.arrange ((beginLoad env h c).2.get c).missingDependencies,
          Needs env h c d := fun d hd => hp.missing d ((env.arrange_perm _).mem_iff.mp hd)
      obtain ⟨fuel, h', hres⟩ := exists_resolve hc hn _ hneeds
        (fun d hd => ih d ((hn c).2 d (hneeds d hd))) _ hp
      refine ⟨fuel + 1, initClass h' c, ?_⟩
      rw [loadClass_of_begin hc (by rw [hr]; exact lt_irrefl 0), hres]
      exact if_neg (lt_irrefl 0)

theorem exists_loadClass_iff (hi : Inv h) :
    (∃ fuel h', loadClass env fuel h c = some (0, h') ∧ h'.IsOpen c) ↔ Loadable env h c := by
  constructor
  · rintro ⟨fuel, h', hcall, -⟩
    exact ((loadClass_spec env fuel hi hcall).done (lt_irrefl 0)).1
  · intro hc
    obtain ⟨fuel, h', hcall⟩ := exists_loadClass hc h hi fun x => ⟨id, fun _ => id⟩
    exact ⟨fuel, h', hcall, ((loadClass_spec env fuel hi hcall).done (lt_irrefl 0)).2.1⟩

end Termination

/-! ## Runs -/

section Runs

variable {env : Env} {h h' : Handler} {c d x : Bytes} {r : ℤ} {fuel : ℕ}

theorem Handler.isOpen_addClass : (h.addClass d).IsOpen x ↔ h.IsOpen x := by
  rw [IsOpen, get_addClass, IsOpen]

theorem Inv.addClass (hi : Inv h) : Inv (h.addClass d) where
  settled x := by simpa using hi.settled x
  handled x := by simpa using hi.handled x
  nodup := by simpa using hi.nodup
  mem_opened x := by simpa [Handler.isOpen_addClass] using hi.mem_opened x
  deps x := by simpa using hi.deps x
  known x := by simpa [Handler.isOpen_addClass] using hi.known x
  before l₁ x l₂ := by simpa using hi.before l₁ x l₂
  methods x := by simpa [Handler.isOpen_addClass] using hi.methods x

theorem Loadable.of_get (hget : ∀ x, h'.get x = h.get x) (hc : Loadable env h c) :
    Loadable env h' c := by
  induction hc with
  | @intro c havail _ ih =>
    refine .intro (by rwa [Available, hget]) fun d hd => ih d ?_
    rwa [Needs, Handler.IsOpen, hget] at hd

theorem getClass_eq_some_iff :
    h.getClass env c = some h' ↔
      ((h.classes.lookup c).isSome = true ∨ inClassList c env.loadList = true) ∧
        h' = h.addClass c := by
  rw [Handler.getClass]
  cases hlookup : h.classes.lookup c with
  | none => cases hlist : inClassList c env.loadList <;> simp [eq_comm (a := h')]
  | some cls => simp [eq_comm (a := h')]

theorem Inv.step {ev : Event} (hi : Inv h) (hstep : step h ev = some h') : Inv h' := by
  cases ev with
  | shutdown =>
    cases hstep
    exact .empty
  | openClass env c fuel =>
    obtain ⟨⟨r, h₁⟩, hcall, rfl⟩ := Option.map_eq_some_iff.mp hstep
    rw [openClass] at hcall
    cases hget : h.getClass env c with
    | none =>
      rw [hget] at hcall
      cases hcall
      exact hi
    | some h₂ =>
      rw [hget] at hcall
      obtain ⟨-, rfl⟩ := getClass_eq_some_iff.mp hget
      exact (loadClass_spec env fuel hi.addClass hcall).inv

theorem inv_of_reach (hreach : Reach step Free {} h) : Inv h :=
  hreach.invariant .empty fun _ _ _ hi _ hstep => hi.step hstep

end Runs

/-! ## Permission -/

section Permission

/-- `lib` names `d`: as a dependency, or as the class it registers methods for. -/
def Library.Names (lib : Library) (d : Bytes) : Prop :=
  d ∈ lib.deps ∨ ∃ rs r, lib.clsInit = some rs ∧ r ∈ rs ∧ r.cname = d

/-- `c` is in a load list, or the library of such a class names it, and so on. -/
inductive Granted (E : Env → Prop) : Bytes → Prop
  | listed {env : Env} {c : Bytes} (henv : E env) (hlist : inClassList c env.loadList = true) :
      Granted E c
  | named {env : Env} {c d : Bytes} {lib : Library} (henv : E env) (hc : Granted E c)
      (hlib : env.dlopen (fname env c) = .library lib) (hd : lib.Names d) : Granted E d

/-- Only classes that are granted are known, wait to be loaded, or have a library. -/
structure Guarded (E : Env → Prop) (h : Handler) : Prop where
  classes : ∀ c, (h.classes.lookup c).isSome = true → Granted E c
  missing : ∀ c, ∀ d ∈ (h.get c).missingDependencies, Granted E d
  handle : ∀ c lib, (h.get c).handle = some lib →
    ∃ env, E env ∧ env.dlopen (fname env c) = .library lib

variable {E : Env → Prop} {env : Env} {h h' : Handler} {c d : Bytes} {r : ℤ} {fuel : ℕ}

theorem Handler.isSome_lookup_update {f : ClassData → ClassData} {x : Bytes} :
    ((h.update c f).classes.lookup x).isSome = true ↔
      x = c ∨ (h.classes.lookup x).isSome = true := by
  rw [Handler.update, lookup_mapSet]
  split_ifs with hx
  · simp [hx]
  · simp [hx]

theorem Guarded.update (hg : Guarded E h) (hc : Granted E c) {f : ClassData → ClassData}
    (hmissing : ∀ d ∈ (f (h.get c)).missingDependencies, Granted E d)
    (hhandle : ∀ lib, (f (h.get c)).handle = some lib →
      ∃ env, E env ∧ env.dlopen (fname env c) = .library lib) : Guarded E (h.update c f) := by
  refine ⟨fun x hx => ?_, fun x => ?_, fun x => ?_⟩
  · rcases Handler.isSome_lookup_update.mp hx with rfl | hx
    · exact hc
    · exact hg.classes x hx
  · by_cases hx : x = c
    · rw [hx, Handler.get_update_self]
      exact hmissing
    · rw [Handler.get_update_of_ne hx]
      exact hg.missing x
  · by_cases hx : x = c
    · rw [hx, Handler.get_update_self]
      exact hhandle
    · rw [Handler.get_update_of_ne hx]
      exact hg.handle x

theorem Guarded.addClass (hg : Guarded E h) (hd : Granted E d) : Guarded E (h.addClass d) := by
  rw [Handler.addClass]
  split_ifs
  · exact hg
  · exact hg.update hd (hg.missing d) (hg.handle d)

theorem Guarded.addDep (hg : Guarded E h) (hc : Granted E c) (hd : Granted E d) :
    Guarded E (addDep c h d) := by
  rw [ClassHandler.addDep]
  refine (hg.addClass hd).update hc ?_ ((hg.addClass hd).handle c)
  intro e he
  simp only at he
  split_ifs at he
  · exact (hg.addClass hd).missing c e he
  · rcases mem_setInsert.mp he with rfl | he
    · exact hd
    · exact (hg.addClass hd).missing c e he

theorem Guarded.register (hg : Guarded E h) {reg : Registration} (hreg : Granted E reg.cname) :
    Guarded E (register h reg) := by
  simp only [ClassHandler.register]
  split_ifs
  · have hadded := hg.addClass hreg
    exact hadded.update hreg (hadded.missing _) (hadded.handle _)
  · exact hg.addClass hreg

/-- The list rule for a fold over names that are granted. -/
theorem Guarded.foldl {β : Type*} {f : Handler → β → Handler} {P : β → Prop}
    (hf : ∀ h b, Guarded E h → P b → Guarded E (f h b)) (bs : List β) (hbs : ∀ b ∈ bs, P b)
    (hg : Guarded E h) : Guarded E (bs.foldl f h) := by
  induction bs generalizing h with
  | nil => exact hg
  | cons b bs ih => exact ih (fun b' hb' => hbs b' (by simp [hb'])) (hf h b hg (hbs b (by simp)))

theorem Guarded.beginLoad (hE : E env) (hg : Guarded E h) (hc : Granted E c) :
    Guarded E (beginLoad env h c).2 := by
  have hmissing :
      Guarded E (h.update c fun cls => { cls with handle := none, status := .missing }) :=
    hg.update hc (hg.missing c) (by simp)
  rw [ClassHandler.beginLoad]
  split_ifs
  · rw [openLibrary]
    cases hlib : env.dlopen (fname env c) with
    | noFile errno hpos => exact hmissing
    | notLibrary => exact hmissing
    | library lib =>
      refine Guarded.foldl (P := Granted E) (fun h d hg hd => hg.addDep hc hd) lib.deps
        (fun d hd => .named hE hc hlib (.inl hd)) ?_
      refine hg.update hc (hg.missing c) fun lib' hlib' => ⟨env, hE, ?_⟩
      rw [hlib]
      exact congrArg _ (Option.some.inj hlib')
  · exact hg

theorem Guarded.initClass (hg : Guarded E h) (hc : Granted E c) : Guarded E (initClass h c) := by
  have hopen (h : Handler) (hg : Guarded E h) : Guarded E (h.setOpen c) := by
    have hg' := hg.update (f := fun cls => { cls with status := .opened }) hc (hg.missing c)
      (hg.handle c)
    exact ⟨hg'.classes, hg'.missing, hg'.handle⟩
  rw [ClassHandler.initClass]
  cases hinit : (h.get c).handle.bind Library.clsInit with
  | none => exact hopen h hg
  | some rs =>
    obtain ⟨lib, hlib, hrs⟩ := Option.bind_eq_some_iff.mp hinit
    obtain ⟨env, hE, hdl⟩ := hg.handle c lib hlib
    refine hopen _ (Guarded.foldl (P := fun reg => Granted E reg.cname)
      (fun h reg hg hreg => hg.register hreg) rs (fun reg hreg => ?_) ?_)
    · exact .named hE hc hdl (.inr ⟨rs, reg, hrs, hreg, rfl⟩)
    · exact hg.update hc (hg.missing c) (hg.handle c)

theorem Guarded.resolve {load : Handler → Bytes → Option (ℤ × Handler)}
    (hload : ∀ h d r h', Guarded E h → Granted E d → load h d = some (r, h') → Guarded E h')
    (hc : Granted E c) (ds : List Bytes) (hds : ∀ d ∈ ds, Granted E d) (hg : Guarded E h)
    (hres : resolve load c ds h = some (r, h')) : Guarded E h' := by
  induction ds generalizing h with
  | nil =>
    cases hres
    exact hg
  | cons d ds ih =>
    rw [ClassHandler.resolve] at hres
    cases hj : load h d with
    | none => simp [hj] at hres
    | some q =>
      obtain ⟨rj, hj'⟩ := q
      have hgj := hload h d rj hj' hg (hds d (by simp)) hj
      simp only [hj] at hres
      split_ifs at hres
      · cases hres
        exact hgj.update hc (hgj.missing c) (hgj.handle c)
      · refine ih (fun e he => hds e (by simp [he])) (hgj.update hc (fun e he => ?_) (hgj.handle c))
          hres
        exact hgj.missing c e (List.mem_filter.mp he).1

theorem Guarded.loadClass (hE : E env) (fuel : ℕ) (hg : Guarded E h) (hc : Granted E c)
    (hcall : loadClass env fuel h c = some (r, h')) : Guarded E h' := by
  induction fuel generalizing h c r h' with
  | zero => simp [ClassHandler.loadClass] at hcall
  | succ fuel ih =>
    have hg₁ := hg.beginLoad hE hc
    by_cases hopen : h.IsOpen c
    · rw [loadClass_of_isOpen hopen] at hcall
      cases hcall
      exact hg
    · by_cases hr : (ClassHandler.beginLoad env h c).1 < 0
      · rw [loadClass_of_fail hopen hr, Option.some.injEq] at hcall
        rwa [hcall] at hg₁
      · rw [loadClass_of_begin hopen hr] at hcall
        cases hres : ClassHandler.resolve (ClassHandler.loadClass env fuel) c
            (env.arrange ((ClassHandler.beginLoad env h c).2.get c).missingDependencies)
            (ClassHandler.beginLoad env h c).2 with
        | none => simp [hres] at hcall
        | some q =>
          obtain ⟨r₂, h₂⟩ := q
          have hg₂ := Guarded.resolve (fun h d r h' hg hd => ih hg hd) hc _
            (fun d hd => hg₁.missing c d ((env.arrange_perm _).mem_iff.mp hd)) hg₁ hres
          simp only [hres] at hcall
          split_ifs at hcall
          · cases hcall
            exact hg₂
          · cases hcall
            exact hg₂.initClass hc

/-- Every call of the run sees an environment of `E`. -/
def Within (E : Env → Prop) (_ : Handler) : Event → Prop
  | .openClass env _ _ => E env
  | .shutdown => True

theorem Guarded.step {ev : Event} (hg : Guarded E h) (hok : Within E h ev)
    (hstep : step h ev = some h') : Guarded E h' := by
  cases ev with
  | shutdown =>
    cases hstep
    exact ⟨by simp, by simp, by simp⟩
  | openClass env c fuel =>
    obtain ⟨⟨r, h₁⟩, hcall, rfl⟩ := Option.map_eq_some_iff.mp hstep
    rw [openClass] at hcall
    cases hget : h.getClass env c with
    | none =>
      rw [hget] at hcall
      cases hcall
      exact hg
    | some h₂ =>
      rw [hget] at hcall
      obtain ⟨hpermitted, rfl⟩ := getClass_eq_some_iff.mp hget
      have hc : Granted E c := by
        rcases hpermitted with hknown | hlist
        · exact hg.classes c hknown
        · exact .listed hok hlist
      exact (hg.addClass hc).loadClass hok fuel hc hcall

/-- **No class is opened that no load list stands behind.** The list is read only for a class that
is new, so what a run opens is what the lists give and what the libraries of such classes name,
whether or not these could be opened. -/
theorem granted_of_isOpen (hreach : Reach step (Within E) {} h) (hc : h.IsOpen c) :
    Granted E c := by
  have hg : Guarded E h := hreach.invariant ⟨by simp, by simp, by simp⟩
    fun _ _ _ hg hok hstep => hg.step hok hstep
  refine hg.classes c ?_
  rw [Handler.IsOpen, Handler.get] at hc
  cases hlookup : h.classes.lookup c with
  | none => simp [hlookup] at hc
  | some cls => rfl

/-- `b` is in no load list, and `a` stands behind it. -/
theorem granted_of_isOpen_named :
    ∃ h, Reach step (Within (· = threeLibraries)) {} h ∧ h.IsOpen (ascii ['b']) ∧
      inClassList (ascii ['b']) threeLibraries.loadList = false ∧
      Granted (· = threeLibraries) (ascii ['b']) := by
  obtain ⟨h, hreach, hp⟩ := exists_reach_of_run step (Within (· = threeLibraries)) {}
    [.openClass threeLibraries (ascii ['a']) 3]
    (fun h => h.IsOpen (ascii ['b'])) (by decide) fun ev hev _ => by
      rw [List.mem_singleton.mp hev]
      exact rfl
  have hopen := of_decide_eq_true hp
  exact ⟨h, hreach, hopen, by decide, granted_of_isOpen hreach hopen⟩

end Permission

end GcAdaptor.ClassHandler
