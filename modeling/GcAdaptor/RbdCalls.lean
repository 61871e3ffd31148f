/-
The calls into librbd: `CephLibrbdSnapRemove`, `CephLibrbdGetImageInfo` and `CephLibrbdDiskUsage`
(`ceph_proxy/RbdWrapper.cc`).

Each one joins the shared client, opens a context, opens images, and undoes all of it behind its
labels. They are programs over the calls they make, so that a result about every run is a result
about every answer of librados and librbd.

`const char *p = result[1].str().c_str()` dangles when `strtol` reads it. What is read there is an
answer, too.
-/
import GcAdaptor.CallTrace
import GcAdaptor.Cxx

set_option autoImplicit false

namespace GcAdaptor.RbdCalls

open GcAdaptor.Wire GcAdaptor.Cxx GcAdaptor.CallTrace

/-! ## The calls -/

def EINVAL : ℤ := 22
def ENOENT : ℤ := 2
def EACCES : ℤ := 13
def MB : ℕ := 1024 * 1024

/-- `snap = none` is the image itself. -/
inductive Call
  | radosInit (confMap : List (Bytes × Bytes))
  | radosShutdown
  | initFlag
  | ioctxCreate (poolName : Bytes)
  | ioctxCreate2 (poolId : ℤ)
  | namespaceExists (namespaceName : Bytes)
  | setNamespace (namespaceName : Bytes)
  | ioctxClose
  | setOsdmapFullTry
  | openById (imageId : Bytes)
  | open (imageName : Bytes)
  | openReadOnly (imageName : Bytes) (snap : Option Bytes)
  | imageClose (snap : Option Bytes)
  | stat
  | snapRemove2 (snapName : Bytes) (force : Bool)
  | snapRemoveById (snapId : ℕ)
  | monCommand (cmd : Bytes)
  | newChars (size : ℕ)
  | deleteChars
  | strtol (text : Bytes)
  | list2
  | snapList
  | diffIterate2 (snap fromSnap : Option Bytes) (size : ℕ)

/-- `rbd_image_info_t` -/
structure ImageInfo where
  size : ℕ
  numObjs : ℕ
  deriving Inhabited

structure SnapInfo where
  name : Bytes
  size : ℕ
  deriving DecidableEq

/-- What is answered. `strtol` answers its value, and whether the text has been refused;
`diff_iterate2` answers the extents it has given to the callback, each with `exists`. -/
@[reducible] def Answer : Call → Type
  | .radosShutdown | .setNamespace _ | .ioctxClose | .setOsdmapFullTry | .imageClose _
  | .deleteChars => Unit
  | .initFlag | .newChars _ => Bool
  | .namespaceExists _ => ℤ × Bool
  | .stat => ℤ × ImageInfo
  | .monCommand _ => ℤ × Bytes
  | .strtol _ => ℤ × Bool
  | .list2 => ℤ × List Bytes
  | .snapList => ℤ × List SnapInfo
  | .diffIterate2 .. => ℤ × List (ℕ × Bool)
  | _ => ℤ

abbrev M := Prog Call Answer

def call (c : Call) : M (Answer c) := perform c

def radosInit (confMap : List (Bytes × Bytes)) : M ℤ := call (.radosInit confMap)
def radosShutdown : M Unit := call .radosShutdown
def initFlag : M Bool := call .initFlag
def namespaceExists (namespaceName : Bytes) : M (ℤ × Bool) := call (.namespaceExists namespaceName)
def setNamespace (namespaceName : Bytes) : M Unit := call (.setNamespace namespaceName)
def ioctxClose : M Unit := call .ioctxClose
def setOsdmapFullTry : M Unit := call .setOsdmapFullTry
def openReadOnly (imageName : Bytes) (snap : Option Bytes) : M ℤ :=
  call (.openReadOnly imageName snap)
def imageClose (snap : Option Bytes) : M Unit := call (.imageClose snap)
def stat : M (ℤ × ImageInfo) := call .stat
def clientMonCommand (cmd : Bytes) : M (ℤ × Bytes) := call (.monCommand cmd)
def newChars (size : ℕ) : M Bool := call (.newChars size)
def deleteChars : M Unit := call .deleteChars
def strtol (text : Bytes) : M (ℤ × Bool) := call (.strtol text)
def list2 : M (ℤ × List Bytes) := call .list2
def snapList : M (ℤ × List SnapInfo) := call .snapList
def diffIterate2 (snap fromSnap : Option Bytes) (size : ℕ) : M (ℤ × List (ℕ × Bool)) :=
  call (.diffIterate2 snap fromSnap size)

/-! ## A context and an image -/

def ioctxSetNamespace (namespaceName : Bytes) : M ℤ := do
  if namespaceName = [] then
    setNamespace namespaceName
    return 0
  else
    let (r, exist) ← namespaceExists namespaceName
    if r < 0 then
      return r
    else if !exist then
      return -ENOENT
    else
      setNamespace namespaceName
      return 0

/-- `pool_name.empty() ? ioctx_create2 : ioctx_create` -/
def ioctxCreate (poolName : Bytes) (poolId : ℤ) : M ℤ :=
  if poolName ≠ [] then call (.ioctxCreate poolName) else call (.ioctxCreate2 poolId)

def ioctxInit (poolName : Bytes) (poolId : ℤ) (namespaceName : Bytes) : M ℤ := do
  let initFlag ← initFlag
  if !initFlag then
    return -1
  else
    let ret ← ioctxCreate poolName poolId
    if ret < 0 then
      return ret
    else
      let ret ← ioctxSetNamespace namespaceName
      if ret < 0 then
        ioctxClose
        return ret
      else
        return ret

def ioctxOpenImage (imageName imageId : Bytes) : M ℤ :=
  if imageId ≠ [] then call (.openById imageId) else call (.open imageName)

def imageRemoveSnap (snapName : Bytes) (snapId : ℕ) (force : Bool) : M ℤ :=
  if snapName ≠ [] then call (.snapRemove2 snapName force) else call (.snapRemoveById snapId)

/-- `if (ret == -ENOENT) ret = 0;` -/
def forgive (ret : ℤ) : ℤ := if ret = -ENOENT then 0 else ret

def noWritethrough : List (Bytes × Bytes) :=
  [(ascii "rbd_cache_writethrough_until_flush".toList, ascii "false".toList)]

/-! ## `CephLibrbdSnapRemove` -/

/-- Behind the label `close_image`, and the part in front of it. -/
def removeFromImage (snapId : ℕ) (force : Bool) : M ℤ := do
  let ret ← imageRemoveSnap [] snapId force
  let ret := if ret < 0 then forgive ret else ret
  imageClose none
  return ret

/-- The same for `close_ioctx`. -/
def removeFromPool (imageId : Bytes) (snapId : ℕ) (force : Bool) : M ℤ := do
  setOsdmapFullTry
  let ret ← ioctxOpenImage [] imageId
  let ret ← (if ret < 0 then pure (forgive ret) else removeFromImage snapId force : M ℤ)
  ioctxClose
  return ret

/-- `none` is a null pointer. -/
def cephLibrbdSnapRemove (poolId : ℤ) (namespaceName imageId : Option Bytes) (snapId : ℕ)
    (force : Bool) : M ℤ := do
  match namespaceName, imageId with
  | some namespaceName, some imageId =>
    if poolId = 0 then
      return -EINVAL
    else if imageId = [] then
      return -EINVAL
    else if snapId = 0 then
      return -EINVAL
    else
      let ret ← radosInit noWritethrough
      if ret < 0 then
        return ret
      else
        let ret ← ioctxInit [] poolId namespaceName
        let ret ← (if ret < 0 then pure (forgive ret) else
          removeFromPool imageId snapId force : M ℤ)
        radosShutdown
        return ret
  | _, _ => return -EINVAL

/-! ## `CephLibrbdGetImageInfo` -/

/-- The result, and what is written to `*num_objs`. -/
def infoOfImage : M (ℤ × Option ℤ) := do
  let (ret, info) ← stat
  imageClose none
  return (ret, if ret < 0 then none else some (int32 info.numObjs))

def infoOfPool (imageId : Bytes) : M (ℤ × Option ℤ) := do
  let ret ← ioctxOpenImage [] imageId
  let r ← (if ret < 0 then pure (ret, none) else infoOfImage : M (ℤ × Option ℤ))
  ioctxClose
  return r

def cephLibrbdGetImageInfo (poolId : ℤ) (imageId : Option Bytes) (numObjs : Bool) :
    M (ℤ × Option ℤ) := do
  match imageId, numObjs with
  | some imageId, true =>
    let ret ← radosInit []
    if ret < 0 then
      return (ret, none)
    else
      let ret ← ioctxInit [] poolId []
      let r ← (if ret < 0 then pure (ret, none) else infoOfPool imageId : M (ℤ × Option ℤ))
      radosShutdown
      return r
  | _, _ => return (-EINVAL, none)

/-! ## The pools -/

structure SigPoolInfo where
  poolId : ℤ
  poolName : Bytes
  ecProfileName : Bytes := []
  isEC : Bool := false
  k : ℤ := 0
  m : ℤ := 0

/-- `std::string(c_str())` of what the monitor has answered. -/
def monCommand (cmd : Bytes) : M (ℤ × Bytes) := do
  let initFlag ← initFlag
  if !initFlag then
    return (-1, [])
  else
    let (ret, out) ← clientMonCommand cmd
    if ret < 0 then
      return (ret, [])
    else
      return (0, cStr out)

def isDigitChar (c : UInt8) : Bool := 48 ≤ c && c ≤ 57

/-- `\w` -/
def isWord (c : UInt8) : Bool :=
  isDigitChar c || (65 ≤ c && c ≤ 90) || (97 ≤ c && c ≤ 122) || c == 95

/-- `\s*(\d+)\s+(\S+)` -/
def poolLine (line : Bytes) : Option (Bytes × Bytes) :=
  let line := line.dropWhile isSpace
  let id := line.takeWhile isDigitChar
  let rest := line.dropWhile isDigitChar
  let name := rest.dropWhile isSpace
  if id ≠ [] ∧ rest ≠ name ∧ name ≠ [] ∧ name.all (!isSpace ·) then some (id, name) else none

/-- `(\w+)=(\w+)` -/
def assignLine (line : Bytes) : Option (Bytes × Bytes) :=
  match line.takeWhile isWord, line.dropWhile isWord with
  | [], _ => none
  | _, [] => none
  | key, c :: val => if c = 61 ∧ val ≠ [] ∧ val.all isWord then some (key, val) else none

/-- `erasure_code_profile:\s(\S+)\n?` -/
def profileLine (out : Bytes) : Option Bytes :=
  let mark := ascii "erasure_code_profile:".toList
  match out.drop mark.length with
  | [] => none
  | c :: rest =>
    let name := rest.takeWhile (!isSpace ·)
    let tail := rest.dropWhile (!isSpace ·)
    if out.take mark.length = mark ∧ isSpace c ∧ name ≠ [] ∧ (tail = [] ∨ tail = [10]) then
      some name
    else none

/-- The loop over the lines of `ceph osd lspools`; `break` where a number has been refused. -/
def poolLoop : List Bytes → List (ℤ × SigPoolInfo) → M (List (ℤ × SigPoolInfo))
  | [], poolMap => return poolMap
  | line :: lines, poolMap =>
    match poolLine line with
    | none => poolLoop lines poolMap
    | some (id, name) => do
      let (poolId, refused) ← strtol id
      if refused then
        return poolMap
      else
        poolLoop lines (mapSet poolId { poolId := poolId, poolName := name } poolMap)

def parsePoolMap (outs : Bytes) : M (Except ℤ (List (ℤ × SigPoolInfo))) := do
  let allocated ← newChars (outs.length + 1)
  if !allocated then
    return .error (-1)
  else
    let poolMap ← poolLoop (strtok 10 outs) []
    deleteChars
    return .ok poolMap

/-- The loop over the lines of a profile. A number that has been refused is kept, and ends it. -/
def scaleLoop : List Bytes → SigPoolInfo → M SigPoolInfo
  | [], info => return info
  | line :: lines, info =>
    match assignLine line with
    | none => scaleLoop lines info
    | some (key, val) =>
      if key = ascii ['k'] then do
        let (n, refused) ← strtol val
        if refused then return { info with k := int32 n }
        else scaleLoop lines { info with k := int32 n }
      else if key = ascii ['m'] then do
        let (n, refused) ← strtol val
        if refused then return { info with m := int32 n }
        else scaleLoop lines { info with m := int32 n }
      else scaleLoop lines info

def getCmd (before name : Bytes) : Bytes := before ++ name ++ ascii "\"\x7d".toList

/-- `ceph osd erasure-code-profile get` -/
def profileGet (ecProfileName : Bytes) : Bytes :=
  getCmd (ascii "\x7b\"prefix\": \"osd erasure-code-profile get\", \"name\": \"".toList)
    ecProfileName

/-- `ceph osd pool get` -/
def poolGet (poolName : Bytes) : Bytes :=
  getCmd (ascii
    "\x7b\"var\": \"erasure_code_profile\", \"prefix\": \"osd pool get\", \"pool\": \"".toList)
    poolName

def getECPoolScale (info : SigPoolInfo) : M (Except ℤ SigPoolInfo) := do
  let (ret, outs) ← monCommand (profileGet info.ecProfileName)
  if ret ≠ 0 then
    return .error ret
  else
    let allocated ← newChars (outs.length + 1)
    if !allocated then
      return .error (-1)
    else
      let info ← scaleLoop (strtok 10 outs) info
      deleteChars
      return .ok info

/-- What `CalPoolProperty` does for one pool. -/
def poolProperty (info : SigPoolInfo) : M (Except ℤ SigPoolInfo) := do
  let (ret, outs) ← monCommand (poolGet info.poolName)
  if ret < 0 then
    if ret = -EACCES then
      return .ok { info with isEC := false, k := 1, m := 2 }
    else
      return .error ret
  else
    match profileLine outs with
    | none => return .error (-1)
    | some name =>
      match ← getECPoolScale { info with isEC := true, k := 0, m := 0, ecProfileName := name } with
      | .error ret => return .error ret
      | .ok info =>
        if info.k = 0 ∨ info.m = 0 then return .error (-1) else return .ok info

/-- One turn of the loop of `CalPoolProperty`, with the pools that are done. -/
def propertyTurn (done : List SigPoolInfo) (p : ℤ × SigPoolInfo) :
    M (Except ℤ (List SigPoolInfo)) := do
  match ← poolProperty p.2 with
  | .error ret => return .error ret
  | .ok info => return .ok (done ++ [info])

def calPoolProperty (poolMap : List (ℤ × SigPoolInfo)) : M (Except ℤ (List SigPoolInfo)) :=
  loop propertyTurn poolMap []

/-! ## The images -/

/-- `DiffCallback`, over all extents. -/
def diffUsed (extents : List (ℕ × Bool)) : ℕ :=
  extents.foldl (fun used e => if e.2 then add64 used e.1 else used) 0

/-- `snapFrom`: a snapshot has a name. -/
def snapFrom (lastSnap : Bytes) : Option Bytes := if lastSnap = [] then none else some lastSnap

/-- One turn of the loop over the snapshots, with `info.usage` and `lastSnap`. The image it opens is
closed by its destructor where the turn ends well. -/
def snapTurn (imageName : Bytes) (s : ℕ × Bytes) (snap : SnapInfo) : M (Except ℤ (ℕ × Bytes)) := do
  let ret ← openReadOnly imageName (some snap.name)
  if ret < 0 then
    return .error ret
  else
    let (ret, extents) ← diffIterate2 (some snap.name) (snapFrom s.2) snap.size
    imageClose (some snap.name)
    if ret < 0 then
      return .error ret
    else
      return .ok (add64 s.1 (diffUsed extents), snap.name)

/-- What is between `open_read_only` and the label `image_close`. -/
def imageUsage (imageName : Bytes) (usage : ℕ) : M (Except ℤ (ℤ × ℕ)) := do
  let (ret, state) ← stat
  if ret < 0 then
    return .error ret
  else
    let (ret, snapList) ← snapList
    if ret < 0 then
      return .error ret
    else
      match ← loop (snapTurn imageName) snapList (usage, []) with
      | .error ret => return .error ret
      | .ok (usage, lastSnap) =>
        let (ret, extents) ← diffIterate2 none (snapFrom lastSnap) state.size
        if ret < 0 then
          return .error ret
        else
          return .ok (ret, add64 usage (diffUsed extents))

/-- The result and `info.usage`. -/
def calImageUsage (s : ℤ × ℕ) (imageName : Bytes) : M (Except ℤ (ℤ × ℕ)) := do
  let ret ← openReadOnly imageName none
  if ret < 0 then
    return .error ret
  else
    let r ← imageUsage imageName s.2
    imageClose none
    return r

/-- One turn of the loop of `CalPoolUsage`, with the result so far and the pools that are done. -/
def poolUsage (s : ℤ × List (SigPoolInfo × ℕ)) (info : SigPoolInfo) :
    M (Except ℤ (ℤ × List (SigPoolInfo × ℕ))) := do
  let ret ← ioctxInit info.poolName 0 []
  if ret < 0 then
    return .error ret
  else
    let (ret, images) ← list2
    if ret < 0 then
      ioctxClose
      return .error ret
    else
      let r ← loop calImageUsage images (ret, 0)
      ioctxClose
      match r with
      | .error ret => return .error ret
      | .ok (ret, usage) => return .ok (ret, s.2 ++ [(info, usage)])

/-- An `int` in a product of 64-bit words. -/
def word64 (z : ℤ) : ℕ := (z % 2 ^ 64).toNat

/-- `info.usage * (info.k + info.m) / info.k` -/
def share (info : SigPoolInfo) (usage : ℕ) : ℕ :=
  usage * word64 (info.k + info.m) % 2 ^ 64 / word64 info.k

def totalUsage (pools : List (SigPoolInfo × ℕ)) : ℕ :=
  pools.foldl (fun usage p => add64 usage (share p.1 p.2)) 0 / MB

def lspools : Bytes := ascii "\x7b\"prefix\":\"osd lspools\"\x7d".toList

/-- Between `RadosInit` and the label `shutdown`. -/
def diskUsage : M (ℤ × Option ℕ) := do
  let (ret, outs) ← monCommand lspools
  if ret < 0 then
    return (ret, none)
  else
    match ← parsePoolMap outs with
    | .error ret => return (ret, none)
    | .ok poolMap =>
      match ← calPoolProperty poolMap with
      | .error ret => return (ret, none)
      | .ok pools =>
        match ← loop poolUsage pools (0, []) with
        | .error ret => return (ret, none)
        | .ok (ret, pools) => return (ret, some (totalUsage pools))

/-- The result, and what is written to `*usage`. -/
def cephLibrbdDiskUsage (usage : Bool) : M (ℤ × Option ℕ) := do
  if !usage then
    return (-EINVAL, none)
  else
    let ret ← radosInit noWritethrough
    if ret < 0 then
      return (ret, none)
    else
      let r ← diskUsage
      radosShutdown
      return r

/-! ## What is opened is closed -/

/-- A reference to the shared client, a context in it, an image in that, and a buffer. -/
inductive Resource
  | client
  | ioctx
  | image (snap : Option Bytes)
  | chars
  deriving DecidableEq

/-- A call that opens `x` where it does not fail. -/
def opens (needs : List Resource) (x : Resource) (ret : ℤ) : Effect Resource :=
  if ret < 0 then { needs := needs } else { needs := needs, takes := [x] }

def effect : (Σ c, Answer c) → Effect Resource
  | ⟨.radosInit _, ret⟩ => opens [] .client ret
  | ⟨.radosShutdown, _⟩ => { drops := [.client] }
  | ⟨.initFlag, _⟩ | ⟨.monCommand _, _⟩ => { needs := [.client] }
  | ⟨.ioctxCreate _, ret⟩ | ⟨.ioctxCreate2 _, ret⟩ => opens [.client] .ioctx ret
  | ⟨.namespaceExists _, _⟩ | ⟨.setNamespace _, _⟩ | ⟨.setOsdmapFullTry, _⟩ | ⟨.list2, _⟩ =>
    { needs := [.client, .ioctx] }
  | ⟨.ioctxClose, _⟩ => { needs := [.client], drops := [.ioctx] }
  | ⟨.openById _, ret⟩ | ⟨.open _, ret⟩ => opens [.client, .ioctx] (.image none) ret
  | ⟨.openReadOnly _ snap, ret⟩ => opens [.client, .ioctx] (.image snap) ret
  | ⟨.imageClose snap, _⟩ => { needs := [.client, .ioctx], drops := [.image snap] }
  | ⟨.stat, _⟩ | ⟨.snapList, _⟩ | ⟨.snapRemove2 .., _⟩ | ⟨.snapRemoveById _, _⟩ =>
    { needs := [.client, .ioctx, .image none] }
  | ⟨.diffIterate2 snap _ _, _⟩ => { needs := [.client, .ioctx, .image snap] }
  | ⟨.newChars _, allocated⟩ => opens [] .chars (cond allocated 0 (-1))
  | ⟨.deleteChars, _⟩ => { drops := [.chars] }
  | ⟨.strtol _, _⟩ => {}

/-- Every call is allowed. -/
def every (e : Σ c, Answer c) : Option (Effect Resource) := some (effect e)

/-- Images are not compared. -/
def quiet : (Σ c, Answer c) → Option (Effect Resource)
  | ⟨.diffIterate2 .., _⟩ => none
  | e => some (effect e)

theorem every_of_quiet (e : Σ c, Answer c) (x : Effect Resource) (h : quiet e = some x) :
    every e = some x := by
  obtain ⟨c, r⟩ := e
  cases c <;> first | exact h | cases h

section Triples

variable {held : List Resource} {eff : (Σ c, Answer c) → Option (Effect Resource)}

theorem settle_opens {needs : List Resource} {x : Resource} {ret : ℤ}
    (h : ∀ r ∈ needs, r ∈ held) :
    (opens needs x ret).settle held = some (if ret < 0 then held else x :: held) := by
  rw [opens]
  split_ifs
  · exact settle_needs h
  · exact settle_takes h

/-- What is held with a context open. -/
def inPool : List Resource := [.ioctx, .client]

/-- And with an image open. -/
def inImage : List Resource := .image none :: inPool

/-- Nothing is said about the result. -/
def Any {α : Type} (_ : α) : Prop := True

/-- A failed step has a negative result. -/
def Negative {α : Type} (r : Except ℤ α) : Prop := ∀ e, r = .error e → e < 0

theorem negative_ok {α : Type} {a : α} : Negative (.ok a) := fun _ he => nomatch he

theorem negative_error {α : Type} {e : ℤ} (h : e < 0) : Negative (.error e : Except ℤ α) := by
  rintro _ ⟨⟩
  exact h

theorem needs_triple (c : Call) {needs : List Resource}
    (heff : ∀ r, eff ⟨c, r⟩ = some { needs := needs }) (h : ∀ r ∈ needs, r ∈ held) :
    Triple eff held (call c) (fun _ => held) Any :=
  .perform (fun r => by rw [heff r, Option.bind_some, settle_needs h]) fun _ => trivial

theorem opens_triple (c : Call) {needs : List Resource} {x : Resource}
    {held' : Answer c → List Resource} (ret : Answer c → ℤ)
    (heff : ∀ r, eff ⟨c, r⟩ = some (opens needs x (ret r))) (h : ∀ r ∈ needs, r ∈ held)
    (hpost : ∀ r, held' r = if ret r < 0 then held else x :: held) :
    Triple eff held (call c) held' Any :=
  .perform (fun r => by rw [heff r, Option.bind_some, settle_opens h, hpost r]) fun _ => trivial

theorem drops_triple (c : Call) {needs : List Resource} {x : Resource}
    (heff : ∀ r, eff ⟨c, r⟩ = some { needs := needs, drops := [x] })
    (h : ∀ r ∈ needs, r ∈ x :: held) : Triple eff (x :: held) (call c) (fun _ => held) Any :=
  .perform (fun r => by rw [heff r, Option.bind_some, settle_drops h]) fun _ => trivial

theorem initFlag_triple (h : .client ∈ held) :
    Triple quiet held initFlag (fun _ => held) Any :=
  needs_triple .initFlag (fun _ => rfl) (by simpa using h)

theorem ioctxClose_triple : Triple quiet inPool ioctxClose (fun _ => [.client]) Any :=
  drops_triple .ioctxClose (fun _ => rfl) (by simp)

theorem imageClose_triple (snap : Option Bytes) (h : .client ∈ held ∧ .ioctx ∈ held) :
    Triple quiet (.image snap :: held) (imageClose snap) (fun _ => held) Any :=
  drops_triple (.imageClose snap) (fun _ => rfl) (by simpa using h)

theorem close_triple : Triple quiet inImage (imageClose none) (fun _ => inPool) Any :=
  imageClose_triple none (by simp [inPool])

theorem radosShutdown_triple : Triple quiet [.client] radosShutdown (fun _ => []) Any :=
  drops_triple .radosShutdown (fun _ => rfl) (by simp)

theorem radosInit_triple (confMap : List (Bytes × Bytes)) :
    Triple quiet [] (radosInit confMap) (fun ret => if ret < 0 then [] else [.client]) Any :=
  opens_triple (.radosInit confMap) (fun ret => ret) (fun _ => rfl) (by simp) fun _ => rfl

theorem setNamespace_triple (namespaceName : Bytes) :
    Triple quiet inPool (setNamespace namespaceName) (fun _ => inPool) Any :=
  needs_triple (.setNamespace namespaceName) (fun _ => rfl) (by simp [inPool])

theorem ioctxSetNamespace_triple (namespaceName : Bytes) :
    Triple quiet inPool (ioctxSetNamespace namespaceName) (fun _ => inPool) Any := by
  unfold ioctxSetNamespace
  split_ifs
  · exact (setNamespace_triple _).bind fun _ _ => .pure rfl trivial
  · refine .bind (needs_triple (.namespaceExists namespaceName) (fun _ => rfl)
      (by simp [inPool])) ?_
    rintro ⟨r, exist⟩ -
    dsimp only
    split_ifs
    · exact .pure rfl trivial
    · exact .pure rfl trivial
    · exact (setNamespace_triple _).bind fun _ _ => .pure rfl trivial

theorem ioctxCreate_triple (poolName : Bytes) (poolId : ℤ) :
    Triple quiet [.client] (ioctxCreate poolName poolId)
      (fun ret => if ret < 0 then [.client] else inPool) Any := by
  unfold ioctxCreate
  split_ifs
  · exact opens_triple (.ioctxCreate poolName) (fun ret => ret) (fun _ => rfl) (by simp)
      fun _ => rfl
  · exact opens_triple (.ioctxCreate2 poolId) (fun ret => ret) (fun _ => rfl) (by simp)
      fun _ => rfl

/-- A context that could not be set up is closed again. -/
theorem ioctxInit_triple (poolName : Bytes) (poolId : ℤ) (namespaceName : Bytes) :
    Triple quiet [.client] (ioctxInit poolName poolId namespaceName)
      (fun ret => if ret < 0 then [.client] else inPool) Any := by
  refine .bind (initFlag_triple (by simp)) fun initFlag _ => ?_
  split_ifs
  · exact .pure rfl trivial
  refine .bind (ioctxCreate_triple poolName poolId) fun ret _ => ?_
  by_cases hret : ret < 0
  · simp only [if_pos hret]
    exact .pure (if_pos hret) trivial
  simp only [if_neg hret]
  refine .bind (ioctxSetNamespace_triple namespaceName) fun ret _ => ?_
  by_cases hret : ret < 0
  · simp only [if_pos hret]
    exact ioctxClose_triple.bind fun _ _ => .pure (if_pos hret) trivial
  · simp only [if_neg hret]
    exact .pure (if_neg hret) trivial

theorem ioctxOpenImage_triple (imageName imageId : Bytes) :
    Triple quiet inPool (ioctxOpenImage imageName imageId)
      (fun ret => if ret < 0 then inPool else inImage) Any := by
  unfold ioctxOpenImage
  split_ifs
  · exact opens_triple (.openById imageId) (fun ret => ret) (fun _ => rfl) (by simp [inPool])
      fun _ => rfl
  · exact opens_triple (.open imageName) (fun ret => ret) (fun _ => rfl) (by simp [inPool])
      fun _ => rfl

theorem imageRemoveSnap_triple (snapName : Bytes) (snapId : ℕ) (force : Bool) :
    Triple quiet inImage (imageRemoveSnap snapName snapId force) (fun _ => inImage) Any := by
  unfold imageRemoveSnap
  split_ifs
  · exact needs_triple (.snapRemove2 snapName force) (fun _ => rfl) (by simp [inImage, inPool])
  · exact needs_triple (.snapRemoveById snapId) (fun _ => rfl) (by simp [inImage, inPool])

/-- What has been opened is closed in front of the label, whether or not the part between has been
run. -/
theorem label_triple {α β : Type} {p : M ℤ} {f : ℤ → α} {q : M α} {rest : α → M β}
    {inner : List Resource} {held' : β → List Resource}
    (hp : Triple eff held p (fun ret => if ret < 0 then held else inner) Any)
    (hq : Triple eff inner q (fun _ => held) Any)
    (hrest : ∀ a, Triple eff held (rest a) held' Any) :
    Triple eff held
      (p >>= fun ret => (if ret < 0 then pure (f ret) else q) >>= rest) held' Any := by
  refine hp.bind fun ret _ => ?_
  by_cases hret : ret < 0
  · simp only [if_pos hret]
    exact hrest (f ret)
  · simp only [if_neg hret]
    exact hq.bind fun a _ => hrest a

theorem removeFromImage_triple (snapId : ℕ) (force : Bool) :
    Triple quiet inImage (removeFromImage snapId force) (fun _ => inPool) Any :=
  (imageRemoveSnap_triple _ _ _).bind fun _ _ => close_triple.bind fun _ _ => .pure rfl trivial

theorem removeFromPool_triple (imageId : Bytes) (snapId : ℕ) (force : Bool) :
    Triple quiet inPool (removeFromPool imageId snapId force) (fun _ => [.client]) Any := by
  refine .bind (needs_triple .setOsdmapFullTry (fun _ => rfl) (by simp [inPool])) fun _ _ => ?_
  exact label_triple (ioctxOpenImage_triple _ _) (removeFromImage_triple _ _)
    fun _ => ioctxClose_triple.bind fun _ _ => .pure rfl trivial

/-- The part behind `RadosInit`, and `RadosShutdown` behind it. -/
theorem client_triple {α : Type} {confMap : List (Bytes × Bytes)} {f : ℤ → α} {q : M α}
    (heff : ∀ e x, quiet e = some x → eff e = some x)
    (hq : Triple eff [.client] q (fun _ => []) Any) :
    Triple eff [] (radosInit confMap >>= fun ret => if ret < 0 then pure (f ret) else q)
      (fun _ => []) Any := by
  refine ((radosInit_triple confMap).mono heff fun _ h => h).bind fun ret _ => ?_
  by_cases hret : ret < 0
  · simp only [if_pos hret]
    exact .pure rfl trivial
  · simp only [if_neg hret]
    exact hq

theorem cephLibrbdSnapRemove_triple (poolId : ℤ) (namespaceName imageId : Option Bytes)
    (snapId : ℕ) (force : Bool) :
    Triple quiet [] (cephLibrbdSnapRemove poolId namespaceName imageId snapId force)
      (fun _ => []) Any := by
  unfold cephLibrbdSnapRemove
  split
  · split_ifs
    · exact .pure rfl trivial
    · exact .pure rfl trivial
    · exact .pure rfl trivial
    · refine client_triple (fun _ _ h => h) ?_
      exact label_triple (ioctxInit_triple _ _ _) (removeFromPool_triple _ _ _)
        fun _ => radosShutdown_triple.bind fun _ _ => .pure rfl trivial
  · exact .pure rfl trivial

theorem infoOfImage_triple : Triple quiet inImage infoOfImage (fun _ => inPool) Any :=
  .bind (needs_triple .stat (fun _ => rfl) (by simp [inImage, inPool])) fun _ _ =>
    close_triple.bind fun _ _ => .pure rfl trivial

theorem infoOfPool_triple (imageId : Bytes) :
    Triple quiet inPool (infoOfPool imageId) (fun _ => [.client]) Any :=
  label_triple (ioctxOpenImage_triple _ _) infoOfImage_triple
    fun _ => ioctxClose_triple.bind fun _ _ => .pure rfl trivial

theorem cephLibrbdGetImageInfo_triple (poolId : ℤ) (imageId : Option Bytes) (numObjs : Bool) :
    Triple quiet [] (cephLibrbdGetImageInfo poolId imageId numObjs) (fun _ => []) Any := by
  unfold cephLibrbdGetImageInfo
  split
  · refine client_triple (fun _ _ h => h) ?_
    exact label_triple (ioctxInit_triple _ _ _) (infoOfPool_triple _)
      fun _ => radosShutdown_triple.bind fun _ _ => .pure rfl trivial
  · exact .pure rfl trivial

/-! The disk usage. The steps that read texts compare nothing. -/

theorem strtol_triple (text : Bytes) : Triple quiet held (strtol text) (fun _ => held) Any :=
  needs_triple (.strtol text) (fun _ => rfl) (by simp)

theorem monCommand_triple (cmd : Bytes) :
    Triple quiet [.client] (monCommand cmd) (fun _ => [.client]) fun r => r.1 ≤ 0 := by
  refine .bind (initFlag_triple (by simp)) fun initFlag _ => ?_
  split_ifs
  · exact .pure rfl (by decide)
  · refine .bind (needs_triple (.monCommand cmd) (fun _ => rfl) (by simp)) ?_
    rintro ⟨ret, out⟩ -
    dsimp only
    split_ifs with h
    · exact .pure rfl h.le
    · exact .pure rfl le_rfl

theorem poolLoop_triple (lines : List Bytes) (poolMap : List (ℤ × SigPoolInfo)) :
    Triple quiet held (poolLoop lines poolMap) (fun _ => held) Any := by
  induction lines generalizing poolMap with
  | nil => exact .pure rfl trivial
  | cons line lines ih =>
    rw [poolLoop]
    split
    · exact ih poolMap
    · refine (strtol_triple _).bind ?_
      rintro ⟨poolId, refused⟩ -
      dsimp only
      split_ifs
      · exact .pure rfl trivial
      · exact ih _

theorem scaleLoop_triple (lines : List Bytes) (info : SigPoolInfo) :
    Triple quiet held (scaleLoop lines info) (fun _ => held) Any := by
  induction lines generalizing info with
  | nil => exact .pure rfl trivial
  | cons line lines ih =>
    rw [scaleLoop]
    split
    · exact ih info
    · split_ifs
      · refine (strtol_triple _).bind ?_
        rintro ⟨n, refused⟩ -
        dsimp only
        split_ifs
        · exact .pure rfl trivial
        · exact ih _
      · refine (strtol_triple _).bind ?_
        rintro ⟨n, refused⟩ -
        dsimp only
        split_ifs
        · exact .pure rfl trivial
        · exact ih _
      · exact ih info

/-- The copy of a text is deleted behind the loop over its lines. -/
theorem copy_triple {α β : Type} {size : ℕ} {p : M α} {f : α → β} {e : ℤ} (he : e < 0)
    (hp : Triple quiet [.chars, .client] p (fun _ => [.chars, .client]) Any) :
    Triple quiet [.client]
      (newChars size >>= fun allocated =>
        if !allocated then pure (.error e)
        else p >>= fun a => deleteChars >>= fun _ => pure (.ok (f a)))
      (fun _ => [.client]) Negative := by
  refine .bind (opens_triple (.newChars size) (fun allocated => cond allocated 0 (-1))
    (fun _ => rfl) (by simp) fun _ => rfl) fun allocated _ => ?_
  cases allocated with
  | false => exact .pure rfl (negative_error he)
  | true =>
    have hdelete : Triple quiet [.chars, .client] deleteChars (fun _ => [.client]) Any :=
      drops_triple .deleteChars (fun _ => rfl) (by simp)
    exact hp.bind fun a _ => hdelete.bind fun _ _ => .pure rfl negative_ok

theorem parsePoolMap_triple (outs : Bytes) :
    Triple quiet [.client] (parsePoolMap outs) (fun _ => [.client]) Negative :=
  copy_triple (by decide) (poolLoop_triple _ _)

theorem getECPoolScale_triple (info : SigPoolInfo) :
    Triple quiet [.client] (getECPoolScale info) (fun _ => [.client]) Negative := by
  refine (monCommand_triple _).bind ?_
  rintro ⟨ret, outs⟩ hle
  dsimp only at hle ⊢
  split_ifs with h
  · exact .pure rfl (negative_error (lt_of_le_of_ne hle h))
  · exact copy_triple (by decide) (scaleLoop_triple _ _)

theorem poolProperty_triple (info : SigPoolInfo) :
    Triple quiet [.client] (poolProperty info) (fun _ => [.client]) Negative := by
  refine (monCommand_triple _).bind ?_
  rintro ⟨ret, outs⟩ -
  dsimp only
  split_ifs with h
  · exact .pure rfl negative_ok
  · exact .pure rfl (negative_error h)
  · split
    · exact .pure rfl (negative_error (by decide))
    · refine (getECPoolScale_triple _).bind fun r hr => ?_
      cases r with
      | error ret => exact .pure rfl (negative_error (hr ret rfl))
      | ok info =>
        dsimp only
        split_ifs
        · exact .pure rfl (negative_error (by decide))
        · exact .pure rfl negative_ok

theorem calPoolProperty_triple (poolMap : List (ℤ × SigPoolInfo)) :
    Triple quiet [.client] (calPoolProperty poolMap) (fun _ => [.client]) Negative := by
  have hturn (done : List SigPoolInfo) (p : ℤ × SigPoolInfo) :
      Triple quiet [.client] (propertyTurn done p) (fun _ => [.client]) Negative := by
    refine (poolProperty_triple p.2).bind fun r hr => ?_
    cases r with
    | error ret => exact .pure rfl (negative_error (hr ret rfl))
    | ok info => exact .pure rfl negative_ok
  exact Triple.loop hturn poolMap []

theorem snapTurn_triple (imageName : Bytes) (s : ℕ × Bytes) (snap : SnapInfo) :
    Triple every inImage (snapTurn imageName s snap) (fun _ => inImage) Negative := by
  refine .bind (opens_triple (.openReadOnly imageName (some snap.name)) (fun ret => ret)
    (fun _ => rfl) (by simp [inImage, inPool]) fun _ => rfl) fun ret _ => ?_
  by_cases hret : ret < 0
  · simp only [if_pos hret]
    exact .pure rfl (negative_error hret)
  simp only [if_neg hret]
  refine .bind (needs_triple (.diffIterate2 (some snap.name) (snapFrom s.2) snap.size)
    (fun _ => rfl) (by simp [inImage, inPool])) ?_
  rintro ⟨ret, extents⟩ -
  have hclose : Triple quiet (.image (some snap.name) :: inImage) (imageClose (some snap.name))
      (fun _ => inImage) Any := imageClose_triple _ (by simp [inImage, inPool])
  refine (hclose.mono every_of_quiet fun _ h => h).bind fun _ _ => ?_
  split_ifs with h
  · exact .pure rfl (negative_error h)
  · exact .pure rfl negative_ok

theorem imageUsage_triple (imageName : Bytes) (usage : ℕ) :
    Triple every inImage (imageUsage imageName usage) (fun _ => inImage) Negative := by
  refine .bind (needs_triple .stat (fun _ => rfl) (by simp [inImage, inPool])) ?_
  rintro ⟨ret, state⟩ -
  dsimp only
  split_ifs with h
  · exact .pure rfl (negative_error h)
  refine .bind (needs_triple .snapList (fun _ => rfl) (by simp [inImage, inPool])) ?_
  rintro ⟨ret, snaps⟩ -
  dsimp only
  split_ifs with h
  · exact .pure rfl (negative_error h)
  refine (Triple.loop (snapTurn_triple imageName) snaps (usage, [])).bind fun r hr => ?_
  rcases r with e | ⟨usage, lastSnap⟩
  · exact .pure rfl (negative_error (hr e rfl))
  refine .bind (needs_triple (.diffIterate2 none (snapFrom lastSnap) state.size) (fun _ => rfl)
    (by simp [inImage, inPool])) ?_
  rintro ⟨ret, extents⟩ -
  dsimp only
  split_ifs with h
  · exact .pure rfl (negative_error h)
  · exact .pure rfl negative_ok

theorem calImageUsage_triple (s : ℤ × ℕ) (imageName : Bytes) :
    Triple every inPool (calImageUsage s imageName) (fun _ => inPool) Negative := by
  refine .bind (opens_triple (.openReadOnly imageName none) (fun ret => ret) (fun _ => rfl)
    (by simp [inPool]) fun _ => rfl) fun ret _ => ?_
  by_cases hret : ret < 0
  · simp only [if_pos hret]
    exact .pure rfl (negative_error hret)
  · simp only [if_neg hret]
    exact (imageUsage_triple _ _).bind fun r hr =>
      (close_triple.mono every_of_quiet fun _ h => h).bind fun _ _ => .pure rfl hr

theorem poolUsage_triple (s : ℤ × List (SigPoolInfo × ℕ)) (info : SigPoolInfo) :
    Triple every [.client] (poolUsage s info) (fun _ => [.client]) Negative := by
  have hclose : Triple every inPool ioctxClose (fun _ => [.client]) Any :=
    ioctxClose_triple.mono every_of_quiet fun _ h => h
  refine ((ioctxInit_triple _ _ _).mono every_of_quiet fun _ h => h).bind fun ret _ => ?_
  by_cases hret : ret < 0
  · simp only [if_pos hret]
    exact .pure rfl (negative_error hret)
  simp only [if_neg hret]
  refine .bind (needs_triple .list2 (fun _ => rfl) (by simp [inPool])) ?_
  rintro ⟨ret, images⟩ -
  dsimp only
  split_ifs with h
  · exact hclose.bind fun _ _ => .pure rfl (negative_error h)
  refine (Triple.loop calImageUsage_triple images (ret, 0)).bind fun r hr => ?_
  refine hclose.bind fun _ _ => ?_
  rcases r with e | ⟨ret, usage⟩
  · exact .pure rfl (negative_error (hr e rfl))
  · exact .pure rfl negative_ok

/-- An error is negative, and comes with nothing. -/
theorem diskUsage_triple :
    Triple every [.client] diskUsage (fun _ => [.client]) fun r => r.2 = none → r.1 < 0 := by
  refine ((monCommand_triple lspools).mono every_of_quiet fun _ h => h).bind ?_
  rintro ⟨ret, outs⟩ -
  dsimp only
  split_ifs with h
  · exact .pure rfl fun _ => h
  refine ((parsePoolMap_triple outs).mono every_of_quiet fun _ h => h).bind fun r hr => ?_
  rcases r with e | poolMap
  · exact .pure rfl fun _ => hr e rfl
  refine ((calPoolProperty_triple poolMap).mono every_of_quiet fun _ h => h).bind fun r hr => ?_
  rcases r with e | pools
  · exact .pure rfl fun _ => hr e rfl
  refine (Triple.loop poolUsage_triple pools (0, [])).bind fun r hr => ?_
  rcases r with e | ⟨ret, pools⟩
  · exact .pure rfl fun _ => hr e rfl
  · exact .pure rfl fun hnone => nomatch hnone

theorem cephLibrbdDiskUsage_triple (usage : Bool) :
    Triple every [] (cephLibrbdDiskUsage usage) (fun _ => []) Any := by
  unfold cephLibrbdDiskUsage
  split_ifs
  · exact .pure rfl trivial
  · exact client_triple every_of_quiet (diskUsage_triple.bind fun _ _ =>
      (radosShutdown_triple.mono every_of_quiet fun _ h => h).bind fun _ _ => .pure rfl trivial)

end Triples

/-- **What is opened is closed.** Whatever librados and librbd answer, a call uses a context while
the client is joined, an image while its context is open, and at its end nothing is left open. -/
theorem opened_is_closed :
    (∀ poolId namespaceName imageId snapId force tr ret,
      Runs (cephLibrbdSnapRemove poolId namespaceName imageId snapId force) tr ret →
        settle every [] tr = some []) ∧
    (∀ poolId imageId numObjs tr r, Runs (cephLibrbdGetImageInfo poolId imageId numObjs) tr r →
      settle every [] tr = some []) ∧
    ∀ usage tr r, Runs (cephLibrbdDiskUsage usage) tr r → settle every [] tr = some [] := by
  refine ⟨?_, ?_, ?_⟩
  · intro poolId namespaceName imageId snapId force tr ret h
    exact settle_mono every_of_quiet
      (cephLibrbdSnapRemove_triple poolId namespaceName imageId snapId force tr ret h).1
  · intro poolId imageId numObjs tr r h
    exact settle_mono every_of_quiet (cephLibrbdGetImageInfo_triple poolId imageId numObjs tr r h).1
  · intro usage tr r h
    exact (cephLibrbdDiskUsage_triple usage tr r h).1

/-- Answers under which an image opens with `ret`, and everything else does. -/
def opening (ret : ℤ) : (c : Call) → Answer c
  | .openById _ | .open _ => ret
  | .initFlag | .newChars _ => true
  | .namespaceExists _ => (0, true)
  | .stat => (0, { size := 0, numObjs := 0 })
  | .monCommand _ => (0, [])
  | .strtol _ => (0, false)
  | .list2 => (0, [])
  | .snapList => (0, [])
  | .diffIterate2 .. => (0, [])
  | .radosShutdown | .setNamespace _ | .ioctxClose | .setOsdmapFullTry | .imageClose _
  | .deleteChars => ()
  | .radosInit _ | .ioctxCreate _ | .ioctxCreate2 _ | .openReadOnly .. | .snapRemove2 ..
  | .snapRemoveById _ => (0 : ℤ)

theorem opened_is_closed_opening :
    settle every []
      ((cephLibrbdSnapRemove 1 (some []) (some [97]) 4 true).run (opening (-ENOENT))).1 = some [] ∧
    settle every [] ((cephLibrbdGetImageInfo 1 (some [97]) true).run (opening 0)).1 = some [] ∧
    settle every [] ((cephLibrbdDiskUsage true).run (opening 0)).1 = some [] :=
  ⟨opened_is_closed.1 1 (some []) (some [97]) 4 true _ _ (Prog.runs_run _ _),
    opened_is_closed.2.1 1 (some [97]) true _ _ (Prog.runs_run _ _),
    opened_is_closed.2.2 true _ _ (Prog.runs_run _ _)⟩

/-! ## When a snapshot counts as removed -/

section SnapRemove

/-- The answers after which the snapshot is not there: it has been removed, or there is no such
pool, namespace, image or snapshot. -/
def Gone (snapId : ℕ) : (Σ c, Answer c) → Prop
  | ⟨.ioctxCreate2 _, ret⟩ | ⟨.openById _, ret⟩ => ret = -ENOENT
  | ⟨.namespaceExists _, r⟩ => r.1 = -ENOENT ∨ 0 ≤ r.1 ∧ r.2 = false
  | ⟨.snapRemoveById id, ret⟩ => id = snapId ∧ 0 ≤ ret ∨ ret = -ENOENT
  | _ => False

variable {snapId : ℕ} {tr : Trace Answer} {ret : ℤ}

/-- Somewhere in the run. -/
def GoneIn (snapId : ℕ) (tr : Trace Answer) : Prop := ∃ e ∈ tr, Gone snapId e

theorem goneIn_nil : ¬ GoneIn snapId [] := by simp [GoneIn]

theorem goneIn_cons {e : Σ c, Answer c} :
    GoneIn snapId (e :: tr) ↔ Gone snapId e ∨ GoneIn snapId tr := by
  simp [GoneIn]

/-- A call that says nothing about the snapshot. -/
theorem goneIn_cons_iff {e : Σ c, Answer c} (h : ¬ Gone snapId e) :
    GoneIn snapId (e :: tr) ↔ GoneIn snapId tr := by
  rw [goneIn_cons, or_iff_right h]

theorem goneIn_singleton {e : Σ c, Answer c} : GoneIn snapId [e] ↔ Gone snapId e := by
  rw [goneIn_cons, or_iff_left goneIn_nil]

theorem goneIn_append {tr₁ tr₂ : Trace Answer} :
    GoneIn snapId (tr₁ ++ tr₂) ↔ GoneIn snapId tr₁ ∨ GoneIn snapId tr₂ := by
  simp [GoneIn, or_and_right, exists_or]

theorem goneIn_setNamespace (snapId : ℕ) {ns : Bytes}
    (h : Runs (setNamespace ns >>= fun _ => pure 0) tr ret) : ¬ GoneIn snapId tr ∧ ret = 0 := by
  obtain ⟨r, tr₁, hrest, rfl⟩ := runs_perform_bind.mp h
  obtain ⟨rfl, rfl⟩ := runs_pure.mp hrest
  exact ⟨goneIn_singleton.not.mpr id, rfl⟩

theorem goneIn_ioctxSetNamespace (snapId : ℕ) {ns : Bytes}
    (h : Runs (ioctxSetNamespace ns) tr ret) : GoneIn snapId tr ↔ ret = -ENOENT := by
  have hzero : (0 : ℤ) ≠ -ENOENT := by decide
  unfold ioctxSetNamespace at h
  split_ifs at h
  · obtain ⟨hnot, rfl⟩ := goneIn_setNamespace snapId h
    exact iff_of_false hnot hzero
  obtain ⟨⟨r, exist⟩, tr₁, hrest, rfl⟩ := runs_perform_bind.mp h
  dsimp only at hrest
  split_ifs at hrest with hr hexist
  · obtain ⟨rfl, rfl⟩ := runs_pure.mp hrest
    exact goneIn_singleton.trans (or_iff_left fun h => absurd h.1 (not_le.mpr hr))
  · obtain ⟨rfl, rfl⟩ := runs_pure.mp hrest
    exact iff_of_true (goneIn_singleton.mpr (.inr ⟨not_lt.mp hr, by simpa using hexist⟩)) rfl
  · obtain ⟨hnot, rfl⟩ := goneIn_setNamespace snapId hrest
    refine iff_of_false ?_ hzero
    rw [goneIn_cons]
    rintro ((rfl | ⟨-, hno⟩) | hin)
    · exact hr (by decide)
    · exact hexist (by simpa using hno)
    · exact hnot hin

/-- Where the context is not set up, what is forgiven is that something is not there. -/
theorem goneIn_ioctxInit (snapId : ℕ) {poolId : ℤ} {ns : Bytes}
    (h : Runs (ioctxInit [] poolId ns) tr ret) : GoneIn snapId tr ↔ ret = -ENOENT := by
  obtain ⟨flag, tr₁, hflag, rfl⟩ := runs_perform_bind.mp h
  rw [goneIn_cons_iff id]
  split_ifs at hflag
  · obtain ⟨rfl, rfl⟩ := runs_pure.mp hflag
    exact iff_of_false goneIn_nil (by decide)
  obtain ⟨r, tr₂, hcreate, rfl⟩ := runs_perform_bind.mp hflag
  by_cases hr : r < 0
  · rw [if_pos hr] at hcreate
    obtain ⟨rfl, rfl⟩ := runs_pure.mp hcreate
    exact goneIn_singleton
  have hr' : ¬ Gone snapId ⟨.ioctxCreate2 poolId, r⟩ := by
    have hneg : (-ENOENT : ℤ) < 0 := by decide
    intro (hgone : r = -ENOENT)
    exact hr (lt_of_eq_of_lt hgone hneg)
  rw [if_neg hr] at hcreate
  obtain ⟨tr₃, ret', tr₄, hset, hclose, rfl⟩ := runs_bind.mp hcreate
  rw [goneIn_cons_iff hr', goneIn_append, goneIn_ioctxSetNamespace snapId hset]
  split_ifs at hclose
  · obtain ⟨u, tr₅, hret, rfl⟩ := runs_perform_bind.mp hclose
    obtain ⟨rfl, rfl⟩ := runs_pure.mp hret
    exact or_iff_left (goneIn_singleton.not.mpr id)
  · obtain ⟨rfl, rfl⟩ := runs_pure.mp hclose
    exact or_iff_left goneIn_nil

theorem forgive_nonneg_iff (h : ret < 0) : 0 ≤ forgive ret ↔ ret = -ENOENT := by
  rw [forgive]
  split_ifs with heq
  · exact iff_of_true le_rfl heq
  · exact iff_of_false (not_le.mpr h) heq

theorem goneIn_removeFromImage {force : Bool} (h : Runs (removeFromImage snapId force) tr ret) :
    GoneIn snapId tr ↔ 0 ≤ ret := by
  obtain ⟨r, tr₁, hclose, rfl⟩ := runs_perform_bind.mp h
  obtain ⟨u, tr₂, hret, rfl⟩ := runs_perform_bind.mp hclose
  obtain ⟨rfl, rfl⟩ := runs_pure.mp hret
  rw [goneIn_cons, goneIn_singleton]
  refine (or_iff_left id).trans ?_
  by_cases hr : r < 0
  · rw [if_pos hr, forgive_nonneg_iff hr]
    exact or_iff_right fun h => absurd h.2 (not_le.mpr hr)
  · rw [if_neg hr]
    exact iff_of_true (.inl ⟨rfl, not_lt.mp hr⟩) (not_lt.mp hr)

/-- In front of a label: the part between has been run, or its first call has failed. -/
theorem goneIn_label {p q : M ℤ} {f : ℤ → M ℤ}
    (hp : ∀ tr ret, Runs p tr ret → (GoneIn snapId tr ↔ ret = -ENOENT))
    (hq : ∀ tr ret, Runs q tr ret → (GoneIn snapId tr ↔ 0 ≤ ret))
    (hf : ∀ r tr ret, Runs (f r) tr ret → ¬ GoneIn snapId tr ∧ ret = r)
    (h : Runs (p >>= fun ret => (if ret < 0 then pure (forgive ret) else q : M ℤ) >>= f) tr ret) :
    GoneIn snapId tr ↔ 0 ≤ ret := by
  obtain ⟨tr₁, r, tr₂, hp', hrest, rfl⟩ := runs_bind.mp h
  obtain ⟨tr₃, r', tr₄, hq', hf', rfl⟩ := runs_bind.mp hrest
  obtain ⟨hnot, rfl⟩ := hf _ _ _ hf'
  rw [goneIn_append, goneIn_append, hp _ _ hp', or_iff_left hnot (a := GoneIn snapId tr₃)]
  by_cases hr : r < 0
  · rw [if_pos hr] at hq'
    obtain ⟨rfl, rfl⟩ := runs_pure.mp hq'
    rw [forgive_nonneg_iff hr, or_iff_left goneIn_nil]
  · rw [if_neg hr] at hq'
    rw [hq _ _ hq']
    refine or_iff_right ?_
    rintro rfl
    exact hr (by decide)

theorem goneIn_ioctxOpenImage (snapId : ℕ) {imageId : Bytes} (hid : imageId ≠ [])
    (h : Runs (ioctxOpenImage [] imageId) tr ret) : GoneIn snapId tr ↔ ret = -ENOENT := by
  rw [ioctxOpenImage, if_pos hid] at h
  obtain rfl := runs_perform.mp h
  exact goneIn_singleton

theorem goneIn_removeFromPool {imageId : Bytes} {force : Bool} (hid : imageId ≠ [])
    (h : Runs (removeFromPool imageId snapId force) tr ret) : GoneIn snapId tr ↔ 0 ≤ ret := by
  obtain ⟨u, tr₁, hrest, rfl⟩ := runs_perform_bind.mp h
  rw [goneIn_cons_iff id]
  refine goneIn_label (fun _ _ => goneIn_ioctxOpenImage snapId hid)
    (fun _ _ => goneIn_removeFromImage) (fun r tr ret hrun => ?_) hrest
  obtain ⟨u, tr₂, hret, rfl⟩ := runs_perform_bind.mp hrun
  obtain ⟨rfl, rfl⟩ := runs_pure.mp hret
  exact ⟨goneIn_singleton.not.mpr id, rfl⟩

/-- **Removing a snapshot.** A call succeeds if and only if on the way the snapshot was removed, or
turned out not to be there. -/
theorem snapRemove_succeeds_iff (poolId : ℤ) (namespaceName imageId : Option Bytes) (snapId : ℕ)
    (force : Bool) (tr : Trace Answer) (ret : ℤ)
    (h : Runs (cephLibrbdSnapRemove poolId namespaceName imageId snapId force) tr ret) :
    0 ≤ ret ↔ ∃ e ∈ tr, Gone snapId e := by
  show 0 ≤ ret ↔ GoneIn snapId tr
  have hrefused {ret : ℤ} (h : Runs (pure (-EINVAL) : M ℤ) tr ret) :
      0 ≤ ret ↔ GoneIn snapId tr := by
    obtain ⟨rfl, rfl⟩ := runs_pure.mp h
    exact iff_of_false (by decide) goneIn_nil
  unfold cephLibrbdSnapRemove at h
  split at h
  · split_ifs at h with hpool hid hsnap
    · exact hrefused h
    · exact hrefused h
    · exact hrefused h
    obtain ⟨r, tr₁, hrest, rfl⟩ := runs_perform_bind.mp h
    rw [goneIn_cons_iff id]
    by_cases hr : r < 0
    · rw [if_pos hr] at hrest
      obtain ⟨rfl, rfl⟩ := runs_pure.mp hrest
      exact iff_of_false (not_le.mpr hr) goneIn_nil
    rw [if_neg hr] at hrest
    refine (goneIn_label (fun _ _ => goneIn_ioctxInit snapId)
      (fun _ _ => goneIn_removeFromPool hid) (fun r tr ret hrun => ?_) hrest).symm
    obtain ⟨u, tr₂, hret, rfl⟩ := runs_perform_bind.mp hrun
    obtain ⟨rfl, rfl⟩ := runs_pure.mp hret
    exact ⟨goneIn_singleton.not.mpr id, rfl⟩
  · exact hrefused h

/-- The image is not there, and the call succeeds. -/
theorem snapRemove_succeeds_iff_no_image :
    ∃ e ∈ ((cephLibrbdSnapRemove 1 (some []) (some [97]) 4 true).run (opening (-ENOENT))).1,
      Gone 4 e :=
  (snapRemove_succeeds_iff 1 (some []) (some [97]) 4 true _ 0 (Prog.runs_run _ _)).mp le_rfl

end SnapRemove

end GcAdaptor.RbdCalls
