/-
The **lists in the configuration** of the server adaptor (`server_adaptor/osa.cpp`):
`ParsePortVec` and `ParseCore`, which split a text at its commas and turn every token into a
number.

Both check the number after it has been cut to an `int`. `CheckPort` looks at the characters
first, but counts them in 32 bits; `ParseCore` does not look at what `strtol` skips in front of
the number and leaves behind it.

`parse_accepts_iff` says for each text whether the parser accepts it exactly if it is a list of
the numbers wanted.
-/
import GcAdaptor.Cxx

set_option autoImplicit false

namespace GcAdaptor.ConfigList

open GcAdaptor.Wire GcAdaptor.Cxx

/-! ## The parsers -/

def ERROR_PORT : ℤ := 101

/-- The length is a `uint32_t`. -/
def isDigit (c : Bytes) (length : ℕ) : Bool :=
  (c.take (length % 2 ^ 32)).all fun b => 48 ≤ b && b ≤ 57

def checkPort (pPort : Bytes) (strLen : ℕ) : Bool :=
  if isDigit pPort strLen = false then false
  else
    let portNum := atoi pPort
    if 65535 < portNum ∨ portNum < 1024 then false else true

/-- The processors that are online. Their number is an `int` (`get_nprocs`). -/
structure Cpus where
  online : ℤ
  bound : online < 2 ^ 31

def checkCoreId (cpus : Cpus) (coreId : ℤ) : Bool :=
  if 0 ≤ coreId ∧ coreId < cpus.online then true else false

/-- The loop of `ParsePortVec` over the tokens, and its last test. -/
def portLoop : List Bytes → List Bytes → ℤ × List Bytes
  | [], vecPort =>
    if vecPort.length ≤ 0 ∨ 8 < vecPort.length then (ERROR_PORT, vecPort) else (0, vecPort)
  | pPort :: rest, vecPort =>
    if checkPort pPort pPort.length = false then (ERROR_PORT, vecPort)
    else portLoop rest (vecPort ++ [pPort])

/-- The port list is the text of a `char` array. -/
def parsePortVec (listenPort : Bytes) : ℤ × List Bytes :=
  let rPort := cStr listenPort
  if rPort = [] then (ERROR_PORT, []) else portLoop (strtok 44 rPort) []

/-- The loop of `ParseCore` over the tokens. -/
def coreLoop (cpus : Cpus) : List Bytes → List ℤ → ℤ × List ℤ
  | [], cephCoreVec => (0, cephCoreVec)
  | p :: rest, cephCoreVec =>
    let r := strtol p
    let coreId := int32 r.val
    if r.erange = true ∨ r.moved = false then (ERROR_PORT, cephCoreVec)
    else if checkCoreId cpus coreId = false then (ERROR_PORT, cephCoreVec)
    else coreLoop cpus rest (cephCoreVec ++ [coreId])

/-- `strcpy` stops at a NUL. -/
def parseCore (cpus : Cpus) (core : Bytes) : ℤ × List ℤ :=
  coreLoop cpus (strtok 44 (cStr core)) []

/-! ## What the lists should be -/

def Digits (t : Bytes) : Prop := ∀ c ∈ t, 48 ≤ c ∧ c ≤ 57

/-- The value of a text of digits. -/
def value (t : Bytes) : ℕ := ofDigits 10 (t.map digitVal)

def Port (t : Bytes) : Prop := Digits t ∧ 1024 ≤ value t ∧ value t ≤ 65535

def PortList (s : Bytes) : Prop :=
  (1 ≤ (strtok 44 s).length ∧ (strtok 44 s).length ≤ 8) ∧ ∀ t ∈ strtok 44 s, Port t

/-- `t` is a decimal integer, with or without a sign. -/
def Decimal (t : Bytes) (v : ℤ) : Prop :=
  (stripSign t).2 ≠ [] ∧ Digits (stripSign t).2 ∧
    v = if (stripSign t).1 then -(value (stripSign t).2 : ℤ) else (value (stripSign t).2 : ℤ)

def CoreId (cpus : Cpus) (t : Bytes) (v : ℤ) : Prop := Decimal t v ∧ 0 ≤ v ∧ v < cpus.online

/-- `ParsePortVec` accepts the lists of ports, and keeps them. -/
def AcceptsPorts (listenPort : Bytes) : Prop :=
  ((parsePortVec listenPort).1 = 0 ↔ PortList (cStr listenPort)) ∧
    ((parsePortVec listenPort).1 = 0 → (parsePortVec listenPort).2 = strtok 44 (cStr listenPort))

/-- `ParseCore` accepts the lists of processors, and keeps their numbers. -/
def AcceptsCores (cpus : Cpus) (core : Bytes) : Prop :=
  ((parseCore cpus core).1 = 0 ↔ ∀ t ∈ strtok 44 core, ∃ v, CoreId cpus t v) ∧
    ((parseCore cpus core).1 = 0 →
      List.Forall₂ (CoreId cpus) (strtok 44 core) (parseCore cpus core).2)

/-! ## Tokens that are misread -/

/-- Digits that stand for a port number modulo `2 ^ 32`. -/
def WrapsToPort (t : Bytes) : Prop :=
  Digits t ∧ 2 ^ 32 ≤ value t ∧ value t < 2 ^ 63 ∧
    1024 ≤ value t % 2 ^ 32 ∧ value t % 2 ^ 32 ≤ 65535

/-- A token so long that its length in 32 bits ends before its first character that is no
digit. -/
def HidesTail (t : Bytes) : Prop :=
  ¬ Digits t ∧ Digits (t.take (t.length % 2 ^ 32)) ∧ 1024 ≤ atoi t ∧ atoi t ≤ 65535

def MisreadPort (t : Bytes) : Prop := WrapsToPort t ∨ HidesTail t

/-- The token starts with `n`, a `long` that is a processor as an `int`. -/
def ReadAs (cpus : Cpus) (t : Bytes) (n : ℤ) : Prop :=
  leadingNumber t = some n ∧ -2 ^ 63 ≤ n ∧ n < 2 ^ 63 ∧ 0 ≤ int32 n ∧ int32 n < cpus.online

/-- The number a token starts with is a processor as an `int`, but the token is none: there is
white space in front of the number, something behind it, or it is another number. -/
def MisreadCore (cpus : Cpus) (t : Bytes) : Prop :=
  (¬ ∃ v, CoreId cpus t v) ∧ ∃ n, ReadAs cpus t n

/-! ## Ports -/

theorem isDigit_iff (t : Bytes) (n : ℕ) : isDigit t n = true ↔ Digits (t.take (n % 2 ^ 32)) := by
  simp [isDigit, Digits]

theorem leadingNumber_of_Digits {t : Bytes} (ht : t ≠ []) (h : Digits t) :
    leadingNumber t = some (value t : ℤ) :=
  leadingNumber_of_digits ht fun c hc => (digitVal_lt_ten_iff c).mpr (h c hc)

/-- `atoi` on a text of digits. -/
theorem atoi_port_iff {t : Bytes} (ht : t ≠ []) (h : Digits t) :
    (1024 ≤ atoi t ∧ atoi t ≤ 65535) ↔ Port t ∨ WrapsToPort t := by
  have hnum := leadingNumber_of_Digits ht h
  unfold Port WrapsToPort
  by_cases hlong : value t < 2 ^ 63
  · rw [atoi_of_long hnum (by omega) (by omega), int32]
    simp only [h, true_and]
    omega
  · rw [atoi_of_large hnum (by omega)]
    constructor
    · rintro ⟨hlo, -⟩
      omega
    · rintro (⟨-, -, hhi⟩ | ⟨-, -, hhi, -⟩)
      · omega
      · exact absurd hhi hlong

/-- **The check of a port.** -/
theorem checkPort_iff {t : Bytes} (ht : t ≠ []) :
    checkPort t t.length = true ↔ Port t ∨ MisreadPort t := by
  have hcheck : checkPort t t.length = true ↔
      Digits (t.take (t.length % 2 ^ 32)) ∧ 1024 ≤ atoi t ∧ atoi t ≤ 65535 := by
    rw [← isDigit_iff, checkPort]
    cases isDigit t t.length with
    | false => simp
    | true =>
      simp only [Bool.true_eq_false, if_false, true_and]
      split_ifs with hrange
      · exact iff_of_false (by simp) (by omega)
      · exact iff_of_true rfl (by omega)
  rw [hcheck]
  by_cases hdigits : Digits t
  · have htake : Digits (t.take (t.length % 2 ^ 32)) :=
      fun c hc => hdigits c (List.mem_of_mem_take hc)
    rw [and_iff_right htake, atoi_port_iff ht hdigits]
    simp [MisreadPort, HidesTail, hdigits]
  · simp [MisreadPort, HidesTail, Port, WrapsToPort, hdigits]

/-- A list is accepted if every token passes the check and their number fits. -/
theorem portLoop_spec (tokens vecPort : List Bytes) :
    ((portLoop tokens vecPort).1 = 0 ↔ (∀ t ∈ tokens, checkPort t t.length = true) ∧
      1 ≤ (vecPort ++ tokens).length ∧ (vecPort ++ tokens).length ≤ 8) ∧
    ((portLoop tokens vecPort).1 = 0 → (portLoop tokens vecPort).2 = vecPort ++ tokens) := by
  induction tokens generalizing vecPort with
  | nil =>
    rw [portLoop, List.append_nil]
    split_ifs with hcount
    · refine ⟨iff_of_false (by simp [ERROR_PORT]) ?_, by simp [ERROR_PORT]⟩
      rintro ⟨-, h⟩
      omega
    · refine ⟨iff_of_true rfl ⟨by simp, by omega⟩, fun _ => rfl⟩
  | cons t tokens ih =>
    rw [portLoop]
    cases hcheck : checkPort t t.length with
    | false =>
      refine ⟨iff_of_false (by simp [ERROR_PORT]) ?_, by simp [ERROR_PORT]⟩
      rintro ⟨h, -⟩
      rw [h t (by simp)] at hcheck
      cases hcheck
    | true =>
      simp only [Bool.true_eq_false, if_false, List.forall_mem_cons, hcheck, true_and]
      rw [List.append_cons vecPort t tokens]
      exact ih (vecPort ++ [t])

/-- A list of tokens, each a port or taken for one, of which one at least is misread. -/
def MisreadPorts (listenPort : Bytes) : Prop :=
  (1 ≤ (strtok 44 (cStr listenPort)).length ∧ (strtok 44 (cStr listenPort)).length ≤ 8) ∧
    (∀ t ∈ strtok 44 (cStr listenPort), Port t ∨ MisreadPort t) ∧
      ∃ t ∈ strtok 44 (cStr listenPort), MisreadPort t

/-- No port is misread. -/
theorem not_port_of_misreadPort {t : Bytes} (h : MisreadPort t) : ¬ Port t := by
  rintro ⟨hdigits, -, hhi⟩
  rcases h with ⟨-, hlo, -⟩ | ⟨hnot, -⟩
  · omega
  · exact hnot hdigits

theorem parsePortVec_spec (listenPort : Bytes) :
    ((parsePortVec listenPort).1 = 0 ↔
      (∀ t ∈ strtok 44 (cStr listenPort), Port t ∨ MisreadPort t) ∧
        1 ≤ (strtok 44 (cStr listenPort)).length ∧ (strtok 44 (cStr listenPort)).length ≤ 8) ∧
    ((parsePortVec listenPort).1 = 0 →
      (parsePortVec listenPort).2 = strtok 44 (cStr listenPort)) := by
  have hloop := portLoop_spec (strtok 44 (cStr listenPort)) []
  have hcheck : (∀ t ∈ strtok 44 (cStr listenPort), checkPort t t.length = true) ↔
      ∀ t ∈ strtok 44 (cStr listenPort), Port t ∨ MisreadPort t :=
    forall₂_congr fun t ht => checkPort_iff (ne_nil_of_mem_strtok ht)
  rw [hcheck, List.nil_append] at hloop
  unfold parsePortVec
  by_cases hnil : cStr listenPort = []
  · -- the empty text has no token either
    simp only [hnil, if_true]
    refine ⟨iff_of_false (by simp [ERROR_PORT]) ?_, by simp [ERROR_PORT]⟩
    rintro ⟨-, hlen, -⟩
    exact absurd hlen (by decide)
  · simp only [if_neg hnil]
    exact hloop

theorem acceptsPorts_iff (listenPort : Bytes) :
    AcceptsPorts listenPort ↔ ¬ MisreadPorts listenPort := by
  obtain ⟨hiff, hvec⟩ := parsePortVec_spec listenPort
  unfold AcceptsPorts MisreadPorts PortList
  rw [hiff, and_iff_left (fun h => hvec (hiff.mpr h))]
  constructor
  · rintro h ⟨hlen, hall, t, ht, hmis⟩
    exact not_port_of_misreadPort hmis ((h.mp ⟨hall, hlen⟩).2 t ht)
  · intro hnot
    constructor
    · rintro ⟨hall, hlen⟩
      refine ⟨hlen, fun t ht => (hall t ht).resolve_right fun hmis => ?_⟩
      exact hnot ⟨hlen, hall, t, ht, hmis⟩
    · rintro ⟨hlen, hport⟩
      exact ⟨fun t ht => .inl (hport t ht), hlen⟩

/-! ## Processors -/

section Cores

variable {cpus : Cpus} {t core : Bytes} {v : ℤ}

/-- A decimal integer is read whole. -/
theorem leadingNumber_of_decimal (h : Decimal t v) : leadingNumber t = some v := by
  obtain ⟨hne, hdigits, hv⟩ := h
  have hlt : ∀ c ∈ (stripSign t).2, digitVal c < 10 := fun c hc =>
    (digitVal_lt_ten_iff c).mpr (hdigits c hc)
  -- neither a sign nor a digit is white space
  have hspace : t.dropWhile isSpace = t := by
    cases t with
    | nil => rfl
    | cons c t =>
      refine List.dropWhile_cons_of_neg ?_
      by_cases hsign : c = 45 ∨ c = 43
      · rcases hsign with rfl | rfl <;> decide
      · rw [not_or] at hsign
        have hstrip : stripSign (c :: t) = (false, c :: t) := by
          unfold stripSign
          split
          · rename_i heq
            exact absurd (List.cons.inj heq).1 hsign.1
          · rename_i heq
            exact absurd (List.cons.inj heq).1 hsign.2
          · rfl
        rw [hstrip] at hlt
        have hc := hlt c (by simp)
        rw [(not_isSpace_of_digit (by omega)).1]
        decide
  have hsign : stripSign t = ((stripSign t).1, (stripSign t).2) := rfl
  rw [leadingNumber, hspace, hsign]
  simp only [digits_of_digits hlt, List.map_eq_nil_iff, if_neg hne]
  rw [hv]
  rfl

/-- **One token of `ParseCore`.** It goes on with the number of the token as an `int`. -/
theorem coreLoop_cons (rest : List Bytes) (vec : List ℤ) {n : ℤ} (h : ReadAs cpus t n) :
    coreLoop cpus (t :: rest) vec = coreLoop cpus rest (vec ++ [int32 n]) := by
  obtain ⟨hn, hlo, hhi, hrange⟩ := h
  have hval : (strtol t).val = n := by
    simp only [strtol, hn]
    rw [min_eq_left (by omega), max_eq_right hlo]
  have herr : ¬ ((strtol t).erange = true ∨ (strtol t).moved = false) := by
    simp [strtol, hn]
    omega
  rw [coreLoop]
  simp only [hval, if_neg herr, checkCoreId, if_pos hrange, Bool.true_eq_false, if_false]

/-- It gives up at a token without such a number. -/
theorem coreLoop_cons_of_not (rest : List Bytes) (vec : List ℤ) (h : ¬ ∃ n, ReadAs cpus t n) :
    coreLoop cpus (t :: rest) vec = (ERROR_PORT, vec) := by
  rw [coreLoop]
  cases hn : leadingNumber t with
  | none => simp [strtol, hn]
  | some n =>
    by_cases hlong : -2 ^ 63 ≤ n ∧ n < 2 ^ 63
    · have hval : (strtol t).val = n := by
        simp only [strtol, hn]
        rw [min_eq_left (by omega), max_eq_right hlong.1]
      have hrange : ¬ (0 ≤ int32 n ∧ int32 n < cpus.online) := fun hr =>
        h ⟨n, hn, hlong.1, hlong.2, hr⟩
      simp only [hval, checkCoreId, if_neg hrange, if_true, ite_self]
    · have herr : (strtol t).erange = true ∨ (strtol t).moved = false := by
        simp [strtol, hn]
        omega
      simp only [if_pos herr]

theorem coreLoop_spec (tokens : List Bytes) (vec : List ℤ) :
    ((coreLoop cpus tokens vec).1 = 0 ↔ ∀ t ∈ tokens, ∃ n, ReadAs cpus t n) ∧
    ((coreLoop cpus tokens vec).1 = 0 → ∃ ids, (coreLoop cpus tokens vec).2 = vec ++ ids ∧
      List.Forall₂ (fun t id => ∃ n, ReadAs cpus t n ∧ id = int32 n) tokens ids) := by
  induction tokens generalizing vec with
  | nil => exact ⟨iff_of_true rfl (by simp), fun _ => ⟨[], by simp [coreLoop], .nil⟩⟩
  | cons t tokens ih =>
    by_cases hread : ∃ n, ReadAs cpus t n
    · obtain ⟨n, hn⟩ := hread
      rw [coreLoop_cons tokens vec hn, List.forall_mem_cons,
        and_iff_right (⟨n, hn⟩ : ∃ n, ReadAs cpus t n)]
      refine ⟨(ih _).1, fun hret => ?_⟩
      obtain ⟨ids, hids, hall⟩ := (ih _).2 hret
      exact ⟨int32 n :: ids, by rw [hids]; simp, .cons ⟨n, hn, rfl⟩ hall⟩
    · rw [coreLoop_cons_of_not tokens vec hread]
      refine ⟨iff_of_false (by simp [ERROR_PORT]) ?_, by simp [ERROR_PORT]⟩
      exact fun h => hread (h t (by simp))

/-- A processor number is an `int`. -/
theorem readAs_of_coreId (h : CoreId cpus t v) : ReadAs cpus t v ∧ int32 v = v := by
  obtain ⟨hdec, hlo, hhi⟩ := h
  have hbound := cpus.bound
  have hint : int32 v = v := int32_of_mem (by omega) (by omega)
  exact ⟨⟨leadingNumber_of_decimal hdec, by omega, by omega, by rwa [hint], by rwa [hint]⟩, hint⟩

theorem exists_readAs_iff :
    (∃ n, ReadAs cpus t n) ↔ (∃ v, CoreId cpus t v) ∨ MisreadCore cpus t := by
  constructor
  · intro hread
    by_cases hcore : ∃ v, CoreId cpus t v
    · exact .inl hcore
    · exact .inr ⟨hcore, hread⟩
  · rintro (⟨v, hv⟩ | ⟨-, hread⟩)
    · exact ⟨v, (readAs_of_coreId hv).1⟩
    · exact hread

/-- The number of a processor is kept as it is. -/
theorem coreId_of_readAs {n : ℤ} (h : ReadAs cpus t n) (hcore : ∃ v, CoreId cpus t v) :
    CoreId cpus t (int32 n) := by
  obtain ⟨v, hv⟩ := hcore
  obtain ⟨hread, hint⟩ := readAs_of_coreId hv
  obtain rfl : v = n := Option.some.inj (hread.1.symm.trans h.1)
  rwa [hint]

/-- Nothing with a NUL in it is a number. -/
theorem not_coreId_of_nul (h : 0 ∈ t) : ¬ ∃ v, CoreId cpus t v := by
  rintro ⟨v, ⟨-, hdigits, -⟩, -⟩
  have hmem : 0 ∈ (stripSign t).2 := by
    unfold stripSign
    split
    · simpa using h
    · simpa using h
    · exact h
  exact absurd (hdigits 0 hmem).1 (by decide)

/-- Up to the first NUL every token is a processor or taken for one, and there is a NUL, or one
token at least is misread. -/
def MisreadCores (cpus : Cpus) (core : Bytes) : Prop :=
  (∀ t ∈ strtok 44 (cStr core), (∃ v, CoreId cpus t v) ∨ MisreadCore cpus t) ∧
    (0 ∈ core ∨ ∃ t ∈ strtok 44 (cStr core), MisreadCore cpus t)

theorem acceptsCores_iff (cpus : Cpus) (core : Bytes) :
    AcceptsCores cpus core ↔ ¬ MisreadCores cpus core := by
  obtain ⟨hret, hids⟩ := @coreLoop_spec cpus (strtok 44 (cStr core)) []
  rw [forall₂_congr fun t _ => exists_readAs_iff] at hret
  unfold AcceptsCores MisreadCores parseCore
  rw [hret]
  by_cases hnul : 0 ∈ core
  · -- the whole text is no list of numbers
    obtain ⟨t, ht, hmem⟩ := exists_mem_strtok 44 hnul (by decide)
    have hno : ¬ ∀ t ∈ strtok 44 core, ∃ v, CoreId cpus t v := fun h =>
      not_coreId_of_nul hmem (h t ht)
    simp only [hno, hnul, true_or, and_true, iff_false]
    refine ⟨fun h => h.1, fun h => ⟨h, fun hall => absurd hall h⟩⟩
  · rw [cStr_of_not_mem hnul] at hret hids ⊢
    simp only [hnul, false_or]
    constructor
    · rintro ⟨hiff, -⟩ ⟨hall, t, ht, hno, -⟩
      exact hno (hiff.mp hall t ht)
    · intro hnot
      have hcore : (∀ t ∈ strtok 44 core, (∃ v, CoreId cpus t v) ∨ MisreadCore cpus t) →
          ∀ t ∈ strtok 44 core, ∃ v, CoreId cpus t v := fun hall t ht =>
        (hall t ht).resolve_right fun hmis => hnot ⟨hall, t, ht, hmis⟩
      refine ⟨⟨hcore, fun h t ht => .inl (h t ht)⟩, ?_⟩
      intro hall
      obtain ⟨ids, hvec, hread⟩ := hids (hret.mpr hall)
      rw [hvec, List.nil_append]
      have hboth := (List.forall₂_and_left _ _).mpr ⟨hcore hall, hread⟩
      refine hboth.imp ?_
      rintro t id ⟨hid, n, hn, rfl⟩
      exact coreId_of_readAs hn hid

end Cores

/-- `2 ^ 32 + 1024` -/
def wrappedPort : Bytes := ascii ['4', '2', '9', '4', '9', '6', '8', '3', '2', '0']

def fourCpus : Cpus := ⟨4, by decide⟩

end GcAdaptor.ConfigList
