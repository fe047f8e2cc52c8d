import Casa.MarkdownBlocks
import Casa.SeparatedText
import Mathlib.Data.List.Nodup
import Mathlib.Tactic.IntervalCases

/-! The day-of-week field of a trigger's schedule: what it denotes in standard cron, and its
translation into the day names that the scheduler reads. -/

namespace Casa.CronWeekdays
open MarkdownBlocks (Text strip)
open SeparatedText (partition partition_append partition_plain partition_cases)

/-! ### Digits -/

def decimalZeros : List ℕ :=
  [0x30, 0x660, 0x6f0, 0x7c0, 0x966, 0x9e6, 0xa66, 0xae6, 0xb66, 0xbe6, 0xc66, 0xce6, 0xd66, 0xde6,
    0xe50, 0xed0, 0xf20, 0x1040, 0x1090, 0x17e0, 0x1810, 0x1946, 0x19d0, 0x1a80, 0x1a90, 0x1b50,
    0x1bb0, 0x1c40, 0x1c50, 0xa620, 0xa8d0, 0xa900, 0xa9d0, 0xa9f0, 0xaa50, 0xabf0, 0xff10, 0x104a0,
    0x10d30, 0x11066, 0x110f0, 0x11136, 0x111d0, 0x112f0, 0x11450, 0x114d0, 0x11650, 0x116c0,
    0x11730, 0x118e0, 0x11950, 0x11c50, 0x11d50, 0x11da0, 0x16a60, 0x16ac0, 0x16b50, 0x1d7ce,
    0x1d7d8, 0x1d7e2, 0x1d7ec, 0x1d7f6, 0x1e140, 0x1e2f0, 0x1e950, 0x1fbf0]

/-- The other characters that `str.isdigit` takes: superscripts, subscripts, digits in circles. -/
def otherDigits : List (ℕ × ℕ) :=
  [(0xb2, 0xb3), (0xb9, 0xb9), (0x1369, 0x1371), (0x19da, 0x19da), (0x2070, 0x2070),
    (0x2074, 0x2079), (0x2080, 0x2089), (0x2460, 0x2468), (0x2474, 0x247c), (0x2488, 0x2490),
    (0x24ea, 0x24ea), (0x24f5, 0x24fd), (0x24ff, 0x24ff), (0x2776, 0x277e), (0x2780, 0x2788),
    (0x278a, 0x2792), (0x10a40, 0x10a43), (0x10e60, 0x10e68), (0x11052, 0x1105a),
    (0x1f100, 0x1f10a)]

def decimal (c : ℕ) : Option ℕ := (decimalZeros.find? fun z => z ≤ c && c < z + 10).map (c - ·)

def isDigit (c : ℕ) : Bool :=
  (decimal c).isSome || otherDigits.any fun r => r.1 ≤ c && c ≤ r.2

def isdigit (s : Text) : Bool := s ≠ [] && s.all isDigit

def maxStrDigits : ℕ := 4300

def numeralFrom (n : ℕ) : Text → Option ℕ
  | [] => some n
  | c :: rest => match decimal c with
      | some d => numeralFrom (10 * n + d) rest
      | none => none

/-- `int(s)` of a text without sign, underscore and space. -/
def numeral (s : Text) : Option ℕ :=
  if s = [] ∨ maxStrDigits < s.length then none else numeralFrom 0 s

/-! ### The translation -/

inductive Raised where
  | triggerError
  | valueError
deriving DecidableEq

def points (s : String) : Text := s.toList.map Char.toNat

/-- `_DOW_TOKENS`, in cron's order; `_CRON_DOW_NAMES` numbers them. -/
def dowTokens : List Text := ["sun", "mon", "tue", "wed", "thu", "fri", "sat"].map points

def comma : ℕ := ','.toNat
def slash : ℕ := '/'.toNat
def dash : ℕ := '-'.toNat
def star : Text := points "*"

/-- `str.lower`. A character that is not ASCII becomes nothing a field is made of, but for one
whose lower case is a letter. -/
def lower (s : Text) : Text := s.flatMap fun c =>
  if 'A'.toNat ≤ c ∧ c ≤ 'Z'.toNat then [c + 32]
  else if c = 0x130 then ['i'.toNat, 0x307]
  else if c = 0x212a then ['k'.toNat]
  else [c]

/-- `int`, which raises a `ValueError`. -/
def toInt (s : Text) : Except Raised ℕ :=
  match numeral s with
  | some n => .ok n
  | none => .error .valueError

def cronDowToken (tok : Text) : Except Raised ℕ :=
  if isdigit tok then do
    let n ← toInt tok
    if 7 < n then throw .triggerError
    pure n
  else if tok ∈ dowTokens then pure (dowTokens.idxOf tok)
  else throw .triggerError

/-- `s.split(",")`. -/
def splitComma : Text → List Text
  | [] => [[]]
  | c :: rest =>
      if c = comma then [] :: splitComma rest
      else match splitComma rest with
        | part :: parts => (c :: part) :: parts
        | [] => [[c]]

/-- `int(step_s)`, where a step is given. -/
def readStep : Option Text → Except Raised ℕ
  | none => pure 1
  | some stepS =>
      if isdigit stepS then do
        let step ← toInt stepS
        if step < 1 then throw .triggerError
        pure step
      else throw .triggerError

def readRange (expr : Text) (stepped : Bool) : Except Raised (ℕ × ℕ) :=
  if expr = star then pure (0, 6)
  else match partition dash expr with
    | (loS, some hiS) =>
        if loS = [] ∨ hiS = [] then throw .triggerError
        else do
          let lo ← cronDowToken loS
          let hi ← cronDowToken hiS
          pure (lo, hi)
    | (_, none) => do
        let lo ← cronDowToken expr
        pure (lo, if stepped then 7 else lo)

def expand (lo hi : ℕ) : List ℕ :=
  if lo ≤ hi then List.range' lo (hi + 1 - lo)
  else List.range' lo (7 - lo) ++ List.range (hi + 1)

/-- `days[::step]`. -/
def stride (step : ℕ) (days : List ℕ) : List ℕ :=
  (days.zipIdx.filter fun d => d.2 % step = 0).map Prod.fst

def partDays (part : Text) : Except Raised (List ℕ) := do
  let (expr, stepS) := partition slash (strip part)
  let step ← readStep stepS
  let (lo, hi) ← readRange expr stepS.isSome
  pure ((stride step (expand lo hi)).map (· % 7))

def addDays (out days : List ℕ) : List ℕ :=
  days.foldl (fun out d => if d ∈ out then out else out ++ [d]) out

def fieldDays (parts : List Text) : Except Raised (List ℕ) :=
  parts.foldlM (fun out part => do pure (addDays out (← partDays part))) []

/-- `",".join`. -/
def names (days : List ℕ) : Text :=
  List.intercalate [comma] (days.map fun d => dowTokens.getD d [])

def translateCronDow (field : Text) : Except Raised Text :=
  let field := lower (strip field)
  if field = star then pure star
  else do pure (names (← fieldDays (splitComma field)))

/-! ### Standard cron -/

def IsDay (tok : Text) (n : ℕ) : Prop := (numeral tok = some n ∧ n ≤ 7) ∨ dowTokens[n]? = some tok

/-- A part of a field: its first and last day as raw numbers, and its step. -/
inductive Part : Text → ℕ → ℕ → ℕ → Prop
  | every : Part star 0 6 1
  | everyStep {tok : Text} {step : ℕ} (read : numeral tok = some step) (some_ : 0 < step) :
      Part (star ++ slash :: tok) 0 6 step
  | day {tok : Text} {n : ℕ} (read : IsDay tok n) : Part tok n n 1
  | dayStep {tok stepTok : Text} {n step : ℕ} (read : IsDay tok n)
      (readStep : numeral stepTok = some step) (some_ : 0 < step) :
      Part (tok ++ slash :: stepTok) n 7 step
  | range {loTok hiTok : Text} {lo hi : ℕ} (readLo : IsDay loTok lo) (readHi : IsDay hiTok hi) :
      Part (loTok ++ dash :: hiTok) lo hi 1
  | rangeStep {loTok hiTok stepTok : Text} {lo hi step : ℕ} (readLo : IsDay loTok lo)
      (readHi : IsDay hiTok hi) (readStep : numeral stepTok = some step) (some_ : 0 < step) :
      Part (loTok ++ dash :: hiTok ++ slash :: stepTok) lo hi step

/-- Every so many days from the first one on, up to the last one, which may lie in the next week. -/
def Runs (lo hi step d : ℕ) : Prop :=
  ∃ j, lo + step * j ≤ (if lo ≤ hi then hi else hi + 7) ∧ (lo + step * j) % 7 = d

def Denotes (parts : List Text) (d : ℕ) : Prop :=
  ∃ part ∈ parts, ∃ lo hi step, Part (strip part) lo hi step ∧ Runs lo hi step d

def Accepted (parts : List Text) : Prop :=
  ∀ part ∈ parts, ∃ lo hi step, Part (strip part) lo hi step

/-! ### Texts that are read -/

inductive Reading where
  | step (tok : Text)
  | day (tok : Text)
  | broken

def Reading.ok : Reading → Bool
  | .step tok => (numeral tok).any (0 < ·)
  | .day tok => (numeral tok).any (· ≤ 7) || dowTokens.contains tok
  | .broken => false

/-- It passes `str.isdigit`, and `int` does not take it. -/
def Reading.unread : Reading → Bool
  | .step tok => isdigit tok && (numeral tok).isNone
  | .day tok => isdigit tok && (numeral tok).isNone
  | .broken => false

def readings (part : Text) : List Reading :=
  let (expr, stepS) := partition slash (strip part)
  stepS.toList.map .step ++
    if expr = star then []
    else match partition dash expr with
      | (loS, some hiS) => if loS = [] ∨ hiS = [] then [.broken] else [.day loS, .day hiS]
      | (_, none) => [.day expr]

def parts (field : Text) : List Text := splitComma (lower (strip field))

/-- The first text of a field that is neither a step nor a day is not one that `int` refuses
after `str.isdigit` let it through. -/
def Readable (field : Text) : Prop :=
  (((parts field).flatMap readings).find? (!·.ok)).all (!·.unread)

def Reading.fault (r : Reading) : Raised := if r.unread then .valueError else .triggerError

def ends (part : Text) : ℕ × ℕ × ℕ :=
  let (expr, stepS) := partition slash (strip part)
  let step := (stepS.bind numeral).getD 1
  if expr = star then (0, 6, step)
  else match partition dash expr with
    | (loS, some hiS) => (dayOf loS, dayOf hiS, step)
    | (_, none) => (dayOf expr, if stepS.isSome then 7 else dayOf expr, step)
where
  dayOf (tok : Text) : ℕ := (numeral tok).getD (dowTokens.idxOf tok)

theorem numeralFrom_digits {s : Text} {n m : ℕ} (h : numeralFrom n s = some m) :
    ∀ c ∈ s, (decimal c).isSome := by
  induction s generalizing n with
  | nil => simp
  | cons c rest ih =>
    unfold numeralFrom at h
    cases digit : decimal c with
    | none => simp [digit] at h
    | some d =>
      simp only [digit] at h
      simpa [digit] using ih h

theorem numeral_digits {s : Text} {n : ℕ} (h : numeral s = some n) :
    s ≠ [] ∧ ∀ c ∈ s, (decimal c).isSome := by
  unfold numeral at h
  split at h
  · cases h
  · next some_ => exact ⟨by tauto, numeralFrom_digits h⟩

theorem isdigit_of_numeral {s : Text} {n : ℕ} (h : numeral s = some n) : isdigit s = true := by
  obtain ⟨some_, digits⟩ := numeral_digits h
  simp only [isdigit, isDigit, ne_eq, Bool.and_eq_true, decide_eq_true_eq, List.all_eq_true,
    Bool.or_eq_true]
  exact ⟨some_, fun c inside => .inl (digits c inside)⟩

/-- The names are distinct, and neither a numeral nor a name holds one of the signs of a field. -/
theorem names_plain : dowTokens.Nodup ∧
    (∀ tok ∈ dowTokens, isdigit tok = false ∧ slash ∉ tok ∧ dash ∉ tok ∧ tok ≠ star ∧ tok ≠ []) ∧
    decimal slash = none ∧ decimal dash = none ∧ numeral star = none := by
  decide +kernel

theorem numeral_of_name {tok : Text} (name : tok ∈ dowTokens) : numeral tok = none := by
  cases h : numeral tok with
  | none => rfl
  | some n =>
    have digits := isdigit_of_numeral h
    rw [(names_plain.2.1 tok name).1] at digits
    cases digits

theorem plain_of_numeral {tok : Text} {n : ℕ} (h : numeral tok = some n) {c : ℕ}
    (sign : decimal c = none) : c ∉ tok := by
  intro inside
  have digit := (numeral_digits h).2 c inside
  simp [sign] at digit

theorem IsDay.plain {tok : Text} {n : ℕ} (h : IsDay tok n) :
    slash ∉ tok ∧ dash ∉ tok ∧ tok ≠ star ∧ tok ≠ [] := by
  obtain ⟨-, names, noSlash, noDash, noStar⟩ := names_plain
  rcases h with ⟨digits, -⟩ | name
  · refine ⟨plain_of_numeral digits noSlash, plain_of_numeral digits noDash, ?_,
      (numeral_digits digits).1⟩
    rintro rfl
    exact absurd digits (by simp [noStar])
  · exact (names tok (List.mem_of_getElem? name)).2

theorem IsDay.dayOf {tok : Text} {n : ℕ} (h : IsDay tok n) :
    ends.dayOf tok = n ∧ n ≤ 7 ∧ Reading.ok (.day tok) = true := by
  rcases h with ⟨digits, small⟩ | name
  · simp [ends.dayOf, Reading.ok, digits, small]
  · have inside := List.mem_of_getElem? name
    obtain ⟨below, rfl⟩ := List.getElem?_eq_some_iff.1 name
    have week : dowTokens.length = 7 := rfl
    have first : dowTokens.idxOf dowTokens[n] = n :=
      List.Nodup.idxOf_getElem names_plain.1 n below
    refine ⟨?_, by omega, by simp [Reading.ok]⟩
    rw [ends.dayOf, numeral_of_name inside, Option.getD_none, first]

theorem isDay_of_ok {tok : Text} (h : Reading.ok (.day tok) = true) :
    IsDay tok (ends.dayOf tok) := by
  simp only [Reading.ok, Bool.or_eq_true, List.contains_iff_mem] at h
  rcases h with digits | name
  · obtain ⟨n, read, small⟩ := (Option.any_eq_true _ _).1 digits
    exact .inl ⟨by simp [ends.dayOf, read], by simpa [ends.dayOf, read] using small⟩
  · refine .inr ?_
    rw [ends.dayOf, numeral_of_name name, Option.getD_none]
    exact List.getElem?_eq_some_iff.2 ⟨List.idxOf_lt_length_of_mem name, List.getElem_idxOf _⟩

theorem cronDowToken_eq (tok : Text) : cronDowToken tok =
    if Reading.ok (.day tok) then .ok (ends.dayOf tok) else .error (Reading.fault (.day tok)) := by
  by_cases digit : isdigit tok = true
  · have unnamed : tok ∉ dowTokens := fun name => by simp [(names_plain.2.1 tok name).1] at digit
    cases read : numeral tok with
    | none => simp [cronDowToken, digit, toInt, read, Reading.ok, Reading.fault, Reading.unread,
        unnamed, bind, Except.bind]
    | some n =>
      by_cases small : n ≤ 7
      · simp [cronDowToken, digit, toInt, read, Reading.ok, ends.dayOf, small, bind, Except.bind,
          pure, Except.pure, throw, throwThe, MonadExceptOf.throw]
      · simp [cronDowToken, digit, toInt, read, Reading.ok, Reading.fault, Reading.unread, unnamed,
          small, Nat.lt_of_not_le small, bind, Except.bind, throw, throwThe, MonadExceptOf.throw]
  · have unread : numeral tok = none := by
      cases read : numeral tok with
      | none => rfl
      | some n => exact absurd (isdigit_of_numeral read) digit
    by_cases name : tok ∈ dowTokens
    · simp [cronDowToken, digit, name, Reading.ok, ends.dayOf, unread, pure, Except.pure]
    · simp [cronDowToken, digit, name, Reading.ok, Reading.fault, Reading.unread, unread, throw,
        throwThe, MonadExceptOf.throw]

theorem readStep_eq (stepS : Text) : readStep (some stepS) =
    if Reading.ok (.step stepS) then .ok ((numeral stepS).getD 1)
    else .error (Reading.fault (.step stepS)) := by
  by_cases digit : isdigit stepS = true
  · cases read : numeral stepS with
    | none => simp [readStep, digit, toInt, read, Reading.ok, Reading.fault, Reading.unread, bind,
        Except.bind]
    | some n =>
      by_cases pos : 0 < n
      · simp [readStep, digit, toInt, read, Reading.ok, pos, Nat.pos_iff_ne_zero.1 pos, bind,
          Except.bind, pure, Except.pure]
      · simp [readStep, digit, toInt, read, Reading.ok, Reading.fault, Reading.unread,
          Nat.eq_zero_of_not_pos pos, bind, Except.bind, throw, throwThe, MonadExceptOf.throw]
  · have unread : numeral stepS = none := by
      cases read : numeral stepS with
      | none => rfl
      | some n => exact absurd (isdigit_of_numeral read) digit
    simp [readStep, digit, Reading.ok, Reading.fault, Reading.unread, unread, throw, throwThe,
      MonadExceptOf.throw]

/-! ### One part -/

def partOut (part : Text) : List ℕ :=
  (stride (ends part).2.2 (expand (ends part).1 (ends part).2.1)).map (· % 7)

def faultOf (rs : List Reading) : Option Raised := (rs.find? (!·.ok)).map Reading.fault

theorem faultOf_cons (r : Reading) (rs : List Reading) :
    faultOf (r :: rs) = if r.ok then faultOf rs else some r.fault := by
  cases ok : r.ok <;> simp [faultOf, ok]

theorem faultOf_append (rs rest : List Reading) :
    faultOf (rs ++ rest) = (faultOf rs).or (faultOf rest) := by
  induction rs with
  | nil => simp [faultOf]
  | cons r rs ih =>
    rw [List.cons_append, faultOf_cons, faultOf_cons, ih]
    split <;> rfl

theorem partDays_eq (part : Text) : partDays part =
    match faultOf (readings part) with
    | some raised => .error raised
    | none => .ok (partOut part) := by
  unfold partDays partOut readings ends
  cases halves : partition slash (strip part) with
  | mk expr stepS =>
    have step : readStep stepS = match faultOf (stepS.toList.map Reading.step) with
        | some raised => .error raised
        | none => .ok ((stepS.bind numeral).getD 1) := by
      cases stepS with
      | none => rfl
      | some tok =>
        rw [readStep_eq, Option.toList_some, List.map_singleton, faultOf_cons]
        split <;> rfl
    simp only [faultOf_append, step]
    cases faultOf (stepS.toList.map Reading.step) with
    | some raised => rfl
    | none =>
      simp only [Option.none_or, readRange]
      by_cases all : expr = star
      · simp only [if_pos all]
        rfl
      · simp only [if_neg all]
        cases range : partition dash expr with
        | mk loS hiS =>
          cases hiS with
          | none =>
            simp only [cronDowToken_eq, faultOf_cons]
            split <;> rfl
          | some hiS =>
            by_cases cut : loS = [] ∨ hiS = []
            · simp only [if_pos cut]
              rfl
            · simp only [if_neg cut, cronDowToken_eq, faultOf_cons]
              cases Reading.ok (.day loS) <;> cases Reading.ok (.day hiS) <;> rfl

theorem plain_range {loTok hiTok : Text} {lo hi : ℕ} (readLo : IsDay loTok lo)
    (readHi : IsDay hiTok hi) :
    slash ∉ loTok ++ dash :: hiTok ∧ loTok ++ dash :: hiTok ≠ star := by
  constructor
  · simp [readLo.plain.1, readHi.plain.1, show slash ≠ dash by decide]
  · intro all
    have inside : dash ∈ star := by simp [← all]
    exact absurd inside (by decide)

theorem Part.read {part : Text} {lo hi step : ℕ} (h : Part (strip part) lo hi step) :
    faultOf (readings part) = none ∧ ends part = (lo, hi, step) ∧ lo ≤ 7 ∧ hi ≤ 7 ∧ 0 < step := by
  have stepOk {tok : Text} {n : ℕ} (read : numeral tok = some n) (pos : 0 < n) :
      Reading.ok (.step tok) = true := by simp [Reading.ok, read, pos]
  generalize text : strip part = s at h
  unfold readings ends
  rw [text]
  cases h with
  | every =>
    rw [partition_plain (by decide : slash ∉ star)]
    exact ⟨rfl, rfl, by omega, by omega, by omega⟩
  | everyStep read pos =>
    rw [partition_append _ (by decide : slash ∉ star)]
    simp [faultOf, stepOk read pos, read, pos]
  | day read =>
    obtain ⟨slash_, dash_, star_, -⟩ := read.plain
    obtain ⟨value, small, ok⟩ := read.dayOf
    rw [partition_plain slash_]
    simp [faultOf, star_, partition_plain dash_, ok, value, small]
  | dayStep read readStep pos =>
    obtain ⟨slash_, dash_, star_, -⟩ := read.plain
    obtain ⟨value, small, ok⟩ := read.dayOf
    rw [partition_append _ slash_]
    simp [faultOf, star_, partition_plain dash_, stepOk readStep pos, ok, readStep, value, small,
      pos]
  | range readLo readHi =>
    obtain ⟨slash_, star_⟩ := plain_range readLo readHi
    obtain ⟨valueLo, smallLo, okLo⟩ := readLo.dayOf
    obtain ⟨valueHi, smallHi, okHi⟩ := readHi.dayOf
    rw [partition_plain slash_]
    simp [faultOf, star_, partition_append _ readLo.plain.2.1, readLo.plain.2.2.2,
      readHi.plain.2.2.2, okLo, okHi, valueLo, valueHi, smallLo, smallHi]
  | rangeStep readLo readHi readStep pos =>
    obtain ⟨slash_, star_⟩ := plain_range readLo readHi
    obtain ⟨valueLo, smallLo, okLo⟩ := readLo.dayOf
    obtain ⟨valueHi, smallHi, okHi⟩ := readHi.dayOf
    rw [partition_append _ slash_]
    simp [faultOf, star_, partition_append _ readLo.plain.2.1, readLo.plain.2.2.2,
      readHi.plain.2.2.2, stepOk readStep pos, readStep, okLo, okHi, valueLo, valueHi, smallLo,
      smallHi, pos]

theorem part_of_read {part : Text} (h : faultOf (readings part) = none) :
    Part (strip part) (ends part).1 (ends part).2.1 (ends part).2.2 := by
  have okOf {r : Reading} {rs : List Reading} (none_ : faultOf (r :: rs) = none) :
      r.ok = true ∧ faultOf rs = none := by
    rw [faultOf_cons] at none_
    split at none_
    · next ok => exact ⟨ok, none_⟩
    · cases none_
  have stepOf {tok : Text} (ok : Reading.ok (.step tok) = true) :
      ∃ n, numeral tok = some n ∧ 0 < n := by
    simpa [Reading.ok, Option.any_eq_true] using ok
  unfold readings at h
  unfold ends
  generalize strip part = s at h ⊢
  rcases partition_cases slash s with ⟨expr, tok, rfl, -, halves⟩ | ⟨-, halves⟩
  · simp only [halves, Option.toList_some, List.map_singleton, List.singleton_append] at h ⊢
    obtain ⟨stepOk, h⟩ := okOf h
    obtain ⟨step, readStep, pos⟩ := stepOf stepOk
    by_cases all : expr = star
    · simp only [all]
      simpa [readStep] using Part.everyStep readStep pos
    · simp only [if_neg all] at h ⊢
      rcases partition_cases dash expr with ⟨loS, hiS, rfl, -, range⟩ | ⟨-, range⟩
      · simp only [range] at h ⊢
        split at h
        · cases (okOf h).1
        · obtain ⟨lo, h⟩ := okOf h
          simpa [readStep] using
            Part.rangeStep (isDay_of_ok lo) (isDay_of_ok (okOf h).1) readStep pos
      · simp only [range] at h ⊢
        simpa [readStep] using Part.dayStep (isDay_of_ok (okOf h).1) readStep pos
  · simp only [halves, Option.toList_none, List.map_nil, List.nil_append] at h ⊢
    by_cases all : s = star
    · simp only [all]
      exact .every
    · simp only [if_neg all] at h ⊢
      rcases partition_cases dash s with ⟨loS, hiS, rfl, -, range⟩ | ⟨-, range⟩
      · simp only [range] at h ⊢
        split at h
        · cases (okOf h).1
        · obtain ⟨lo, h⟩ := okOf h
          exact .range (isDay_of_ok lo) (isDay_of_ok (okOf h).1)
      · simp only [range] at h ⊢
        exact .day (isDay_of_ok (okOf h).1)

/-! ### The days of a part -/

theorem expand_map {lo hi : ℕ} (low : lo ≤ 7) (high : hi ≤ 7) :
    (expand lo hi).map (· % 7) =
      (List.range ((if lo ≤ hi then hi else hi + 7) + 1 - lo)).map fun i => (lo + i) % 7 := by
  interval_cases lo <;> interval_cases hi <;> rfl

theorem mem_stride {step d : ℕ} {days : List ℕ} :
    d ∈ stride step days ↔ ∃ j, days[step * j]? = some d := by
  simp only [stride, List.mem_map, List.mem_filter, Prod.exists, decide_eq_true_eq,
    List.mk_mem_zipIdx_iff_getElem?, exists_and_right, exists_eq_right]
  constructor
  · rintro ⟨i, here, turn⟩
    exact ⟨i / step, by rwa [Nat.mul_div_cancel' (Nat.dvd_of_mod_eq_zero turn)]⟩
  · rintro ⟨j, here⟩
    exact ⟨step * j, here, Nat.mul_mod_right step j⟩

theorem mem_partOut {part : Text} {d : ℕ} (low : (ends part).1 ≤ 7) (high : (ends part).2.1 ≤ 7) :
    d ∈ partOut part ↔ Runs (ends part).1 (ends part).2.1 (ends part).2.2 d := by
  generalize bound : (if (ends part).1 ≤ (ends part).2.1 then (ends part).2.1
    else (ends part).2.1 + 7) = last
  have value (i : ℕ) : ((expand (ends part).1 (ends part).2.1)[i]?).map (· % 7) =
      if i < last + 1 - (ends part).1 then some (((ends part).1 + i) % 7) else none := by
    rw [← List.getElem?_map, expand_map low high, bound, List.getElem?_map]
    split
    · next inside => simp [List.getElem?_range inside]
    · next outside => simp [outside]
  unfold partOut Runs
  rw [bound, List.mem_map]
  constructor
  · rintro ⟨x, inside, rfl⟩
    obtain ⟨j, here⟩ := mem_stride.1 inside
    have at_ := value ((ends part).2.2 * j)
    rw [here, Option.map_some] at at_
    split at at_
    · next within => exact ⟨j, by omega, (Option.some.inj at_).symm⟩
    · cases at_
  · rintro ⟨j, within, rfl⟩
    have at_ := value ((ends part).2.2 * j)
    rw [if_pos (by omega)] at at_
    obtain ⟨x, here, same⟩ := Option.map_eq_some_iff.1 at_
    exact ⟨x, mem_stride.2 ⟨j, here⟩, same⟩

/-! ### The field -/

theorem mem_addDays {out days : List ℕ} {d : ℕ} : d ∈ addDays out days ↔ d ∈ out ∨ d ∈ days := by
  induction days generalizing out with
  | nil => simp [addDays]
  | cons day days ih =>
    have step : addDays out (day :: days) =
        addDays (if day ∈ out then out else out ++ [day]) days := rfl
    rw [step, ih]
    split
    · simp only [List.mem_cons]
      grind
    · simp only [List.mem_append, List.mem_cons]
      grind

theorem nodup_addDays {out : List ℕ} (days : List ℕ) (once : out.Nodup) :
    (addDays out days).Nodup := by
  induction days generalizing out with
  | nil => exact once
  | cons day days ih =>
    suffices first : (if day ∈ out then out else out ++ [day]).Nodup from ih first
    split
    · exact once
    · next new =>
      rw [List.nodup_append]
      exact ⟨once, List.nodup_singleton day, fun a inside b same => by grind⟩

def allDays (parts : List Text) : List ℕ :=
  parts.foldl (fun out part => addDays out (partOut part)) []

theorem fieldDays_eq (parts : List Text) : fieldDays parts =
    match faultOf (parts.flatMap readings) with
    | some raised => .error raised
    | none => .ok (allDays parts) := by
  unfold fieldDays allDays
  generalize ([] : List ℕ) = out
  induction parts generalizing out with
  | nil => rfl
  | cons part parts ih =>
    rw [List.foldlM_cons, partDays_eq, List.flatMap_cons, faultOf_append, List.foldl_cons]
    cases faultOf (readings part) with
    | some raised => rfl
    | none => exact ih _

theorem allDays_spec (parts : List Text) :
    (allDays parts).Nodup ∧ ∀ d, d ∈ allDays parts ↔ ∃ part ∈ parts, d ∈ partOut part := by
  suffices general : ∀ out : List ℕ, out.Nodup →
      (parts.foldl (fun out part => addDays out (partOut part)) out).Nodup ∧
        ∀ d, d ∈ parts.foldl (fun out part => addDays out (partOut part)) out ↔
          d ∈ out ∨ ∃ part ∈ parts, d ∈ partOut part by
    simpa [allDays] using general [] List.nodup_nil
  induction parts with
  | nil => simp
  | cons part parts ih =>
    intro out once
    obtain ⟨nodup, mem⟩ := ih (addDays out (partOut part)) (nodup_addDays _ once)
    refine ⟨nodup, fun d => ?_⟩
    rw [List.foldl_cons, mem, mem_addDays]
    simp [or_assoc]

theorem faultOf_flatMap {parts : List Text} :
    faultOf (parts.flatMap readings) = none ↔ ∀ part ∈ parts, faultOf (readings part) = none := by
  induction parts with
  | nil => simp [faultOf]
  | cons part parts ih => simp [faultOf_append, ih]

theorem accepted_iff {parts : List Text} :
    Accepted parts ↔ faultOf (parts.flatMap readings) = none := by
  rw [faultOf_flatMap]
  constructor
  · intro all part inside
    obtain ⟨lo, hi, step, read⟩ := all part inside
    exact read.read.1
  · intro all part inside
    exact ⟨_, _, _, part_of_read (all part inside)⟩

theorem mem_allDays {parts : List Text} (all : Accepted parts) (d : ℕ) :
    d ∈ allDays parts ↔ Denotes parts d := by
  rw [(allDays_spec parts).2]
  refine exists_congr fun part => and_congr_right fun inside => ?_
  constructor
  · intro day
    obtain ⟨lo, hi, step, read⟩ := all part inside
    obtain ⟨-, same, low, high, -⟩ := read.read
    refine ⟨lo, hi, step, read, ?_⟩
    rw [mem_partOut (by simpa [same]) (by simpa [same]), same] at day
    exact day
  · rintro ⟨lo, hi, step, read, runs⟩
    obtain ⟨-, same, low, high, -⟩ := read.read
    rw [mem_partOut (by simpa [same]) (by simpa [same]), same]
    exact runs

/-- The translation is exact on a field: it refuses with its own error what standard cron refuses,
and otherwise names, each once, the weekdays that the field denotes. -/
def Exact (field : Text) : Prop :=
  match translateCronDow field with
  | .error raised => raised = .triggerError ∧ ¬ Accepted (parts field)
  | .ok out => Accepted (parts field) ∧
      ((out = star ∧ ∀ d < 7, Denotes (parts field) d) ∨
        ∃ days : List ℕ, out = names days ∧ days.Nodup ∧
          (∀ d ∈ days, d < 7) ∧ ∀ d, d ∈ days ↔ Denotes (parts field) d)

theorem readable_iff {field : Text} :
    Readable field ↔ faultOf ((parts field).flatMap readings) ≠ some .valueError := by
  unfold Readable faultOf
  cases (List.find? (fun r => !Reading.ok r) (List.flatMap readings (parts field))) with
  | none => simp
  | some r => cases unread : r.unread <;> simp [Reading.fault, unread]

theorem parts_star : splitComma star = [star] ∧ strip star = star := by decide +kernel

/-- The translation of a day-of-week field is exact for every text but those whose first unreadable
part is one that `str.isdigit` takes for a number and `int` does not. -/
theorem translateCronDow_exact_iff (field : Text) : Exact field ↔ Readable field := by
  rw [readable_iff]
  unfold Exact translateCronDow
  by_cases all : lower (strip field) = star
  · have whole : parts field = [star] := by
      rw [parts, all]
      exact parts_star.1
    have daily : Part (strip star) 0 6 1 := by
      rw [parts_star.2]
      exact .every
    have accepted : Accepted (parts field) := by
      rw [whole]
      exact fun part inside => ⟨0, 6, 1, by rwa [List.mem_singleton.1 inside]⟩
    simp only [if_pos all]
    rw [accepted_iff.1 accepted]
    refine iff_of_true ⟨accepted, .inl ⟨rfl, fun d week => ?_⟩⟩ (by simp)
    refine ⟨star, by simp [whole], 0, 6, 1, daily, d, ?_, ?_⟩ <;> simp <;> omega
  · simp only [if_neg all, show splitComma (lower (strip field)) = parts field from rfl,
      fieldDays_eq]
    cases fault : faultOf ((parts field).flatMap readings) with
    | some raised =>
      have refused : ¬ Accepted (parts field) := by
        rw [accepted_iff, fault]
        simp
      cases raised with
      | triggerError => exact iff_of_true ⟨rfl, refused⟩ (by simp)
      | valueError => exact iff_of_false (fun h => by cases h.1) (by simp)
    | none =>
      have accepted := accepted_iff.2 fault
      refine iff_of_true ⟨accepted, .inr ⟨allDays (parts field), rfl, (allDays_spec _).1, ?_,
        mem_allDays accepted⟩⟩ (by simp)
      intro d day
      obtain ⟨part, -, _, _, _, -, j, -, rfl⟩ := (mem_allDays accepted d).1 day
      exact Nat.mod_lt _ (by omega)

/-- A superscript two passes `str.isdigit`, and `int` raises a `ValueError`. -/
theorem superscript_raises_valueError :
    translateCronDow [0xb2] = .error .valueError ∧ ¬ Exact [0xb2] := by
  have raised : translateCronDow [0xb2] = .error .valueError := by decide +kernel
  refine ⟨raised, ?_⟩
  unfold Exact
  rw [raised]
  exact fun h => by cases h.1

example : translateCronDow (points "6-1, WED") = .ok (points "sat,sun,mon,wed") ∧
    translateCronDow (points "7/2") = .ok (points "sun") := by decide +kernel

end Casa.CronWeekdays
