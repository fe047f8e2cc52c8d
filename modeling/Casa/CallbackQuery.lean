import Casa.SeparatedText
import Casa.Utf8

/-! The query of a callback: the state that is claimed, read from the raw text, and the decoded
pairs that its consumer is given. -/

namespace Casa.CallbackQuery
open SeparatedText (partition partition_cases)
open Utf8

abbrev Text := List ℕ

def text (s : String) : Text := s.toList.map Char.toNat

def ampersand : ℕ := '&'.toNat
def equals : ℕ := '='.toNat
def plus : ℕ := '+'.toNat
def percent : ℕ := '%'.toNat
def stateKey : Text := text "state"

def stateMin : ℕ := 22
def stateMax : ℕ := 256
def stateChars : Text :=
  text "ABCDEFGHIJKLMNOPQRSTUVWXYZabcdefghijklmnopqrstuvwxyz0123456789._~-"

def maxRawQuery : ℕ := 4096
def maxPairs : ℕ := 32
def maxKey : ℕ := 128
def maxValue : ℕ := 2048

/-! ### The state -/

def keyOf (seg : Text) : Text := (partition equals seg).1
def valueOf (seg : Text) : Text := (partition equals seg).2.getD []

def nonEmpty (raw : Text) : List Text := (raw.splitOn ampersand).filter (· ≠ [])

def segments (raw : Text) : Option (List Text) :=
  if maxRawQuery < raw.length then none
  else if maxPairs < (nonEmpty raw).length then none
  else if (nonEmpty raw).any fun seg =>
      maxKey < (keyOf seg).length || maxValue < (valueOf seg).length then none
  else some (nonEmpty raw)

def findState (found : Option Text) (seen : ℕ) : List Text → Option Text
  | [] => found
  | seg :: rest =>
      if keyOf seg ≠ stateKey then findState found seen rest
      else if 1 < seen + 1 then none
      else findState (some (valueOf seg)) (seen + 1) rest

def extractState (raw : Text) : Option Text := do
  let found ← findState none 0 (← segments raw)
  if stateMin ≤ found.length ∧ found.length ≤ stateMax ∧ found.all stateChars.contains then
    some found
  else none

/-! ### The decoded pairs -/

def hexValue (c : ℕ) : Option ℕ :=
  if '0'.toNat ≤ c ∧ c ≤ '9'.toNat then some (c - '0'.toNat)
  else if 'a'.toNat ≤ c ∧ c ≤ 'f'.toNat then some (c - 'a'.toNat + 10)
  else if 'A'.toNat ≤ c ∧ c ≤ 'F'.toNat then some (c - 'A'.toNat + 10)
  else none

/-- `int(pair, 16)` behind a percent sign, where the pair is two hexadecimal digits. -/
def escaped (ch : ℕ) : Text → Option ℕ
  | [h, l] => if ch = percent then do pure (16 * (← hexValue h) + (← hexValue l)) else none
  | _ => none

def decodeLoop (raw : Text) (i : ℕ) (out : List ℕ) : List ℕ :=
  match _ : raw[i]? with
  | none => out
  | some ch =>
      if ch = plus then decodeLoop raw (i + 1) (out ++ [0x20])
      else
        match escaped ch ((raw.drop (i + 1)).take 2) with
        | some byte => decodeLoop raw (i + 3) (out ++ [byte])
        | none => decodeLoop raw (i + 1) (out ++ encodeReplace ch)
termination_by raw.length - i
decreasing_by
  all_goals
    have inside : i < raw.length := (List.getElem?_eq_some_iff.mp ‹_›).1
    omega

def decodeComponent (raw : Text) : Text := decodeReplace (decodeLoop raw 0 [])

def decodedPairs (raw : Text) : List (Text × Text) :=
  (nonEmpty raw).map fun seg => (decodeComponent (keyOf seg), decodeComponent (valueOf seg))

/-! ### Form decoding -/

/-- The bytes of a form-encoded text: a plus is a space, a percent sign with two digits is a byte,
and every other character stands for itself. -/
def formBytes : Text → List ℕ
  | [] => []
  | [c] => if c = plus then [0x20] else encodeReplace c
  | [c, d] => if c = plus then 0x20 :: formBytes [d] else encodeReplace c ++ formBytes [d]
  | c :: h :: l :: rest =>
      if c = plus then 0x20 :: formBytes (h :: l :: rest)
      else
        match escaped c [h, l] with
        | some byte => byte :: formBytes rest
        | none => encodeReplace c ++ formBytes (h :: l :: rest)

def formDecode (raw : Text) : Text := decodeReplace (formBytes raw)

def hexDigit (n : ℕ) : ℕ := if n < 10 then '0'.toNat + n else 'A'.toNat + (n - 10)

def percentByte (b : ℕ) : Text :=
  if stateChars.contains b then [b] else [percent, hexDigit (b / 16), hexDigit (b % 16)]

def percentEncode (t : Text) : Text := (t.flatMap encodePoint).flatMap percentByte

theorem formBytes_cons (c : ℕ) (rest : Text) : formBytes (c :: rest) =
    if c = plus then 0x20 :: formBytes rest
    else match escaped c (rest.take 2) with
      | some byte => byte :: formBytes (rest.drop 2)
      | none => encodeReplace c ++ formBytes rest := by
  match rest with
  | [] => simp [formBytes, escaped]
  | [d] => simp [formBytes, escaped]
  | h :: l :: more => rfl

theorem decodeLoop_eq (raw : Text) (i : ℕ) (out : List ℕ) :
    decodeLoop raw i out = out ++ formBytes (raw.drop i) := by
  fun_induction decodeLoop raw i out with
  | case1 i out none_ =>
    rw [List.drop_eq_nil_iff.mpr (List.getElem?_eq_none_iff.mp none_), formBytes, List.append_nil]
  | case2 i out at_i ih =>
    obtain ⟨inside, same⟩ := List.getElem?_eq_some_iff.mp at_i
    rw [ih, List.drop_eq_getElem_cons inside, formBytes_cons, if_pos same]
    simp
  | case3 i out ch at_i other byte pair ih =>
    obtain ⟨inside, rfl⟩ := List.getElem?_eq_some_iff.mp at_i
    rw [ih, List.drop_eq_getElem_cons inside, formBytes_cons, if_neg other, pair]
    simp
  | case4 i out ch at_i other pair ih =>
    obtain ⟨inside, rfl⟩ := List.getElem?_eq_some_iff.mp at_i
    rw [ih, List.drop_eq_getElem_cons inside, formBytes_cons, if_neg other, pair]
    simp

theorem decodeComponent_eq (raw : Text) : decodeComponent raw = formDecode raw := by
  rw [decodeComponent, decodeLoop_eq, List.nil_append, List.drop_zero, formDecode]

def formPairs (raw : Text) : List (Text × Text) :=
  (nonEmpty raw).map fun seg => (formDecode (keyOf seg), formDecode (valueOf seg))

theorem decodedPairs_eq (raw : Text) : decodedPairs raw = formPairs raw :=
  List.map_congr_left fun seg _ => by rw [decodeComponent_eq, decodeComponent_eq]

/-! ### Percent encoding read back -/

theorem hexValue_hexDigit {n : ℕ} (digit : n < 16) : hexValue (hexDigit n) = some n := by
  revert n
  decide

theorem plain_of_stateChar {c : ℕ} (mem : c ∈ stateChars) :
    c < 0x80 ∧ c ≠ plus ∧ c ≠ percent := by
  revert c
  decide

theorem formBytes_plain {c : ℕ} (mem : c ∈ stateChars) (rest : Text) :
    formBytes (c :: rest) = c :: formBytes rest := by
  obtain ⟨ascii, sum, sign⟩ := plain_of_stateChar mem
  have kept : escaped c (rest.take 2) = none := by
    unfold escaped
    split <;> simp [sign]
  have whole : isSurrogate c = false := by simp [isSurrogate]; omega
  rw [formBytes_cons, if_neg sum, kept]
  simp [encodeReplace, whole, encodePoint, ascii]

theorem formBytes_percentByte {b : ℕ} (byte : b < 0x100) (rest : Text) :
    formBytes (percentByte b ++ rest) = b :: formBytes rest := by
  unfold percentByte
  split
  · next kept => exact formBytes_plain (by simpa using kept) rest
  · have read : escaped percent ((hexDigit (b / 16) :: hexDigit (b % 16) :: rest).take 2) =
        some b := by
      simp only [List.take_succ_cons, List.take_zero, escaped, if_pos,
        hexValue_hexDigit (show b / 16 < 16 by omega),
        hexValue_hexDigit (show b % 16 < 16 by omega)]
      exact congrArg some (Nat.div_add_mod b 16)
    simp only [List.cons_append, List.nil_append]
    rw [formBytes_cons, if_neg (by decide), read]
    rfl

theorem byte_of_encodePoint {c b : ℕ} (scalar : Scalar c) (mem : b ∈ encodePoint c) :
    b < 0x100 := by
  have below := scalar.1
  unfold encodePoint at mem
  split at mem
  · simp at mem; omega
  · split at mem
    · simp at mem; omega
    · split at mem <;> (simp at mem; omega)

theorem formBytes_percentEncode {bytes : List ℕ} (all : ∀ b ∈ bytes, b < 0x100) :
    formBytes (bytes.flatMap percentByte) = bytes := by
  induction bytes with
  | nil => rfl
  | cons b rest ih =>
    obtain ⟨first, more⟩ := List.forall_mem_cons.mp all
    rw [List.flatMap_cons, formBytes_percentByte first, ih more]

theorem formDecode_percentEncode {t : Text} (scalar : ∀ c ∈ t, Scalar c) :
    formDecode (percentEncode t) = t := by
  rw [formDecode, percentEncode, formBytes_percentEncode, decodeReplace_flatMap scalar]
  intro b mem
  obtain ⟨c, in_, spelled⟩ := List.mem_flatMap.mp mem
  exact byte_of_encodePoint (scalar c in_) spelled

theorem formDecode_plain {t : Text} (plain : ∀ c ∈ t, c ∈ stateChars) : formDecode t = t := by
  have scalar : ∀ c ∈ t, Scalar c := by
    intro c mem
    have ascii := (plain_of_stateChar (plain c mem)).1
    exact ⟨by omega, by simp [isSurrogate]; omega⟩
  have same : percentEncode t = t := by
    unfold percentEncode
    clear scalar
    induction t with
    | nil => rfl
    | cons c rest ih =>
      obtain ⟨first, more⟩ := List.forall_mem_cons.mp plain
      have kept : (encodePoint c).flatMap percentByte = [c] := by
        simp [encodePoint, (plain_of_stateChar first).1, percentByte, first]
      rw [List.flatMap_cons, List.flatMap_append, kept, ih more, List.singleton_append]
  rw [← same, formDecode_percentEncode scalar]
  exact same.symm

/-! ### The state that the consumer sees -/

def OnlyState (raw s : Text) : Prop :=
  (decodedPairs raw).filter (·.1 = stateKey) = [(stateKey, s)]

theorem findState_again {v w : Text} {segs : List Text}
    (found : findState (some v) 1 segs = some w) : w = v ∧ ∀ seg ∈ segs, keyOf seg ≠ stateKey := by
  induction segs with
  | nil => exact ⟨(Option.some.inj found).symm, nofun⟩
  | cons seg rest ih =>
    rw [findState] at found
    split at found
    · next other =>
      obtain ⟨same, more⟩ := ih found
      exact ⟨same, List.forall_mem_cons.mpr ⟨other, more⟩⟩
    · cases found

theorem findState_some {w : Text} {segs : List Text} (found : findState none 0 segs = some w) :
    ∃ a seg b, segs = a ++ seg :: b ∧ keyOf seg = stateKey ∧ valueOf seg = w ∧
      ∀ x ∈ a ++ b, keyOf x ≠ stateKey := by
  induction segs with
  | nil => cases found
  | cons seg rest ih =>
    rw [findState] at found
    split at found
    · next other =>
      obtain ⟨a, it, b, rfl, key, value, others⟩ := ih found
      exact ⟨seg :: a, it, b, rfl, key, value, List.forall_mem_cons.mpr ⟨other, others⟩⟩
    · next same =>
      obtain ⟨rfl, others⟩ := findState_again found
      exact ⟨[], seg, rest, rfl, not_not.mp same, rfl, others⟩

theorem extractState_some {raw s : Text} (claimed : extractState raw = some s) :
    findState none 0 (nonEmpty raw) = some s ∧ ∀ c ∈ s, c ∈ stateChars := by
  simp only [extractState, Option.bind_eq_bind, Option.bind_eq_some_iff] at claimed
  obtain ⟨segs, capped, found, loop, checked⟩ := claimed
  have same : segs = nonEmpty raw := by
    simp only [segments] at capped
    split at capped
    · cases capped
    · split at capped
      · cases capped
      · split at capped
        · cases capped
        · exact (Option.some.inj capped).symm
  split at checked
  · next ok =>
    cases checked
    exact ⟨same ▸ loop, by simpa using ok.2.2⟩
  · cases checked

/-- The decoded view is that of form decoding, which percent encoding inverts; and where a state is
claimed, the view names that one alone unless another key decodes to `state`. -/
theorem query_views (raw : Text) :
    decodedPairs raw = formPairs raw ∧
    (∀ t : Text, (∀ c ∈ t, Scalar c) → decodeComponent (percentEncode t) = t) ∧
    ∀ s, extractState raw = some s → (OnlyState raw s ↔
      ∀ seg ∈ nonEmpty raw, formDecode (keyOf seg) = stateKey → keyOf seg = stateKey) := by
  refine ⟨decodedPairs_eq raw, fun t scalar => ?_, fun s claimed => ?_⟩
  · rw [decodeComponent_eq, formDecode_percentEncode scalar]
  obtain ⟨found, plain⟩ := extractState_some claimed
  obtain ⟨a, seg, b, split_, key, value, others⟩ := findState_some found
  have here : formDecode (keyOf seg) = stateKey := by
    rw [key]
    exact formDecode_plain (by decide)
  have claimedPair : (formDecode (keyOf seg), formDecode (valueOf seg)) = (stateKey, s) := by
    rw [here, value, formDecode_plain plain]
  have quiet : ∀ l : List Text, (∀ x ∈ l, keyOf x ≠ stateKey) →
      ((l.map fun seg => (formDecode (keyOf seg), formDecode (valueOf seg))).filter
        (·.1 = stateKey) = [] ↔ ∀ x ∈ l, formDecode (keyOf x) = stateKey → keyOf x = stateKey) := by
    intro l apart
    simp only [List.filter_eq_nil_iff, List.forall_mem_map, decide_eq_true_eq]
    exact forall₂_congr fun x mem => (imp_iff_not (apart x mem)).symm
  rw [List.forall_mem_append] at others
  rw [OnlyState, decodedPairs_eq, formPairs, split_, List.map_append, List.map_cons, claimedPair,
    List.filter_append, List.filter_cons_of_pos (by simp), List.forall_mem_append, List.forall_mem_cons,
    ← quiet a others.1, ← quiet b others.2]
  constructor
  · intro alone
    rcases List.append_eq_singleton_iff.mp alone with ⟨none_, rest⟩ | ⟨-, rest⟩
    · exact ⟨none_, fun _ => key, (List.cons.inj rest).2⟩
    · cases rest
  · rintro ⟨before, -, behind⟩
    rw [before, behind, List.nil_append]

/-- A second state under an escaped key, which the raw reading does not see. -/
theorem escaped_key_names_another :
    let s := text "aaaaaaaaaaaaaaaaaaaaaa"
    let raw := text "state=aaaaaaaaaaaaaaaaaaaaaa&%73tate=b"
    extractState raw = some s ∧ ¬ OnlyState raw s := by
  refine ⟨by decide, fun alone => ?_⟩
  have keys := congrArg List.length alone
  rw [decodedPairs_eq] at keys
  exact absurd keys (by decide)

end Casa.CallbackQuery
