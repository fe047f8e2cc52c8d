import Mathlib.Algebra.GroupWithZero.Nat
import Mathlib.Data.List.Infix
import Mathlib.Data.Nat.Notation

/-! Redaction of structured log extras (`log_redact.py`). The pattern substitutions and the two
expressions for key names are any functions of a text. -/

namespace Casa.LogRedact

abbrev Text := List Char

inductive Value (N : Type) where
  | none
  | number (n : N)
  | text (t : Text)
  | seq (tuple : Bool) (items : List (Value N))
  | dict (fields : List (Text × Value N))

def redacted : Text := ['«', 'r', 'e', 'd', 'a', 'c', 't', 'e', 'd', '»']

def maxRedactDepth : ℕ := 8

/-- The registered secrets, in the order of iteration: `register_secret` takes no shorter ones. -/
structure Secrets where
  order : List Text
  long : ∀ s ∈ order, 8 ≤ s.length
  ascii : ∀ s ∈ order, ∀ c ∈ s, c.toNat < 128
  apart : ∀ s ∈ order, ¬s <:+: redacted

/-- `str.replace`, of a text that is not empty. -/
def replace (old new : Text) : Text → Text
  | [] => []
  | c :: rest =>
      if old <+: c :: rest then new ++ replace old new (rest.drop (old.length - 1))
      else c :: replace old new rest
termination_by t => t.length

section Source
variable (secrets : Secrets) (patterns : Text → Text) (sensitive telemetry : Text → Bool)
  {N : Type}

def redact (text : Text) : Text :=
  secrets.order.foldl (fun text value => replace value redacted text) (patterns text)

def isCount (key : Text) : Value N → Bool
  | .number _ => telemetry key
  | _ => false

mutual

def redactArg (depth : ℕ) : Value N → Value N
  | .none => if maxRedactDepth < depth then .text redacted else .none
  | .number n => if maxRedactDepth < depth then .text redacted else .number n
  | .text t => if maxRedactDepth < depth then .text redacted else .text (redact secrets patterns t)
  | .seq tuple items =>
      if maxRedactDepth < depth then .text redacted else .seq tuple (redactItems (depth + 1) items)
  | .dict fields =>
      if maxRedactDepth < depth then .text redacted else .dict (redactFields (depth + 1) fields)

def redactItems (depth : ℕ) : List (Value N) → List (Value N)
  | [] => []
  | v :: rest => redactArg depth v :: redactItems depth rest

def redactFields (depth : ℕ) : List (Text × Value N) → List (Text × Value N)
  | [] => []
  | (k, v) :: rest =>
      (k, if sensitive k then (if isCount telemetry k v then v else .text redacted)
          else redactArg depth v) :: redactFields depth rest

end

def dictOf : List (Text × Value N) → List (Text × Value N)
  | [] => []
  | (k, v) :: rest => if k ∈ rest.map (·.1) then dictOf rest else (k, v) :: dictOf rest

def redactExtras (extras : List (Text × Value N)) : List (Text × Value N) :=
  dictOf ((redactFields secrets patterns sensitive telemetry 1 extras).map fun field =>
    (redact secrets patterns field.1, field.2))

end Source

/-! ### What is to be left -/

section Views
variable {N : Type}

mutual

def texts : Value N → List Text
  | .text t => [t]
  | .seq _ items => textsItems items
  | .dict fields => textsFields fields
  | _ => []

def textsItems : List (Value N) → List Text
  | [] => []
  | v :: rest => texts v ++ textsItems rest

def textsFields : List (Text × Value N) → List Text
  | [] => []
  | (k, v) :: rest => k :: (texts v ++ textsFields rest)

end

variable (sensitive telemetry : Text → Bool)

mutual

def Masked : Value N → Prop
  | .seq _ items => MaskedItems items
  | .dict fields => MaskedFields fields
  | _ => True

def MaskedItems : List (Value N) → Prop
  | [] => True
  | v :: rest => Masked v ∧ MaskedItems rest

def MaskedFields : List (Text × Value N) → Prop
  | [] => True
  | (k, v) :: rest =>
      (if sensitive k then isCount telemetry k v = true ∨ v = .text redacted else Masked v) ∧
        MaskedFields rest

end

mutual

def innerKeys (depth : ℕ) : Value N → List Text
  | .seq _ items => if maxRedactDepth < depth then [] else innerKeysItems (depth + 1) items
  | .dict fields => if maxRedactDepth < depth then [] else innerKeysFields (depth + 1) fields
  | _ => []

def innerKeysItems (depth : ℕ) : List (Value N) → List Text
  | [] => []
  | v :: rest => innerKeys depth v ++ innerKeysItems depth rest

def innerKeysFields (depth : ℕ) : List (Text × Value N) → List Text
  | [] => []
  | (k, v) :: rest =>
      k :: ((if sensitive k then [] else innerKeys depth v) ++ innerKeysFields depth rest)

end

def Secrets.Clean (secrets : Secrets) (text : Text) : Prop := ∀ s ∈ secrets.order, ¬s <:+: text

end Views

/-! ### Literal replacement -/

section Replace
variable {s w : Text} (ascii : ∀ c ∈ w, c.toNat < 128)
include ascii

theorem prefix_of_replace {t : Text} (pre : w <+: replace s redacted t) : w <+: t := by
  fun_induction replace s redacted t generalizing w with
  | case1 => exact pre
  | case2 c rest old ih =>
    cases w with
    | nil => exact List.nil_prefix
    | cons d w =>
      have first : d = '«' := by simpa using (List.cons_prefix_cons.mp pre).1
      exact absurd (ascii d List.mem_cons_self) (by rw [first]; decide)
  | case3 c rest old ih =>
    cases w with
    | nil => exact List.nil_prefix
    | cons d w =>
      obtain ⟨rfl, inner⟩ := List.cons_prefix_cons.mp pre
      rw [List.forall_mem_cons] at ascii
      exact List.cons_prefix_cons.mpr ⟨rfl, ih ascii.2 inner⟩

theorem infix_of_replace (nonempty : w ≠ []) (apart : ¬w <:+: redacted) {t : Text}
    (inner : w <:+: replace s redacted t) : w <:+: t ∧ w ≠ s := by
  fun_induction replace s redacted t with
  | case1 => exact absurd (List.infix_nil.mp inner) nonempty
  | case2 c rest old ih =>
    rcases List.infix_append_iff_ne_nil.mp inner with marker | later | ⟨x, y, nonx, -, rfl, suff, -⟩
    · exact absurd marker apart
    · obtain ⟨there, other⟩ := ih later
      exact ⟨(there.trans (List.drop_suffix _ _).isInfix).trans (List.suffix_cons c rest).isInfix, other⟩
    · obtain ⟨before, same⟩ := suff
      have last := congrArg List.getLast? same
      rw [List.getLast?_append_of_ne_nil _ nonx] at last
      have mem : '»' ∈ x := List.mem_of_getLast? (last.trans (by decide))
      exact absurd (ascii '»' (List.mem_append_left _ mem)) (by decide)
  | case3 c rest old ih =>
    rcases List.infix_cons_iff.mp inner with pre | later
    · have there : w <+: c :: rest := by
        refine prefix_of_replace (s := s) ascii ?_
        rwa [replace, if_neg old]
      exact ⟨there.isInfix, fun same => old (same ▸ there)⟩
    · obtain ⟨there, other⟩ := ih later
      exact ⟨there.trans (List.suffix_cons c rest).isInfix, other⟩

end Replace

theorem clean_redact (secrets : Secrets) (patterns : Text → Text) (t : Text) :
    secrets.Clean (redact secrets patterns t) := by
  have pass : ∀ order : List Text, (∀ s ∈ order, s ∈ secrets.order) → ∀ text w, w ∈ secrets.order →
      w <:+: order.foldl (fun text value => replace value redacted text) text →
        w <:+: text ∧ w ∉ order := by
    intro order sub
    induction order with
    | nil => exact fun text w _ inner => ⟨inner, by simp⟩
    | cons s order ih =>
      rw [List.forall_mem_cons] at sub
      intro text w mem inner
      obtain ⟨later, away⟩ := ih sub.2 _ w mem inner
      have nonempty : w ≠ [] := by
        rintro rfl
        exact absurd (secrets.long _ mem) (by decide)
      obtain ⟨there, other⟩ :=
        infix_of_replace (secrets.ascii w mem) nonempty (secrets.apart w mem) later
      exact ⟨there, by simp [other, away]⟩
  exact fun s mem inner => (pass secrets.order (fun _ => id) _ s mem inner).2 mem

/-! ### The walk -/

section Walk
variable (secrets : Secrets) (patterns : Text → Text) (sensitive telemetry : Text → Bool)
  {N : Type}

/-- What a redaction shows is a key of an inner dict or has been redacted, and each of these keys
is shown. -/
structure Walked (keys shown : List Text) (masked : Prop) : Prop where
  clean : ∀ t ∈ shown, t ∈ keys ∨ secrets.Clean t
  kept : ∀ k ∈ keys, k ∈ shown
  masked : masked

namespace Walked
variable {secrets} {ks ls ts us : List Text} {m n : Prop}

theorem nil : Walked secrets [] [] True := ⟨nofun, nofun, trivial⟩

theorem text {t : Text} (clean : secrets.Clean t) : Walked secrets [] [t] True :=
  ⟨fun _ mem => .inr (List.mem_singleton.mp mem ▸ clean), nofun, trivial⟩

theorem append (first : Walked secrets ks ts m) (second : Walked secrets ls us n) :
    Walked secrets (ks ++ ls) (ts ++ us) (m ∧ n) := by
  refine ⟨fun t mem => ?_, fun k mem => ?_, first.masked, second.masked⟩
  · rcases List.mem_append.mp mem with here | later
    · exact (first.clean t here).imp_left (List.mem_append_left _)
    · exact (second.clean t later).imp_left (List.mem_append_right _)
  · rcases List.mem_append.mp mem with here | later
    · exact List.mem_append_left _ (first.kept k here)
    · exact List.mem_append_right _ (second.kept k later)

theorem key (rest : Walked secrets ks ts m) (k : Text) : Walked secrets (k :: ks) (k :: ts) m := by
  refine ⟨fun t mem => ?_, fun t mem => ?_, rest.masked⟩
  · rcases List.mem_cons.mp mem with rfl | later
    · exact .inl List.mem_cons_self
    · exact (rest.clean t later).imp_left (List.mem_cons_of_mem k)
  · rcases List.mem_cons.mp mem with rfl | later
    · exact List.mem_cons_self
    · exact List.mem_cons_of_mem k (rest.kept t later)

end Walked

/-- What `_redact_arg` puts under a key. -/
def entryOf (depth : ℕ) (k : Text) (v : Value N) : Value N :=
  if sensitive k then (if isCount telemetry k v then v else .text redacted)
  else redactArg secrets patterns sensitive telemetry depth v

theorem walkEntry {depth : ℕ} {k : Text} {v : Value N}
    (walked : Walked secrets (innerKeys sensitive depth v)
      (texts (redactArg secrets patterns sensitive telemetry depth v))
      (Masked sensitive telemetry (redactArg secrets patterns sensitive telemetry depth v))) :
    Walked secrets (if sensitive k then [] else innerKeys sensitive depth v)
      (texts (entryOf secrets patterns sensitive telemetry depth k v))
      (if sensitive k then
        isCount telemetry k (entryOf secrets patterns sensitive telemetry depth k v) = true ∨
          entryOf secrets patterns sensitive telemetry depth k v = .text redacted
      else Masked sensitive telemetry (entryOf secrets patterns sensitive telemetry depth k v)) := by
  unfold entryOf
  cases named : sensitive k with
  | false => exact walked
  | true =>
    cases count : isCount telemetry k v with
    | false => exact ⟨(Walked.text secrets.apart).clean, nofun, .inr rfl⟩
    | true =>
      cases v with
      | number n => exact ⟨nofun, nofun, .inl count⟩
      | _ => cases count

mutual

theorem walk (depth : ℕ) (v : Value N) :
    Walked secrets (innerKeys sensitive depth v)
      (texts (redactArg secrets patterns sensitive telemetry depth v))
      (Masked sensitive telemetry (redactArg secrets patterns sensitive telemetry depth v)) := by
  have deep : Walked secrets [] (texts (.text redacted : Value N)) True := .text secrets.apart
  match v with
  | .none =>
    unfold redactArg
    split
    · exact deep
    · exact .nil
  | .number n =>
    unfold redactArg
    split
    · exact deep
    · exact .nil
  | .text t =>
    unfold redactArg
    split
    · exact deep
    · exact .text (clean_redact secrets patterns t)
  | .seq tuple items =>
    unfold redactArg innerKeys
    split
    · exact deep
    · exact walkItems (depth + 1) items
  | .dict fields =>
    unfold redactArg innerKeys
    split
    · exact deep
    · exact walkFields (depth + 1) fields

theorem walkItems (depth : ℕ) (items : List (Value N)) :
    Walked secrets (innerKeysItems sensitive depth items)
      (textsItems (redactItems secrets patterns sensitive telemetry depth items))
      (MaskedItems sensitive telemetry
        (redactItems secrets patterns sensitive telemetry depth items)) := by
  match items with
  | [] => exact .nil
  | v :: rest => exact (walk depth v).append (walkItems depth rest)

theorem walkFields (depth : ℕ) (fields : List (Text × Value N)) :
    Walked secrets (innerKeysFields sensitive depth fields)
      (textsFields (redactFields secrets patterns sensitive telemetry depth fields))
      (MaskedFields sensitive telemetry
        (redactFields secrets patterns sensitive telemetry depth fields)) := by
  match fields with
  | [] => exact .nil
  | (k, v) :: rest =>
    exact ((walkEntry secrets patterns sensitive telemetry (walk depth v)).append
      (walkFields depth rest)).key k

end

def surviving : List (Text × Value N) → List (Text × Value N)
  | [] => []
  | (k, v) :: rest =>
      if redact secrets patterns k ∈ rest.map fun field => redact secrets patterns field.1 then
        surviving rest
      else (k, v) :: surviving rest

theorem redactFields_keys (depth : ℕ) (fields : List (Text × Value N)) :
    (redactFields secrets patterns sensitive telemetry depth fields).map (·.1) =
      fields.map (·.1) := by
  induction fields with
  | nil => rfl
  | cons field rest ih => rw [redactFields, List.map_cons, List.map_cons, ih]

theorem redactExtras_eq (extras : List (Text × Value N)) :
    redactExtras secrets patterns sensitive telemetry extras =
      (redactFields secrets patterns sensitive telemetry 1
        (surviving secrets patterns extras)).map fun field =>
          (redact secrets patterns field.1, field.2) := by
  unfold redactExtras
  induction extras with
  | nil => rfl
  | cons field rest ih =>
    obtain ⟨k, v⟩ := field
    have keys : ((redactFields secrets patterns sensitive telemetry 1 rest).map fun field =>
        (redact secrets patterns field.1, field.2)).map (·.1) =
          rest.map fun field => redact secrets patterns field.1 := by
      have same := congrArg (List.map (redact secrets patterns))
        (redactFields_keys secrets patterns sensitive telemetry 1 rest)
      simpa [Function.comp_def] using same
    rw [redactFields, List.map_cons, dictOf, keys, surviving]
    by_cases again : redact secrets patterns k ∈
        rest.map fun field => redact secrets patterns field.1
    · rw [if_pos again, if_pos again]
      exact ih
    · rw [if_neg again, if_neg again, redactFields, List.map_cons, ih]

/-- No secret is left in the extras, every credential is masked, and a text is clean after two
redactions. -/
structure Sealed (extras : List (Text × Value N)) : Prop where
  clean : ∀ t ∈ textsFields (redactExtras secrets patterns sensitive telemetry extras),
    secrets.Clean t
  masked : MaskedFields sensitive telemetry
    (redactFields secrets patterns sensitive telemetry 1 extras)
  twice : ∀ t, secrets.Clean (redact secrets patterns (redact secrets patterns t))

/-- Extras are sealed exactly where no key of an inner dict that the walk reaches has a secret in
it: only the outermost keys are redacted. -/
theorem sealed_iff (extras : List (Text × Value N)) :
    Sealed secrets patterns sensitive telemetry extras ↔
      ∀ field ∈ surviving secrets patterns extras, sensitive field.1 = false →
        ∀ k ∈ innerKeys sensitive 1 field.2, secrets.Clean k := by
  have renamed : ∀ fields : List (Text × Value N),
      (∀ t ∈ textsFields ((redactFields secrets patterns sensitive telemetry 1 fields).map
          fun field => (redact secrets patterns field.1, field.2)), secrets.Clean t) ↔
        ∀ field ∈ fields, sensitive field.1 = false →
          ∀ k ∈ innerKeys sensitive 1 field.2, secrets.Clean k := by
    intro fields
    induction fields with
    | nil => exact ⟨nofun, nofun⟩
    | cons field rest ih =>
      obtain ⟨k, v⟩ := field
      rw [List.forall_mem_cons, ← ih, redactFields, List.map_cons, textsFields,
        List.forall_mem_cons, and_iff_right (clean_redact secrets patterns k),
        List.forall_mem_append]
      refine and_congr_left fun _ => ?_
      have walked := walkEntry secrets patterns sensitive telemetry
        (k := k) (walk secrets patterns sensitive telemetry 1 v)
      constructor
      · intro clean plain t mem
        exact clean t (walked.kept t (by rwa [plain]))
      · intro clean t mem
        refine (walked.clean t mem).elim (fun inner => ?_) id
        cases plain : sensitive k with
        | false => exact clean plain t (by rwa [plain] at inner)
        | true =>
          rw [plain] at inner
          cases inner
  rw [← renamed, ← redactExtras_eq secrets patterns sensitive telemetry]
  exact ⟨Sealed.clean, fun clean => ⟨clean, (walkFields secrets patterns sensitive telemetry 1
    extras).masked, fun t => clean_redact secrets patterns _⟩⟩

end Walk

/-- A secret that is the key of a dict inside the extras. -/
theorem inner_key_leaks : ¬ Sealed (N := ℕ)
    ⟨["hunter2024".toList], by simp, by simp, by decide⟩ id (fun _ => false) (fun _ => false)
    [("seen".toList, .dict [("hunter2024".toList, .number 1)])] := by
  intro sealed_
  refine sealed_.clean "hunter2024".toList ?_ _ List.mem_cons_self (List.infix_refl _)
  simp [redactExtras, redactFields, redactArg, dictOf, textsFields, texts, maxRedactDepth]

end Casa.LogRedact
