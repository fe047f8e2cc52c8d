import Casa.PluginTriggers

/-! The overlay of routed plugin triggers (`trigger_reconcile.py`). -/

namespace Casa.TriggerReconcile
open AttemptSchema IdentityGrammar KeyedTable PluginTriggers PythonValue

structure ResolvedPlugin (T : Type) where
  name : String
  artifactId : String
  manifest : List (String × Json T)

structure Resolution (T : Type) where
  registryValid : Bool
  plugins : Table (@ResolvedPlugin.name T)
  admitted : ∀ p ∈ plugins.rows, validPluginRef p.name = true

/-- What `ack_identity` hashes. -/
structure Consent where
  plugin : String
  artifactId : String
  effective : String
  target : String
  auth : Auth

/-- What one pass reads: the two kinds of resolution, the channels of each configured role, the
approval generations by consent identity, and whether there is a global secret. -/
structure World (T : Type) where
  all : Resolution T
  resolveFor : String → Resolution T
  channels : String → Option (List String)
  ackIdentity : Consent → String
  acks : String → Option String
  globalSecretOk : Bool

inductive Reason where
  | invalid | channelMissing | unassignedTarget | secretMissing | pendingAck
deriving DecidableEq

structure PluginIssue where
  name : String
  target : Option String
  reason : Reason
  artifactId : Option String

structure Routed where
  effective : String
  plugin : String
  role : String
  clearance : String
  auth : Auth
  identity : String
deriving DecidableEq

structure Pending where
  plugin : String
  artifactId : String
  trigger : Trigger

structure Desired where
  overlay : Table Routed.effective
  issues : List PluginIssue
  pending : List Pending
  observed : List String

/-- `target.partition(":")[2]`. -/
def roleOf (target : String) : String :=
  String.ofList ((target.toList.dropWhile (· ≠ ':')).drop 1)

section Source
variable {T : Type} (w : World T)

def World.assigned (role name : String) : Bool :=
  (w.resolveFor role).registryValid && ((w.resolveFor role).plugins.get? name).isSome

def consentOf (p : ResolvedPlugin T) (t : Trigger) : String :=
  w.ackIdentity ⟨p.name, p.artifactId, t.effective, t.target, t.auth⟩

def gate (p : ResolvedPlugin T) (t : Trigger) : Except Reason Routed :=
  if "webhook" ∉ (w.channels (roleOf t.target)).getD [] then .error .channelMissing
  else if !w.assigned (roleOf t.target) p.name then .error .unassignedTarget
  else if t.auth.mode = .hmacBody ∧ !w.globalSecretOk then .error .secretMissing
  else match w.acks (consentOf w p t) with
    | none => .error .pendingAck
    | some gen => .ok ⟨t.effective, p.name, roleOf t.target, t.clearance, t.auth,
        consentOf w p t ++ "#" ++ gen⟩

def gap (p : ResolvedPlugin T) (t : Trigger) : Option Reason :=
  match gate w p t with
  | .error reason => some reason
  | .ok _ => none

def reconcilePlugin (p : ResolvedPlugin T) : List Routed × List PluginIssue × List Pending :=
  let (triggers, errs) := parseAndValidate p.name p.manifest
  if errs ≠ [] then ([], [⟨p.name, none, .invalid, some p.artifactId⟩], [])
  else
    let entries := triggers.filterMap fun t => (gate w p t).toOption
    let issues := triggers.filterMap fun t => (gap w p t).map fun reason =>
      ⟨p.name, some t.target, reason, some p.artifactId⟩
    let pending := triggers.filter fun t => gap w p t = some .pendingAck
    let nonconsentGap := triggers.any fun t => (gap w p t).any (· ≠ .pendingAck)
    if pending = [] ∧ !nonconsentGap then (entries, issues, [])
    else if !nonconsentGap then ([], issues, pending.map (⟨p.name, p.artifactId, ·⟩))
    else ([], issues, [])

def reconcileOne (out : Desired) (p : ResolvedPlugin T) : Desired :=
  { out with
    overlay := (reconcilePlugin w p).1.foldl .put out.overlay
    issues := out.issues ++ (reconcilePlugin w p).2.1
    pending := out.pending ++ (reconcilePlugin w p).2.2 }

def computeDesired : Desired :=
  if !w.all.registryValid then ⟨.empty, [], [], []⟩
  else w.all.plugins.rows.foldl (reconcileOne w)
    ⟨.empty, [], [], w.all.plugins.rows.map (·.name)⟩

def secretBacked (desired : Desired) : List Routed :=
  desired.overlay.rows.filter fun r => r.auth.mode ≠ .hmacBody

def failClosePlugins (desired : Desired) (plugins : List String) : Desired :=
  { desired with overlay := desired.overlay.filter fun r => decide (r.plugin ∉ plugins) }

/-- `_mint_secrets`, and `verify_minted_secrets`: `got` says for which of the entries there is a
secret. -/
def closeUnbacked (got : Routed → Bool) (desired : Desired) : Desired :=
  let failed := (secretBacked desired).filter (!got ·)
  failClosePlugins { desired with issues := desired.issues ++ failed.map fun r =>
    ⟨r.plugin, some ("resident:" ++ r.role), .secretMissing, none⟩ } (failed.map (·.plugin))

end Source

/-! ### Names -/

theorem head_of_slugForm {cs : List Char} (ok : slugForm cs = true) :
    ∃ c, cs.head? = some c ∧ c ≠ '-' := by
  cases cs with
  | nil => cases ok
  | cons c cs =>
    refine ⟨c, rfl, ?_⟩
    rintro rfl
    exact absurd ok (by simp [slugForm, isLower])

theorem head_of_plugin {s : String} (ok : validPluginRef s = true) :
    ∃ c, s.toList.head? = some c ∧ c ≠ '-' := by
  have forms : ∀ cs, slugForm cs = true ∨ ownedForm cs = true → ∃ c, cs.head? = some c ∧ c ≠ '-' := by
    rintro cs (slug | owned)
    · exact head_of_slugForm slug
    · obtain ⟨slug, name, rfl, ok, -⟩ := (ownedForm_iff cs).mp owned
      obtain ⟨c, head, other⟩ := head_of_slugForm ok
      exact ⟨c, by simp [List.head?_append, head], other⟩
  have shorter : ∀ cs : List Char, (∃ c, cs.dropLast.head? = some c ∧ c ≠ '-') →
      ∃ c, cs.head? = some c ∧ c ≠ '-' := by
    rintro (- | ⟨c, - | ⟨d, cs⟩⟩) ⟨_, head, other⟩
    · cases head
    · cases head
    · exact ⟨_, head, other⟩
  simp only [validPluginRef, matchesLine, Bool.or_eq_true, Bool.and_eq_true] at ok
  rcases ok with (slug | ⟨-, slug⟩) | (owned | ⟨-, owned⟩)
  · exact forms _ (.inl slug)
  · exact shorter _ (forms _ (.inl slug))
  · exact forms _ (.inr owned)
  · exact shorter _ (forms _ (.inr owned))

theorem split_effectiveName {plugin : String} (admitted : validPluginRef plugin = true)
    (single : ¬['-', '-'] <:+: plugin.toList) (trail : plugin.toList.getLast? ≠ some '-')
    (declared : String) : splitDashes (effectiveName plugin declared).toList =
      some ("plg-".toList ++ plugin.toList, declared.toList) := by
  have text : (effectiveName plugin declared).toList =
      ("plg-".toList ++ plugin.toList) ++ '-' :: '-' :: declared.toList := by
    simp [effectiveName]
  rw [text]
  obtain ⟨c, head, other⟩ := head_of_plugin admitted
  obtain ⟨cs, name⟩ : ∃ cs, plugin.toList = c :: cs := List.head?_eq_some_iff.mp head
  rw [name] at single trail ⊢
  apply splitDashes_append
  · simp only [String.reduceToList, List.cons_append, List.nil_append, List.infix_cons_iff]
    simp only [List.infix_cons_iff, not_or] at single
    simp [single, Ne.symm other]
  · simpa [List.getLast?_append] using trail

/-! ### One plugin -/

section Plugin
variable {T : Type} (w : World T) (p : ResolvedPlugin T) (t : Trigger)

structure Ready : Prop where
  webhook : ∃ channels, w.channels (roleOf t.target) = some channels ∧ "webhook" ∈ channels
  assigned : w.assigned (roleOf t.target) p.name = true
  backed : t.auth.mode = .hmacBody → w.globalSecretOk = true

def Acked : Prop := (w.acks (consentOf w p t)).isSome = true

def routeOf : Routed :=
  ⟨t.effective, p.name, roleOf t.target, t.clearance, t.auth,
    consentOf w p t ++ "#" ++ (w.acks (consentOf w p t)).getD ""⟩

theorem gate_cases :
    (¬ Ready w p t ∧ ∃ reason, gate w p t = .error reason ∧ reason ≠ .pendingAck) ∨
      (Ready w p t ∧ ¬ Acked w p t ∧ gate w p t = .error .pendingAck) ∨
      (Ready w p t ∧ Acked w p t ∧ gate w p t = .ok (routeOf w p t)) := by
  unfold gate
  by_cases channel : "webhook" ∈ (w.channels (roleOf t.target)).getD []
  · rw [if_neg (not_not.mpr channel)]
    by_cases assigned : w.assigned (roleOf t.target) p.name = true
    · rw [if_neg (by simp [assigned])]
      by_cases secret : t.auth.mode = .hmacBody → w.globalSecretOk = true
      · rw [if_neg (by simpa using secret)]
        have ready : Ready w p t := by
          refine ⟨?_, assigned, secret⟩
          cases known : w.channels (roleOf t.target) with
          | none => simp [known] at channel
          | some channels => exact ⟨channels, rfl, by simpa [known] using channel⟩
        cases ack : w.acks (consentOf w p t) with
        | none => exact .inr (.inl ⟨ready, by simp [Acked, ack], rfl⟩)
        | some gen => exact .inr (.inr ⟨ready, by simp [Acked, ack], by simp [routeOf, ack]⟩)
      · rw [if_pos (by simpa using secret)]
        exact .inl ⟨fun ready => secret ready.backed, _, rfl, nofun⟩
    · rw [if_pos (by simpa using assigned)]
      exact .inl ⟨fun ready => assigned ready.assigned, _, rfl, nofun⟩
  · rw [if_pos channel]
    refine .inl ⟨fun ready => ?_, _, rfl, nofun⟩
    obtain ⟨channels, known, mem⟩ := ready.webhook
    exact channel (by rwa [known])

def declared : Option (List Trigger) :=
  if (parseAndValidate p.name p.manifest).2 = [] then some (parseAndValidate p.name p.manifest).1
  else none

theorem gap_pending : gap w p t = some .pendingAck ↔ Ready w p t ∧ ¬ Acked w p t := by
  unfold gap
  rcases gate_cases w p t with ⟨off, reason, gate, other⟩ | ⟨ready, unacked, gate⟩ |
    ⟨ready, acked, gate⟩ <;> simp_all

theorem gap_other : (gap w p t).any (· ≠ .pendingAck) = true ↔ ¬ Ready w p t := by
  unfold gap
  rcases gate_cases w p t with ⟨off, reason, gate, other⟩ | ⟨ready, unacked, gate⟩ |
    ⟨ready, acked, gate⟩ <;> simp_all

theorem reconcilePlugin_none (flawed : declared p = none) :
    (reconcilePlugin w p).1 = [] ∧ (reconcilePlugin w p).2.2 = [] := by
  have errs : (parseAndValidate p.name p.manifest).2 ≠ [] := fun fine => by simp [declared, fine] at flawed
  simp [reconcilePlugin, errs]

open Classical in
theorem reconcilePlugin_some {triggers : List Trigger} (sound : declared p = some triggers) :
    (reconcilePlugin w p).1 =
        (if ∀ t ∈ triggers, Ready w p t ∧ Acked w p t then triggers.map (routeOf w p) else []) ∧
      (reconcilePlugin w p).2.2 = if ∀ t ∈ triggers, Ready w p t then
        (triggers.filter (¬ Acked w p ·)).map (⟨p.name, p.artifactId, ·⟩) else [] := by
  obtain ⟨fine, rfl⟩ : (parseAndValidate p.name p.manifest).2 = [] ∧
      (parseAndValidate p.name p.manifest).1 = triggers := by
    unfold declared at sound
    split_ifs at sound with fine
    exact ⟨fine, Option.some.inj sound⟩
  simp only [reconcilePlugin, fine, ne_eq, not_true, if_false]
  generalize (parseAndValidate p.name p.manifest).1 = triggers
  have prompts : triggers.filter (fun t => gap w p t = some .pendingAck) =
      triggers.filter fun t => Ready w p t ∧ ¬ Acked w p t := by
    simp only [gap_pending]
  have other : (triggers.any fun t => (gap w p t).any (· ≠ .pendingAck)) =
      !decide (∀ t ∈ triggers, Ready w p t) := by
    rw [Bool.eq_iff_iff]
    simp only [List.any_eq_true, gap_other]
    simp
  simp only [ne_eq] at other
  rw [prompts, other]
  by_cases ready : ∀ t ∈ triggers, Ready w p t
  · have unacked : triggers.filter (fun t => Ready w p t ∧ ¬ Acked w p t) =
        triggers.filter (¬ Acked w p ·) :=
      List.filter_congr fun t mem => by simp [ready t mem]
    rw [unacked]
    by_cases acked : ∀ t ∈ triggers, Acked w p t
    · have entries : triggers.filterMap (fun t => (gate w p t).toOption) =
          triggers.map (routeOf w p) := by
        rw [← List.filterMap_eq_map]
        refine List.filterMap_congr fun t mem => ?_
        rcases gate_cases w p t with ⟨off, -⟩ | ⟨-, no, -⟩ | ⟨-, -, gate⟩
        · exact absurd (ready t mem) off
        · exact absurd (acked t mem) no
        · rw [gate]
          rfl
      have none_ : triggers.filter (¬ Acked w p ·) = [] := by simpa using acked
      have both : ∀ t ∈ triggers, Ready w p t ∧ Acked w p t := fun t mem =>
        ⟨ready t mem, acked t mem⟩
      rw [if_pos ⟨none_, by simpa using ready⟩, if_pos both, if_pos ready, none_]
      exact ⟨entries, rfl⟩
    · have some_ : triggers.filter (¬ Acked w p ·) ≠ [] := by simpa using acked
      have both : ¬ ∀ t ∈ triggers, Ready w p t ∧ Acked w p t := fun all =>
        acked fun t mem => (all t mem).2
      rw [if_neg fun empty => some_ empty.1, if_pos (by simpa using ready), if_neg both, if_pos ready]
      exact ⟨rfl, rfl⟩
  · have both : ¬ ∀ t ∈ triggers, Ready w p t ∧ Acked w p t := fun all =>
      ready fun t mem => (all t mem).1
    rw [if_neg fun empty => by simp [ready] at empty, if_neg (by simp [ready]), if_neg both,
      if_neg ready]
    exact ⟨rfl, rfl⟩

end Plugin

/-! ### The whole overlay -/

section Overlay
variable {T : Type} {w : World T}

theorem declared_sound {p : ResolvedPlugin T} {triggers : List Trigger}
    (sound : declared p = some triggers) : (∀ t ∈ triggers, t.Sound p.name ∧
      ¬['-', '-'] <:+: p.name.toList ∧ p.name.toList.getLast? ≠ some '-') ∧
        (triggers.map (·.declared)).Nodup := by
  unfold declared at sound
  split_ifs at sound with fine
  exact Option.some.inj sound ▸ parseAndValidate_ok fine

theorem effective_split {p : ResolvedPlugin T} (mem : p ∈ w.all.plugins.rows)
    {triggers : List Trigger} (sound : declared p = some triggers) {t : Trigger}
    (in_ : t ∈ triggers) : splitDashes t.effective.toList =
      some ("plg-".toList ++ p.name.toList, t.declared.toList) := by
  obtain ⟨checked, single, trail⟩ := (declared_sound sound).1 t in_
  rw [checked.effective]
  exact split_effectiveName (w.all.admitted p mem) single trail t.declared

theorem effective_inj {p q : ResolvedPlugin T} (memp : p ∈ w.all.plugins.rows)
    (memq : q ∈ w.all.plugins.rows) {ts us : List Trigger} (soundp : declared p = some ts)
    (soundq : declared q = some us) {t u : Trigger} (int : t ∈ ts) (inu : u ∈ us)
    (same : t.effective = u.effective) : p = q ∧ t = u := by
  have split := effective_split memp soundp int
  rw [same, effective_split memq soundq inu, Option.some.injEq, Prod.mk.injEq] at split
  obtain rfl : p = q := List.inj_on_of_nodup_map w.all.plugins.nodup memp memq
    (String.toList_inj.mp (List.append_cancel_left split.1)).symm
  obtain rfl : ts = us := Option.some.inj (soundp.symm.trans soundq)
  exact ⟨rfl, List.inj_on_of_nodup_map (declared_sound soundp).2 int inu
    (String.toList_inj.mp split.2).symm⟩

theorem mem_entries {p : ResolvedPlugin T} {r : Routed} : r ∈ (reconcilePlugin w p).1 ↔
    ∃ triggers, declared p = some triggers ∧ (∀ t ∈ triggers, Ready w p t ∧ Acked w p t) ∧
      ∃ t ∈ triggers, routeOf w p t = r := by
  classical
  cases sound : declared p with
  | none => simp [(reconcilePlugin_none w p sound).1]
  | some triggers =>
    rw [(reconcilePlugin_some w p sound).1]
    split_ifs with all
    · simp [and_iff_right all]
    · simp [all]

theorem nodup_entries : ((w.all.plugins.rows.flatMap fun p => (reconcilePlugin w p).1).map
    Routed.effective).Nodup := by
  classical
  have names : w.all.plugins.rows.Nodup := w.all.plugins.nodup.of_map _
  rw [List.map_flatMap, List.nodup_flatMap]
  constructor
  · intro p mem
    cases sound : declared p with
    | none => simp [(reconcilePlugin_none w p sound).1]
    | some triggers =>
      rw [(reconcilePlugin_some w p sound).1]
      split_ifs
      · rw [List.map_map]
        exact ((declared_sound sound).2.of_map _).map_on fun t int u inu same =>
          (effective_inj mem mem sound sound int inu same).2
      · exact List.nodup_nil
  · refine names.pairwise_of_forall_ne fun p memp q memq other => ?_
    intro name inp inq
    obtain ⟨_, mem, rfl⟩ := List.mem_map.mp inp
    obtain ⟨_, mem', same⟩ := List.mem_map.mp inq
    obtain ⟨_, soundp, -, t, int, rfl⟩ := mem_entries.mp mem
    obtain ⟨_, soundq, -, u, inu, rfl⟩ := mem_entries.mp mem'
    exact other (effective_inj memp memq soundp soundq int inu same.symm).1

theorem foldl_reconcile (ps : List (ResolvedPlugin T)) (out : Desired)
    (fresh : ((out.overlay.rows ++ ps.flatMap fun p => (reconcilePlugin w p).1).map
      Routed.effective).Nodup) :
    (ps.foldl (reconcileOne w) out).overlay.rows =
        out.overlay.rows ++ (ps.flatMap fun p => (reconcilePlugin w p).1) ∧
      (ps.foldl (reconcileOne w) out).pending =
        out.pending ++ ps.flatMap fun p => (reconcilePlugin w p).2.2 := by
  induction ps generalizing out with
  | nil => simp
  | cons p ps ih =>
    rw [List.flatMap_cons, ← List.append_assoc] at fresh
    have here : ((out.overlay.rows ++ (reconcilePlugin w p).1).map Routed.effective).Nodup := by
      rw [List.map_append] at fresh
      exact (List.nodup_append.mp fresh).1
    have rows := Table.rows_foldl_put here
    have later := ih (reconcileOne w out p) (by rwa [reconcileOne, rows])
    rw [reconcileOne, rows] at later
    rw [List.foldl_cons, List.flatMap_cons, List.flatMap_cons, ← List.append_assoc,
      ← List.append_assoc]
    exact later

theorem computeDesired_eq (valid : w.all.registryValid = true) :
    (computeDesired w).overlay.rows =
        (w.all.plugins.rows.flatMap fun p => (reconcilePlugin w p).1) ∧
      (computeDesired w).pending =
        w.all.plugins.rows.flatMap fun p => (reconcilePlugin w p).2.2 := by
  rw [computeDesired, if_neg (by simp [valid])]
  simpa [Table.empty] using foldl_reconcile w.all.plugins.rows
    ⟨.empty, [], [], w.all.plugins.rows.map (·.name)⟩ nodup_entries

structure Routes (w : World T) (p : ResolvedPlugin T) (triggers : List Trigger) : Prop where
  valid : w.all.registryValid = true
  resolved : p ∈ w.all.plugins.rows
  sound : declared p = some triggers
  open_ : ∀ t ∈ triggers, Ready w p t ∧ Acked w p t

theorem mem_overlay {r : Routed} : r ∈ (computeDesired w).overlay.rows ↔
    ∃ p triggers, Routes w p triggers ∧ ∃ t ∈ triggers, routeOf w p t = r := by
  cases valid : w.all.registryValid with
  | false =>
    rw [computeDesired, if_pos (by simp [valid])]
    refine ⟨nofun, ?_⟩
    rintro ⟨p, triggers, routes, -⟩
    rw [routes.valid] at valid
    cases valid
  | true =>
    rw [(computeDesired_eq valid).1, List.mem_flatMap]
    constructor
    · rintro ⟨p, mem, entry⟩
      obtain ⟨triggers, sound, open_, at_⟩ := mem_entries.mp entry
      exact ⟨p, triggers, ⟨valid, mem, sound, open_⟩, at_⟩
    · rintro ⟨p, triggers, routes, at_⟩
      exact ⟨p, routes.resolved, mem_entries.mpr ⟨triggers, routes.sound, routes.open_, at_⟩⟩

theorem mem_pending {x : Pending} : x ∈ (computeDesired w).pending ↔
    w.all.registryValid = true ∧ ∃ p ∈ w.all.plugins.rows, ∃ triggers, declared p = some triggers ∧
      (∀ t ∈ triggers, Ready w p t) ∧
        ∃ t ∈ triggers, ¬ Acked w p t ∧ x = ⟨p.name, p.artifactId, t⟩ := by
  classical
  cases valid : w.all.registryValid with
  | false => simp [computeDesired, valid]
  | true =>
    rw [(computeDesired_eq valid).2, List.mem_flatMap]
    refine (and_iff_right rfl).symm.trans (and_congr_right fun _ => exists_congr fun p =>
      and_congr_right fun _ => ?_)
    cases sound : declared p with
    | none => simp [(reconcilePlugin_none w p sound).2]
    | some triggers =>
      rw [(reconcilePlugin_some w p sound).2]
      split_ifs with ready
      · constructor
        · intro mem
          obtain ⟨t, kept, rfl⟩ := List.mem_map.mp mem
          obtain ⟨in_, unacked⟩ := List.mem_filter.mp kept
          exact ⟨triggers, rfl, ready, t, in_, by simpa using unacked, rfl⟩
        · rintro ⟨_, same, -, t, in_, unacked, rfl⟩
          cases same
          exact List.mem_map_of_mem (List.mem_filter.mpr ⟨in_, by simpa using unacked⟩)
      · refine ⟨nofun, ?_⟩
        rintro ⟨_, same, all, -⟩
        cases same
        exact absurd all ready

/-- What the pass is to compute, and what is left of it when secrets are missing. -/
structure Exact (w : World T) (out : Desired) : Prop where
  routed : ∀ e r, out.overlay.get? e = some r ↔ ∃ p triggers, Routes w p triggers ∧
    ∃ t ∈ triggers, t.effective = e ∧ routeOf w p t = r
  distinct : ∀ p ∈ w.all.plugins.rows, ∀ q ∈ w.all.plugins.rows, ∀ ts us, declared p = some ts →
    declared q = some us → ∀ t ∈ ts, ∀ u ∈ us, t.effective = u.effective → p = q ∧ t = u
  separated : ∀ p ∈ w.all.plugins.rows, ∀ ts, declared p = some ts → ∀ t ∈ ts,
    splitDashes t.effective.toList = some ("plg-".toList ++ p.name.toList, t.declared.toList)
  words : ∀ p ∈ w.all.plugins.rows, ∀ ts, declared p = some ts → ∀ t ∈ ts,
    nameForm t.declared.toList = true ∧ targetForm t.target.toList = true ∧
      headerForm t.auth.header.toList = true
  prompted : ∀ x, x ∈ out.pending ↔ w.all.registryValid = true ∧ ∃ p ∈ w.all.plugins.rows,
    ∃ triggers, declared p = some triggers ∧ (∀ t ∈ triggers, Ready w p t) ∧
      ∃ t ∈ triggers, ¬ Acked w p t ∧ x = ⟨p.name, p.artifactId, t⟩
  complete : ∀ got, ∀ r ∈ (closeUnbacked got out).overlay.rows, ∃ p triggers,
    Routes w p triggers ∧ r.plugin = p.name ∧
      ∀ t ∈ triggers, routeOf w p t ∈ (closeUnbacked got out).overlay.rows

theorem plain_target {cs : List Char} (ok : targetForm cs = true) : '\n' ∉ cs := by
  simp only [targetForm, Bool.and_eq_true, List.all_eq_true, List.isPrefixOf_iff_prefix] at ok
  obtain ⟨rest, rfl⟩ := ok.1.1
  have tail : ("resident:".toList ++ rest).drop 9 = rest := by simp
  rw [tail] at ok
  rw [List.mem_append, not_or]
  exact ⟨by decide, fun mem => absurd (ok.2 _ mem) (by decide)⟩

theorem plain_header {cs : List Char} (ok : headerForm cs = true) : '\n' ∉ cs := by
  simp only [headerForm, Bool.and_eq_true, List.all_eq_true] at ok
  exact fun mem => absurd (ok.2 _ mem) (by decide)

/-- The pass is exact where no name, target or header ends with a newline, which the `$` of its
expression lets through. -/
theorem exact_iff : Exact w (computeDesired w) ↔ ∀ p ∈ w.all.plugins.rows, ∀ ts,
    declared p = some ts → ∀ t ∈ ts,
      ¬EndsLine t.declared ∧ ¬EndsLine t.target ∧ ¬EndsLine t.auth.header := by
  have words : ∀ (p : ResolvedPlugin T) ts, declared p = some ts → ∀ t ∈ ts, (nameForm t.declared.toList = true ∧
      targetForm t.target.toList = true ∧ headerForm t.auth.header.toList = true ↔
        ¬EndsLine t.declared ∧ ¬EndsLine t.target ∧ ¬EndsLine t.auth.header) := by
    intro p ts sound t mem
    have checked := ((declared_sound sound).1 t mem).1
    exact and_congr (matchesLine_iff checked.declared fun _ => plain_event)
      (and_congr (matchesLine_iff checked.target fun _ => plain_target)
        (matchesLine_iff checked.header fun _ => plain_header))
  constructor
  · exact fun exact_ p mem ts sound t in_ => (words p ts sound t in_).mp (exact_.words p mem ts sound t in_)
  · intro plain
    refine ⟨fun e r => ?_, fun p memp q memq ts us soundp soundq t int u inu =>
      effective_inj memp memq soundp soundq int inu, fun p mem ts sound t => effective_split mem sound,
      fun p mem ts sound t in_ => (words p ts sound t in_).mpr (plain p mem ts sound t in_),
      fun x => mem_pending, fun got r kept => ?_⟩
    · rw [Table.get?_eq_some_iff, mem_overlay]
      constructor
      · rintro ⟨⟨p, triggers, routes, t, in_, rfl⟩, rfl⟩
        exact ⟨p, triggers, routes, t, in_, rfl, rfl⟩
      · rintro ⟨p, triggers, routes, t, in_, rfl, rfl⟩
        exact ⟨⟨p, triggers, routes, t, in_, rfl⟩, rfl⟩
    · obtain ⟨old, stays⟩ := Table.mem_filter.mp kept
      obtain ⟨p, triggers, routes, t, in_, rfl⟩ := mem_overlay.mp old
      exact ⟨p, triggers, routes, rfl, fun u inu =>
        Table.mem_filter.mpr ⟨mem_overlay.mpr ⟨p, triggers, routes, u, inu, rfl⟩, stays⟩⟩

end Overlay

/-! ### A name with a newline -/

def lineManifest : List (String × Json Unit) :=
  [("casa", .obj [("triggers", .arr [.obj [("name", .str "ring\n"), ("type", .str "webhook"),
    ("target", .str "resident:butler"), ("auth", .obj [("mode", .str "static_header")])]])])]

def lineWorld : World Unit where
  all := ⟨true, ⟨[⟨"door", "a1", lineManifest⟩], by decide⟩, by decide⟩
  resolveFor _ := ⟨true, ⟨[⟨"door", "a1", lineManifest⟩], by decide⟩, by decide⟩
  channels _ := some ["webhook"]
  ackIdentity consent := consent.effective
  acks _ := some "1"
  globalSecretOk := true

theorem newline_routed : (computeDesired lineWorld).overlay.rows.map (·.effective) =
      ["plg-door--ring\n"] ∧ ¬ Exact lineWorld (computeDesired lineWorld) := by
  refine ⟨by decide, fun exact_ => ?_⟩
  have words := exact_.words ⟨"door", "a1", lineManifest⟩ List.mem_cons_self _ rfl _
    List.mem_cons_self
  exact absurd words.1 (by decide)

end Casa.TriggerReconcile
