import Casa.CallbackLicence

/-! One specification for each function of the spool: what it needs to be licensed, and what
is known when it returns. -/

namespace Casa.CallbackSpecs
open CallbackAttempts OperationTree CallbackSpool CallbackPasses CallbackHost CallbackLicence

variable {H T M α β : Type} {P : Cell T M → Prop} {c₀ : Cell T M}

section Reading

section
variable (stable : Lasts H T M P)
include stable

theorem spec_look {Q : Cell T M → Cell T M → Prop}
    (kept : ∀ seen, Lasts H T M (Q seen)) (h : ∀ c, Wf c → P c → Q c c) : Yields H T M P look Q :=
  spec_ask (S := cellSig T M) stable kept fun c wf held => ⟨trivial, fun _ => h c wf held⟩

theorem spec_readIf {opened : Bool} {f : Cell T M → Option β} {Q : Option β → Cell T M → Prop}
    (kept : ∀ r, Lasts H T M (Q r)) (missing : ∀ c, Wf c → P c → Q none c)
    (h : ∀ c, Wf c → P c → Q (f c) c) :
    Yields H T M P (readIf opened f) Q := by
  cases opened with
  | false => exact spec_pure (kept none) missing
  | true =>
    refine (spec_look (Q := fun seen c => Q (f seen) c) stable (fun _ => kept _) h).bind ?_
    exact fun seen => spec_pure (kept _) fun c _ held => held

theorem spec_probeAt {opened : Bool} {f : Cell T M → Bool} {Q : Option Bool → Cell T M → Prop}
    (kept : ∀ r, Lasts H T M (Q r)) (unknown : ∀ c, Wf c → P c → Q none c)
    (h : ∀ c, Wf c → P c → Q (some (f c)) c) :
    Yields H T M P (probeAt opened f) Q := by
  cases opened with
  | false => exact spec_pure (kept none) unknown
  | true =>
    have asked : Yields H T M P probe
        (fun seen c => Q (seen.map f) c) := by
      refine spec_ask (S := cellSig T M) stable (fun _ => kept _) fun c wf held =>
        ⟨trivial, fun i => ?_⟩
      change Q ((if i.ok then some c else none).map f) c
      split
      · exact h c wf held
      · exact unknown c wf held
    refine asked.bind fun seen => ?_
    cases seen with
    | none => exact spec_pure (kept none) fun c _ held => held
    | some c => exact spec_pure (kept _) fun c _ held => held

theorem spec_collectPresent {dirs : Dirs} : Yields H T M P (collectPresent dirs)
      (fun b c => P c ∧ (b = true → c.held ≠ [])) := by
  have kept : ∀ b : Bool, Lasts H T M
      (fun c => P c ∧ (b = true → c.held ≠ [])) :=
    fun b => stable.and (.imp fun _ => stable_held)
  rw [collectPresent]
  split
  · have asked : Yields H T M P listHeld
        (fun held c => P c ∧ ((!held.isEmpty) = true → c.held ≠ [])) := by
      refine spec_ask (S := cellSig T M) stable (fun _ => kept _) fun c wf held =>
        ⟨trivial, fun i => ⟨held, ?_⟩⟩
      change (!(if i.ok then c.held else []).isEmpty) = true → c.held ≠ []
      split <;> simp
    exact asked.bind fun held => spec_pure (kept _) fun c _ post => post
  · exact spec_pure (kept false) fun c _ held => ⟨held, nofun⟩

theorem spec_flowArtifactsLive {dirs : Dirs} :
    Yields H T M P (flowArtifactsLive dirs) (fun b c => P c ∧ (b = true → c.Live)) := by
  have kept : ∀ b : Bool, Lasts H T M (fun c => P c ∧ (b = true → c.Live)) :=
    fun b => stable.and (.imp fun _ => stable_live)
  have stop : Yields H T M (fun c => P c ∧ c.Live) (pure true : CellProg T M Bool)
      (fun b c => P c ∧ (b = true → c.Live)) :=
    spec_pure (kept true) fun c _ held => ⟨held.1, fun _ => held.2⟩
  -- every source is read in turn, and the first that is there ends it
  have source : ∀ {γ : Type} (opened : Bool) (f : Cell T M → Option γ),
      (∀ c, (f c).isSome = true → c.Live) →
      Yields H T M P (readIf opened f)
        (fun r c => P c ∧ (r.isSome = true → c.Live)) :=
    fun opened f live => spec_readIf stable (fun _ => kept _) (fun c _ held => ⟨held, nofun⟩)
      fun c _ held => ⟨held, live c⟩
  refine (source _ _ fun c there => .inl (Option.isSome_iff_ne_none.mp there)).bind fun r => ?_
  split
  · next there => exact stop.pre fun c _ held => ⟨held.1, held.2 there⟩
  refine ((source _ _ fun c there => .inr (.inl (Option.isSome_iff_ne_none.mp there))).pre
    fun c _ held => held.1).bind fun r => ?_
  split
  · next there => exact stop.pre fun c _ held => ⟨held.1, held.2 there⟩
  refine ((source _ _ fun c there => .inr (.inr (.inl (Option.isSome_iff_ne_none.mp there)))).pre
    fun c _ held => held.1).bind fun r => ?_
  split
  · next there => exact stop.pre fun c _ held => ⟨held.1, held.2 there⟩
  refine ((spec_collectPresent stable).pre fun c _ held => held.1).post fun b c _ held => ?_
  exact ⟨held.1, fun yes => .inr (.inr (.inr (held.2 yes)))⟩

end

end Reading

section Writing

theorem spec_writeAttempt {site : Site} {a : Attempt T M} {strict : Bool}
    {Q : Cell T M → Prop} (stable : Lasts H T M P)
    (kept : Lasts H T M Q) (licence : ∀ c, Wf c → P c → Active c ∧ WriteLicence a c site)
    (other : site ≠ .accepted) (landed : ∀ c, P c → Q (c.write site a)) :
    Yields H T M P (writeAttempt site a strict)
      (fun b c => (b = true → Snapshot a c) ∧ ((b = true ∨ strict = true) ∧ Q c ∨ P c)) := by
  have after : ∀ b : Bool, Lasts H T M
      (fun c => (b = true → Snapshot a c) ∧ ((b = true ∨ strict = true) ∧ Q c ∨ P c)) :=
    fun b => (Stable.imp fun _ => stable_snapshot a).and (((stable_const _).and kept).or stable)
  have wrote : Yields H T M P (replace site a)
      (fun b c => (b = true ∧ Snapshot a c ∧ Q c) ∨ (b = false ∧ P c)) := by
    refine spec_ask (S := cellSig T M) stable (fun b => ?_) fun c wf held =>
      ⟨licence c wf held, fun i => ?_⟩
    · exact ((stable_const _).and ((stable_snapshot a).and kept)).or ((stable_const _).and stable)
    · simp only [runCell, if_neg other]
      cases i.ok with
      | true => exact .inl ⟨rfl, ⟨.inl rfl, rfl⟩, landed c held⟩
      | false => exact .inr ⟨rfl, held⟩
  refine wrote.bind fun b => ?_
  split
  · next both =>
    rw [Bool.and_eq_true] at both
    refine spec_ask (S := cellSig T M) ?_ after fun c wf held => ⟨trivial, fun i => ?_⟩
    · exact ((stable_const _).and ((stable_snapshot a).and kept)).or ((stable_const _).and stable)
    · rcases held with ⟨-, snap, post⟩ | ⟨no, -⟩
      · exact ⟨fun _ => snap, .inl ⟨.inr both.2, post⟩⟩
      · rw [no] at both; cases both.1
  · refine spec_pure (after b) fun c _ held => ?_
    rcases held with ⟨yes, snap, post⟩ | ⟨no, same⟩
    · exact ⟨fun _ => snap, .inl ⟨.inl yes, post⟩⟩
    · exact ⟨fun yes => absurd (no.symm.trans yes) Bool.false_ne_true, .inr same⟩

theorem write_kin {site : Site} {a : Attempt T M} {c : Cell T M} (kin : Kin c₀ c) :
    Kin c₀ (c.write site a) := kin

theorem carry_anew {a : Attempt T M} (h : Anew a) (prior : Option (AttemptFile T M)) :
    Anew (carry a prior) := by
  rcases prior with _ | (_ | p) <;> exact h

def Derived (x : Origin × Attempt T M) (c : Cell T M) : Prop :=
  match x.1 with
  | .record => Snapshot x.2 c
  | .artifacts => Anew x.2

theorem stable_derived (x : Origin × Attempt T M) : Lasts H T M (Derived x) := by
  obtain ⟨origin, a⟩ := x
  cases origin with
  | record => exact stable_snapshot a
  | artifacts => exact stable_const _

end Writing

section Derivation
variable [Add T] [NatCast T]

theorem newAttempt_anew {mintedTs : Option T} {status : Status} {metaInfo : Option M}
    {claimed : Bool} {now : T} (open_ : status.isDone = false) :
    Anew (newAttempt mintedTs status metaInfo claimed now) :=
  ⟨rfl, open_⟩

theorem spec_deriveFromArtifacts {dirs : Dirs} {now : T} (stable : Lasts H T M P) :
    Yields H T M P (deriveFromArtifacts dirs now) (fun a c => P c ∧ Anew a) := by
  have kept : ∀ a : Attempt T M, Lasts H T M (fun c => P c ∧ Anew a) :=
    fun a => stable.and (stable_const _)
  have quiet : ∀ {γ : Type} (opened : Bool) (f : Cell T M → Option γ),
      Yields H T M P (readIf opened f) (fun _ c => P c) :=
    fun opened f => spec_readIf stable (fun _ => stable) (fun c _ held => held)
      fun c _ held => held
  have sourced : Yields H T M P (mintSource dirs) (fun _ c => P c) := by
    refine (quiet _ _).bind fun pend => ?_
    cases pend with
    | some m => exact spec_pure stable fun c _ held => held
    | none => exact quiet _ _
  refine sourced.bind fun source => (quiet _ _).bind fun result => ?_
  refine (quiet _ _).bind fun transport => ?_
  refine (spec_collectPresent stable).bind fun held => ?_
  have open_ : (if result.isSome || held then Status.resultReady else .awaitingRedirect).isDone =
      false := by
    split <;> rfl
  cases source with
  | some m => exact spec_pure (kept _) fun c _ post => ⟨post.1, newAttempt_anew open_⟩
  | none => exact spec_pure (kept _) fun c _ post => ⟨post.1, newAttempt_anew open_⟩

theorem spec_deriveAttempt {dirs : Dirs} {now : T} (stable : Lasts H T M P) :
    Yields H T M P (deriveAttempt dirs now) (fun x c => P c ∧ Derived x c) := by
  refine (spec_look (Q := fun seen c => P c ∧
      ∀ a, seen.attempt = some (.record a) → Snapshot a c) stable ?_ ?_).bind fun seen => ?_
  · exact fun seen => stable.and fun s t wf moved held a present =>
      stable_snapshot (H := H) a s t wf moved (held a present)
  · exact fun c wf held => ⟨held, fun a present => ⟨.inl present, wf.spent a present⟩⟩
  · split
    · next a present =>
      refine spec_pure (stable.and (stable_derived _)) fun c _ held => ⟨held.1, held.2 a present⟩
    · refine ((spec_deriveFromArtifacts stable).pre fun c _ held => held.1).bind fun a => ?_
      exact spec_pure (stable.and (stable_derived _)) fun c _ held => held

theorem spec_writeAhead {outcome : Outcome} {dirs : Dirs} {now : T} {claimed : Option Bool}
    (other : outcome ≠ .collected) :
    Yields H T M (fun c => Kin c₀ c ∧ Active c) (writeAhead outcome dirs now claimed)
      (fun b c => Kin c₀ c ∧ (b = true → Settled c)) := by
  have pre : Lasts H T M (fun c => Kin c₀ c ∧ Active c) :=
    (stable_kin c₀).and stable_active
  refine (spec_deriveAttempt pre).bind fun x => ?_
  refine (spec_writeAttempt (Q := Kin c₀) (pre.and (stable_derived x))
    (stable_kin c₀) (fun c wf held => ⟨held.1.2, ?_⟩) (by simp)
    fun c held => write_kin held.1.1).post ?_
  · obtain ⟨origin, a⟩ := x
    have status := terminalize_status a outcome now claimed
    cases origin with
    | record => exact ⟨(terminalize_nudges ..).trans held.2.2, outcome, other, status⟩
    | artifacts => exact ⟨(terminalize_nudges ..).trans held.2.1, outcome, other, status⟩
  · rintro b c wf ⟨snap, held⟩
    refine ⟨held.elim (·.2) (·.1.1), fun yes => ?_⟩
    rcases (snap yes).1 with present | ⟨-, acked⟩
    · exact .inl ⟨_, present, by rw [terminalize_status]; rfl⟩
    · exact .inr acked

theorem spec_rewriteFromArtifacts {dirs : Dirs} {now : T}
    (stable : Lasts H T M P) :
    Yields H T M (fun c => Kin c₀ c ∧ c.Live ∧ P c) (rewriteFromArtifacts dirs now)
      (fun r c => Kin c₀ c ∧ (r = none → P c) ∧ ∀ a, r = some a → Snapshot a c) := by
  have pre : Lasts H T M (fun c => Kin c₀ c ∧ c.Live ∧ P c) :=
    (stable_kin c₀).and (stable_live.and stable)
  have kept : ∀ r : Option (Attempt T M), Lasts H T M
      (fun c => Kin c₀ c ∧ (r = none → P c) ∧ ∀ a, r = some a → Snapshot a c) :=
    fun r => (stable_kin c₀).and ((Stable.imp fun _ => stable).and fun s t wf moved held a same =>
      stable_snapshot (H := H) a s t wf moved (held a same))
  refine (spec_deriveFromArtifacts pre).bind fun a => ?_
  refine (spec_look (Q := fun _ c => (Kin c₀ c ∧ c.Live ∧ P c) ∧ Anew a)
    (pre.and (stable_const _)) (fun _ => pre.and (stable_const _)) fun c _ held => held).bind
    fun seen => ?_
  refine (spec_writeAttempt (Q := Kin c₀) (pre.and (stable_const _)) (stable_kin c₀) ?_ (by simp)
    fun c held => write_kin held.1.1).bind fun b => ?_
  · exact fun c wf held => ⟨wf.active_of_live held.1.2.1, held.1.2.1, carry_anew held.2 _⟩
  · cases b with
    | true =>
      refine spec_pure (kept _) fun c _ held => ⟨held.2.elim (·.2) (·.1.1), nofun, ?_⟩
      rintro fresh ⟨⟩
      exact held.1 rfl
    | false =>
      refine spec_pure (kept _) fun c _ held => ?_
      rcases held.2 with ⟨impossible, -⟩ | same
      · simp at impossible
      · exact ⟨same.1.1, fun _ => same.1.2.2, fun _ h => by cases h⟩

theorem spec_repairAfterLostDeletion {dirs : Dirs} {now : T} :
    Yields H T M (Kin c₀) (repairAfterLostDeletion dirs now) (fun _ c => Kin c₀ c) := by
  have rewrite : Yields H T M (fun c => Kin c₀ c ∧ c.Live)
      (do let _ ← rewriteFromArtifacts dirs now; pure ⟨⟩ : CellProg T M PUnit)
      (fun _ c => Kin c₀ c) := by
    refine ((spec_rewriteFromArtifacts (P := fun _ => True) (stable_const _)).pre
      fun c _ held => ⟨held.1, held.2, trivial⟩).bind fun r => ?_
    exact spec_pure (stable_kin c₀) fun c _ held => held.1
  refine (spec_probeAt (Q := fun r c => Kin c₀ c ∧ (r = some true → c.Live)) (stable_kin c₀)
    (fun r => (stable_kin c₀).and (.imp fun _ => stable_live)) (fun c _ held => ⟨held, nofun⟩)
    fun c _ held => ⟨held, fun there => ?_⟩).bind fun r => ?_
  · exact .inr (.inr (.inl (Option.isSome_iff_ne_none.mp (Option.some.inj there))))
  · rcases r with _ | _ | _
    · exact spec_pure (stable_kin c₀) fun c _ held => held.1
    · refine ((spec_collectPresent (stable_kin c₀)).pre fun c _ held => held.1).bind fun b => ?_
      split
      · next yes => exact rewrite.pre fun c _ held => ⟨held.1, .inr (.inr (.inr (held.2 yes)))⟩
      · exact spec_pure (stable_kin c₀) fun c _ held => held.1
    · exact rewrite.pre fun c _ held => ⟨held.1, held.2 rfl⟩

end Derivation

section Deleting

theorem spec_unlink {slot : Slot} {Q : Bool → Cell T M → Prop}
    (stable : Lasts H T M P) (kept : ∀ b, Lasts H T M (Q b))
    (licence : ∀ c, Wf c → P c → UnlinkLicence c slot)
    (gone : ∀ c, Wf c → P c → Q true (c.drop slot)) (stays : ∀ c, Wf c → P c → Q false c) :
    Yields H T M P (unlink slot) Q := by
  refine spec_ask (S := cellSig T M) stable kept fun c wf held =>
    ⟨licence c wf held, fun i => ?_⟩
  simp only [runCell]
  split
  · exact gone c wf held
  · exact stays c wf held

theorem drop_kin {slot : Slot} {c : Cell T M} (other : slot ≠ .token) (kin : Kin c₀ c) :
    Kin c₀ (c.drop slot) := by
  cases slot with
  | token => exact absurd rfl other
  | _ => exact kin

theorem spec_unlink_kin {slot : Slot} (stable : Lasts H T M P)
    (other : slot ≠ .token) (licence : ∀ c, Wf c → P c → UnlinkLicence c slot)
    (kin : ∀ c, P c → Kin c₀ c) :
    Yields H T M P (unlink slot) (fun _ c => Kin c₀ c) :=
  spec_unlink stable (fun _ => stable_kin c₀) licence
    (fun c _ held => drop_kin other (kin c held)) fun c _ held => kin c held

theorem spec_unlink_done {slot : Slot} (stable : Lasts H T M P)
    (other : slot ≠ .token) (licence : ∀ c, Wf c → P c → UnlinkLicence c slot)
    (kin : ∀ c, P c → Kin c₀ c) :
    Yields H T M P (do let _ ← unlink slot; pure ⟨⟩ : CellProg T M PUnit)
      (fun _ c => Kin c₀ c) :=
  (spec_unlink_kin stable other licence kin).bind fun _ =>
    spec_pure (stable_kin c₀) fun _ _ held => held

end Deleting

section Handler

def Rest (c : Cell T M) : Prop := c.phase ≠ .taking ∧ c.phase ≠ .landed

theorem stable_rest : Lasts H T M Rest :=
  stable_phase fun phase => phase ≠ .taking ∧ phase ≠ .landed

theorem active_of_held {c : Cell T M} (wf : Wf c) (held : c.phase = .held) : Active c :=
  wf.active_of_live (.inr (.inl (wf.claimed (.inr held))))

theorem spec_leave {recorded : Bool} (stable : Lasts H T M P)
    (settled : ∀ c, P c → recorded = true → Settled c) :
    Yields H T M P (leave recorded) (fun _ c => Rest c) := by
  refine spec_ask (S := cellSig T M) stable (fun _ => stable_rest) fun c _ held =>
    ⟨settled c held, fun i => ?_⟩
  change Rest { c with phase := if recorded then .recorded else .idle }
  cases recorded <;> exact ⟨nofun, nofun⟩

theorem stable_phased (phase : Phase) : Lasts H T M (fun c => c.phase = phase) :=
  stable_phase (· = phase)

theorem spec_unlinkTemp (stable : Lasts H T M P)
    (kept : ∀ c, P c → P (c.drop .temp)) :
    Yields H T M P (unlink .temp) (fun _ c => P c) :=
  spec_unlink stable (fun _ => stable) (fun _ _ _ => trivial) (fun c _ held => kept c held)
    fun _ _ held => held

theorem spec_linkResult :
    Yields H T M (fun c => c.phase = .held) linkResult
      (fun answer c => (answer = .failed ∧ c.phase = .held) ∨
        (answer ≠ .failed ∧ c.phase = .landed ∧ (c.result ≠ none ∨ c.held ≠ []))) := by
  refine spec_ask (S := cellSig T M) (stable_phased .held) (fun _ => ?_) fun c _ held =>
    ⟨held, fun i => ?_⟩
  · exact ((stable_const _).and (stable_phased _)).or
      ((stable_const _).and ((stable_phased _).and stable_published))
  · simp only [runCell]
    split
    · next answer => exact .inr ⟨by simp, rfl, .inl (link_source answer)⟩
    · next answer => exact .inr ⟨by simp, rfl, .inl (link_target answer)⟩
    · exact .inl ⟨rfl, held⟩

theorem spec_stage {metaInfo : Option M} {mintedTs : T} :
    Yields H T M (fun c => c.phase = .held) (stage metaInfo mintedTs)
      (fun _ c => c.phase = .held) := by
  refine spec_ask (S := cellSig T M) (stable_phased _) (fun _ => stable_phased _) fun c _ held =>
    ⟨held, fun i => ?_⟩
  simp only [runCell]
  split <;> exact held

theorem spec_landed :
    Yields H T M (fun c => c.phase = .landed ∧ (c.result ≠ none ∨ c.held ≠ []))
      (do let _ ← unlink .temp; let _ ← unlink .claim; leave false : CellProg T M PUnit)
      (fun _ c => Rest c) := by
  have landed := (stable_phased (H := H) (T := T) (M := M) .landed).and stable_published
  have unclaimed : Yields H T M
      (fun c => c.phase = .landed ∧ (c.result ≠ none ∨ c.held ≠ [])) (unlink .claim)
      (fun _ c => c.phase = .landed) := by
    refine spec_unlink landed (fun _ => stable_phased _) ?_ (fun _ _ held => held.1)
      fun _ _ held => held.1
    rintro c _ ⟨phase, published⟩
    exact ⟨by simp [phase], by simp [phase], published.imp_right .inl⟩
  refine (spec_unlinkTemp landed fun c held => held).bind fun _ => ?_
  refine unclaimed.bind fun _ => ?_
  exact spec_leave (stable_phased _) fun _ _ no => absurd no Bool.false_ne_true

theorem spec_discardClaim :
    Yields H T M (fun c => c.phase = .recorded) discardClaim (fun _ c => Rest c) := by
  have unclaimed : Yields H T M (fun c => c.phase = .recorded) (unlink .claim)
      (fun _ c => c.phase = .recorded) := by
    refine spec_unlink (stable_phased _) (fun _ => stable_phased _) ?_ (fun _ _ held => held)
      fun _ _ held => held
    exact fun c _ held => ⟨by simp [held], by simp [held], .inr (.inr (.inr (.inr held)))⟩
  refine unclaimed.bind fun _ => ?_
  exact spec_leave (stable_phased _) fun _ _ no => absurd no Bool.false_ne_true

variable [Add T] [NatCast T]

theorem spec_recordPublishFailure {a : Attempt T M} {now : T} (anew : Anew a) :
    Yields H T M (fun c => c.phase = .held) (recordPublishFailure a now)
      (fun _ c => Rest c) := by
  have holds : Lasts H T M (fun c => c.phase = .held) := stable_phase (· = .held)
  refine (spec_writeAttempt (Q := fun c => c.phase = .held) holds holds ?_ (by simp)
    fun c held => held).bind fun b => ?_
  · refine fun c wf held => ⟨active_of_held wf held, held, ?_, terminalize_status ..⟩
    exact (terminalize_nudges ..).trans anew.1
  · refine (spec_leave (P := fun c => b = true → Settled c) (.imp fun _ => stable_settled)
      fun c held => held).pre fun c _ post yes => ?_
    rcases (post.1 yes).1 with present | ⟨-, acked⟩
    · exact .inl ⟨_, present, by rw [terminalize_status]; rfl⟩
    · exact .inr acked

theorem spec_publishLocked {m : Mint T M} {serializable : Bool} {now : T} :
    Yields H T M (fun c => c.phase = .held) (publishLocked m serializable now)
      (fun _ c => Rest c) := by
  have holds : Lasts H T M (fun c => c.phase = .held) := stable_phased .held
  have untemp : Yields H T M (fun c => c.phase = .held) (unlink .temp)
      (fun _ c => c.phase = .held) := spec_unlinkTemp holds fun c held => held
  have failure : Yields H T M (fun c => c.phase = .held)
      (recordPublishFailure (newAttempt (some m.mtime) .resultReady m.metaInfo false now) now)
      (fun _ c => Rest c) := spec_recordPublishFailure (newAttempt_anew rfl)
  unfold publishLocked
  simp only
  split
  · exact failure
  refine (spec_writeAttempt (Q := fun c => c.phase = .held) holds holds ?_ (by simp)
    fun c held => held).bind fun wrote => ?_
  · exact fun c wf held => ⟨active_of_held wf held, held, newAttempt_anew rfl⟩
  split
  · refine (untemp.pre fun c _ held => held.2.elim (·.2) id).bind fun _ => ?_
    refine spec_stage.bind fun ready => ?_
    split
    · refine spec_linkResult.bind fun answer => ?_
      cases answer with
      | failed =>
        refine (untemp.pre fun c _ held => ?_).bind fun _ => failure
        rcases held with ⟨-, held⟩ | ⟨no, -⟩
        · exact held
        · exact absurd rfl no
      | _ =>
        refine spec_landed.pre fun c _ held => ?_
        rcases held with ⟨no, -⟩ | ⟨-, held⟩
        · cases no
        · exact held
    · exact untemp.bind fun _ => failure
  · exact (spec_leave holds fun _ _ no => absurd no Bool.false_ne_true).pre
      fun c _ held => held.2.elim (·.2) id

theorem spec_publishResult {serializable : Bool} {now : T} :
    Yields H T M (fun c => c.phase = .held) (publishResult serializable now)
      (fun _ c => Rest c) := by
  have left : Yields H T M (fun c => c.phase = .held) (leave false)
      (fun _ c => Rest c) :=
    spec_leave (stable_phased _) fun _ _ no => absurd no Bool.false_ne_true
  have asked : Yields H T M (fun c => c.phase = .held) probe
      (fun _ c => c.phase = .held) :=
    spec_ask (S := cellSig T M) (stable_phased _) (fun _ => stable_phased _) fun c _ held =>
      ⟨trivial, fun _ => held⟩
  refine asked.bind fun seen => ?_
  split
  · exact left
  · split
    · exact left
    · exact spec_publishLocked

variable [LinearOrder T] [Sub T]

theorem spec_claim {now : T} :
    Yields H T M (fun c => c.phase = .idle) (claim now) (fun _ c => Rest c) := by
  have taking : Lasts H T M (fun c => c.phase = .taking) :=
    stable_phase (· = .taking)
  have linked : Yields H T M (fun c => c.phase = .idle) linkClaim
      (fun answer c => (answer = .linked ∧ c.phase = .taking) ∨
        (answer ≠ .linked ∧ c.phase = .idle)) := by
    refine spec_ask (S := cellSig T M) (stable_phase (· = .idle)) (fun answer => ?_) ?_
    · exact ((stable_const _).and taking).or ((stable_const _).and (stable_phase (· = .idle)))
    · refine fun c _ idle => ⟨idle, fun i => ?_⟩
      simp only [runCell]
      split
      · exact .inl ⟨rfl, rfl⟩
      · next other => exact .inr ⟨other, idle⟩
  refine linked.bind fun answer => ?_
  cases answer with
  | linked =>
    have unlinked : Yields H T M (fun c => c.phase = .taking) (unlink .pending)
        (fun _ c => c.phase = .taking) :=
      spec_unlink taking (fun _ => taking) (fun c wf held => .inl ⟨held, wf.claimed (.inl held)⟩)
        (fun _ _ held => held) fun _ _ held => held
    refine (unlinked.pre fun c _ held => ?_).bind fun _ => ?_
    · rcases held with ⟨-, held⟩ | ⟨no, -⟩
      · exact held
      · exact absurd rfl no
    refine (spec_look taking (fun _ => taking) fun _ _ held => held).bind fun seen => ?_
    have left : Yields H T M (fun c => c.phase = .taking) (leave false)
        (fun _ c => Rest c) := spec_leave taking fun _ _ no => absurd no Bool.false_ne_true
    cases seen.claim with
    | none => exact left
    | some m =>
      simp only
      split
      · exact left
      · exact spec_ask (S := cellSig T M) taking (fun _ => stable_rest) fun c _ held =>
          ⟨held, fun i => ⟨by simp [runCell], by simp [runCell]⟩⟩
  | _ =>
    refine spec_pure stable_rest fun c _ held => ?_
    rcases held with ⟨no, -⟩ | ⟨-, idle⟩
    · cases no
    · exact ⟨by simp [idle], by simp [idle]⟩

end Handler

end Casa.CallbackSpecs
