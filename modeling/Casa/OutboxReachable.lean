import Casa.OutboxSweep

/-! What the sweep keeps. A file that was published less than `MAX_AGE_S` before every sweep so far
is still under its name, in `.claims` or in `.reap`, unless a newer publication of the name or the
end of its claim took it: as long as expiry goes by the time of the publication, the inode number
of a file that has been looked at is not given to another one, a stranded file has a safe name and
nobody claims `.reap`. -/

namespace Casa.OutboxReachable
open StepRuns OperationTree OutboxSweep

section Condition

/-- A young file is judged expired, another file has the inode number of the one judged, or a young
file that stood under an unsafe name is recovered. -/
def careless : FileOp → Disk → Bool
  | .lstat k, s => (s.files k).any fun f =>
      expired s.nowMs (k.ageRef f.stat) && !expired s.nowMs f.publishedMs
  | .current d, s => (s.held d).any fun e => s.looked.any fun f =>
      decide (e.2.ino = f.ino) && decide (e.2 ≠ f)
  | .listHeld d, s => (s.held d).any fun e =>
      !e.1.safe && (s.files e.1).isNone && !expired s.nowMs e.2.publishedMs
  | _, _ => false

/-- The step is none of these, nor a claim of `.reap`. -/
def careful : Label Publication Task (List Place) → Config fileSig Disk Task → Bool
  | .advance _, c => c.next.all fun asked => !careless asked.2 c.state
  | .start (.claim name _), _ => decide (name ≠ reapSubdir)
  | _, _ => true

def performCareful : Device fileSig (List Place) Disk
  | .lstat k, names, s =>
    if careless (.lstat k) s then (none, { s with looked := s.files k })
    else perform (.lstat k) names s
  | .current d, names, s =>
    if careless (.current d) s then
      ((s.held d).map fun e => ⟨e.2.ino + 1, e.2.mtimeMs⟩, s)
    else perform (.current d) names s
  | .listHeld d, names, s =>
    if careless (.listHeld d) s then (some (.claims ⟨0, 0⟩), s)
    else perform (.listHeld d) names s
  | op, names, s => perform op names s

def carefulProcess : Host fileSig (List Place) Disk Publication Task :=
  { process with run := performCareful }

theorem performCareful_eq {op : FileOp} {names : List Place} {s : Disk}
    (spared : careless op s = false) : performCareful op names s = perform op names s := by
  cases op with
  | lstat k => simp only [performCareful, spared, Bool.false_eq_true, if_false]
  | current d => simp only [performCareful, spared, Bool.false_eq_true, if_false]
  | listHeld d => simp only [performCareful, spared, Bool.false_eq_true, if_false]
  | _ => rfl

theorem step_careful {l : Label Publication Task (List Place)} {c : Config fileSig Disk Task}
    (ok : careful l c = true) : process.step l c = carefulProcess.step l c := by
  refine process.step_congr fun names task op now next => performCareful_eq ?_
  subst now
  simpa [careful, next] using ok

end Condition

section Publish
variable (s : Disk) (p : Publication)

@[simp] theorem publish_held : (s.publish p).held = s.held := by
  unfold Disk.publish; split <;> rfl

@[simp] theorem publish_dirs : (s.publish p).dirs = s.dirs := by
  unfold Disk.publish; split <;> rfl

@[simp] theorem publish_looked : (s.publish p).looked = s.looked := by
  unfold Disk.publish; split <;> rfl

@[simp] theorem publish_nowMs : (s.publish p).nowMs = s.nowMs := by
  unfold Disk.publish; split <;> rfl

@[simp] theorem publish_dueMs : (s.publish p).dueMs = s.dueMs := by
  unfold Disk.publish; split <;> rfl

end Publish

def Spent (s : Disk) (f : File) : Prop :=
  expired s.dueMs f.publishedMs = true ∨ s.Superseded f ∨ s.removed f.serial = true

/-- At most one entry of `.reap` is held, its name is free or taken by a newer publication, and
every published file is spent or reachable. -/
structure Sound (s : Disk) : Prop where
  pinned : s.reapClaim = none ∧ s.reapGone = false
  listed : ∀ k f, s.files k = some f → f ∈ s.published
  named : ∀ n f, s.files (.root n) = some f → f.name = n
  stays : ∀ d k f, s.held d = some (k, f) → d ∈ s.dirs ∧ f ∈ s.published
  origin : ∀ d n f, s.held d = some (.root n, f) → f.name = n
  one : ∀ d e, s.held d ≠ none → s.held e ≠ none → d = e
  blocked : ∀ d k f g, s.held d = some (k, f) → s.files k = some g → g = f ∨ s.Superseded f
  serials : ∀ f ∈ s.published, f.serial < s.published.length
  claimed : ∀ c f, s.files (.claims c) = some f → c.uuid < s.uuid
  heldClaims : ∀ d c f, s.held d = some (.claims c, f) → c.uuid < s.uuid
  now : s.nowMs ≤ s.dueMs
  kept : ∀ f ∈ s.published, Spent s f ∨ s.Reachable f

theorem sound_empty : Sound Disk.empty where
  pinned := ⟨rfl, rfl⟩
  listed k f there := by cases there
  named n f there := by cases there
  stays d k f there := by cases there
  origin d n f there := by cases there
  one d e there := absurd rfl there
  blocked d k f g there := by cases there
  serials f there := by cases there
  claimed c f there := by cases there
  heldClaims d c f there := by cases there
  now := Nat.le_refl 0
  kept f there := by cases there

section Sound
variable {s t : Disk} {f : File} {k : Place} {d : ℕ}

theorem reachable_file (name : ∀ n, k = .root n → f.name = n) (there : s.files k = some f) :
    s.Reachable f := by
  cases k with
  | root n =>
    have same := name n rfl
    subst same
    exact .inl there
  | claims c => exact .inr (.inl ⟨c, there⟩)

theorem expired_mono {now due ref : ℕ} (le : now ≤ due) (old : expired now ref = true) :
    expired due ref = true := by
  simp only [expired, decide_eq_true_eq] at old ⊢
  omega

theorem superseded_publish {p : Publication} (h : s.Superseded f) :
    (s.publish p).Superseded f := by
  obtain ⟨g, mem, later⟩ := h
  refine ⟨g, ?_, later⟩
  unfold Disk.publish
  split
  · exact mem
  · exact List.mem_append_left _ mem

theorem spent_publish {p : Publication} (h : Spent s f) : Spent (s.publish p) f := by
  have removed : (s.publish p).removed = s.removed := by
    unfold Disk.publish; split <;> rfl
  rcases h with old | newer | gone
  · exact .inl (by rw [publish_dueMs]; exact old)
  · exact .inr (.inl (superseded_publish newer))
  · exact .inr (.inr (by rw [removed]; exact gone))

theorem file_publish (h : Sound s) (p : Publication) (mem : f ∈ s.published)
    (there : s.files k = some f) :
    (s.publish p).files k = some f ∨ (s.publish p).Superseded f := by
  unfold Disk.publish
  split
  · exact .inl there
  · by_cases same : k = .root p.name
    · subst same
      refine .inr ⟨p.file s.published.length, List.mem_append_right _ (List.mem_singleton_self _),
        (h.named _ f there).symm, h.serials f mem⟩
    · exact .inl ((Function.update_of_ne same _ _).trans there)

theorem sound_publish (h : Sound s) (p : Publication) : Sound (s.publish p) := by
  by_cases reserved : p.name = claimsSubdir ∨ p.name = reapSubdir
  · have same : s.publish p = s := if_pos reserved
    rw [same]
    exact h
  · have published : s.publish p =
        { s.put (.root p.name) (some (p.file s.published.length)) with
          published := s.published ++ [p.file s.published.length] } := if_neg reserved
    have map : (s.publish p).files =
        Function.update s.files (.root p.name) (some (p.file s.published.length)) := by
      rw [published]
      rfl
    have files (k : Place) (g : File) (there : (s.publish p).files k = some g) :
        k = .root p.name ∧ g = p.file s.published.length ∨ s.files k = some g := by
      rw [map] at there
      by_cases same : k = .root p.name
      · subst same
        rw [Function.update_self] at there
        exact .inl ⟨rfl, (Option.some.inj there).symm⟩
      · rw [Function.update_of_ne same] at there
        exact .inr there
    have grown : (s.publish p).published = s.published ++ [p.file s.published.length] := by
      rw [published]
    have uuid : (s.publish p).uuid = s.uuid := by rw [published]; rfl
    have newest : p.file s.published.length ∈ (s.publish p).published := by
      rw [grown]
      exact List.mem_append_right _ (List.mem_singleton_self _)
    have older (g : File) (mem : g ∈ s.published) : g ∈ (s.publish p).published := by
      rw [grown]
      exact List.mem_append_left _ mem
    constructor
    · rw [published]
      exact h.pinned
    · intro k g there
      rcases files k g there with ⟨-, rfl⟩ | old
      · exact newest
      · exact older g (h.listed k g old)
    · intro n g there
      rcases files _ g there with ⟨same, rfl⟩ | old
      · cases same
        rfl
      · exact h.named n g old
    · intro d k g there
      rw [publish_held] at there
      rw [publish_dirs]
      exact ⟨(h.stays d k g there).1, older g (h.stays d k g there).2⟩
    · intro d n g there
      rw [publish_held] at there
      exact h.origin d n g there
    · rw [publish_held]
      exact h.one
    · intro d k g g' there now
      rw [publish_held] at there
      rcases files k g' now with ⟨rfl, rfl⟩ | old
      · exact .inr ⟨_, newest, (h.origin d _ g there).symm, h.serials g (h.stays d _ g there).2⟩
      · exact (h.blocked d k g g' there old).imp_right superseded_publish
    · intro g mem
      rw [grown, List.length_append, List.length_singleton]
      rw [grown, List.mem_append, List.mem_singleton] at mem
      rcases mem with old | rfl
      · exact Nat.lt_succ_of_lt (h.serials g old)
      · exact Nat.lt_succ_self _
    · intro c g there
      rcases files _ g there with ⟨same, -⟩ | old
      · cases same
      · rw [uuid]
        exact h.claimed c g old
    · intro d c g there
      rw [publish_held] at there
      rw [uuid]
      exact h.heldClaims d c g there
    · rw [publish_nowMs, publish_dueMs]
      exact h.now
    · intro g mem
      rw [grown, List.mem_append, List.mem_singleton] at mem
      rcases mem with old | rfl
      · rcases h.kept g old with spent | under | ⟨c, claimed⟩ | ⟨d, inside, k, held⟩
        · exact .inl (spent_publish spent)
        · rcases file_publish h p old under with still | newer
          · exact .inr (.inl still)
          · exact .inl (.inr (.inl newer))
        · rcases file_publish h p old claimed with still | newer
          · exact .inr (.inr (.inl ⟨c, still⟩))
          · exact .inl (.inr (.inl newer))
        · refine .inr (.inr (.inr ⟨d, ?_, k, ?_⟩))
          · rw [publish_dirs]
            exact inside
          · rw [publish_held]
            exact held
      · refine .inr (.inl ?_)
        rw [map]
        exact Function.update_self _ _ _

/-- Where an operation may be asked for: one entry is held at a time, and it goes when nobody is
promised it or it stands under its name. -/
def licence : FileOp → Disk → Prop
  | .renameIn d _, s => (∀ e, s.held e = none) ∧ d ∈ s.dirs
  | .unlinkHeld d, s => ∀ k f, s.held d = some (k, f) → Spent s f ∨ s.files k = some f
  | .claim name _, _ => name ≠ reapSubdir
  | _, _ => True

theorem sound_mkdir (h : Sound s) : Sound s.mkdir where
  pinned := h.pinned
  listed := h.listed
  named := h.named
  stays d k f there :=
    ⟨List.mem_append_left _ (h.stays d k f there).1, (h.stays d k f there).2⟩
  origin := h.origin
  one := h.one
  blocked := h.blocked
  serials := h.serials
  claimed c f there := Nat.lt_succ_of_lt (h.claimed c f there)
  heldClaims d c f there := Nat.lt_succ_of_lt (h.heldClaims d c f there)
  now := h.now
  kept f mem := by
    refine (h.kept f mem).imp_right fun reachable => ?_
    rcases reachable with under | claimed | ⟨d, inside, held⟩
    · exact .inl under
    · exact .inr (.inl claimed)
    · exact .inr (.inr ⟨d, List.mem_append_left _ inside, held⟩)

theorem put_of_ne {k' : Place} {g : Option File} (ne : k' ≠ k) :
    (s.put k g).files k' = s.files k' := Function.update_of_ne ne _ _

theorem put_self {g : Option File} : (s.put k g).files k = g := Function.update_self _ _ _

theorem hold_of_ne {e : ℕ} {x : Option (Place × File)} (ne : e ≠ d) :
    (s.hold d x).held e = s.held e := Function.update_of_ne ne _ _

theorem hold_self {x : Option (Place × File)} : (s.hold d x).held d = x :=
  Function.update_self _ _ _

theorem put_none {k' : Place} (there : (s.put k none).files k' = some f) :
    k' ≠ k ∧ s.files k' = some f := by
  by_cases same : k' = k
  · subst same
    rw [put_self] at there
    cases there
  · rw [put_of_ne same] at there
    exact ⟨same, there⟩

section
variable (h : Sound s)
include h

theorem sound_renameIn (may : licence (.renameIn d k) s) : Sound (s.renameIn d k) := by
  unfold Disk.renameIn
  cases found : s.files k with
  | none => exact h
  | some f =>
    obtain ⟨clear, inside⟩ := may
    have held (e : ℕ) (x : Place × File)
        (there : ((s.put k none).hold d (some (k, f))).held e = some x) : e = d ∧ x = (k, f) := by
      by_cases same : e = d
      · subst same
        rw [hold_self] at there
        exact ⟨rfl, (Option.some.inj there).symm⟩
      · rw [hold_of_ne same] at there
        exact absurd ((clear e).symm.trans there) nofun
    constructor
    · exact h.pinned
    · intro k' g there
      exact h.listed k' g (put_none there).2
    · intro n g there
      exact h.named n g (put_none there).2
    · intro e k' g there
      obtain ⟨rfl, same⟩ := held e _ there
      cases same
      exact ⟨inside, h.listed k f found⟩
    · intro e n g there
      obtain ⟨rfl, same⟩ := held e _ there
      cases same
      exact h.named n f found
    · intro e e' there there'
      obtain ⟨x, now⟩ := Option.ne_none_iff_exists'.mp there
      obtain ⟨x', now'⟩ := Option.ne_none_iff_exists'.mp there'
      exact (held e x now).1.trans (held e' x' now').1.symm
    · intro e k' g g' there now
      obtain ⟨rfl, same⟩ := held e _ there
      cases same
      exact absurd rfl (put_none now).1
    · exact h.serials
    · intro c g there
      exact h.claimed c g (put_none there).2
    · intro e c g there
      obtain ⟨rfl, same⟩ := held e _ there
      cases same
      exact h.claimed c f found
    · exact h.now
    · intro g mem
      have moved (k' : Place) (there : s.files k' = some g) :
          (s.put k none).files k' = some g ∨ k' = k ∧ g = f := by
        by_cases same : k' = k
        · subst same
          exact .inr ⟨rfl, Option.some.inj (there.symm.trans found)⟩
        · exact .inl ((put_of_ne same).trans there)
      have inHand : ((s.put k none).hold d (some (k, f))).Reachable f :=
        .inr (.inr ⟨d, inside, k, hold_self⟩)
      refine (h.kept g mem).imp_right fun reachable => ?_
      rcases reachable with under | ⟨c, claimed⟩ | ⟨e, -, k', there⟩
      · rcases moved _ under with still | ⟨-, rfl⟩
        · exact .inl still
        · exact inHand
      · rcases moved _ claimed with still | ⟨-, rfl⟩
        · exact .inr (.inl ⟨c, still⟩)
        · exact inHand
      · exact absurd ((clear e).symm.trans there) nofun

theorem sound_link (d : ℕ) : Sound (s.link d) := by
  cases held : s.held d with
  | none =>
    have same : s.link d = s := by simp [Disk.link, held]
    rw [same]
    exact h
  | some e =>
    obtain ⟨k, f⟩ := e
    cases found : s.files k with
    | some g =>
      have same : s.link d = s := by simp [Disk.link, held, found]
      rw [same]
      exact h
    | none =>
      have linked : s.link d = s.put k (some f) := by simp [Disk.link, held, found]
      rw [linked]
      have files (k' : Place) (g : File) (there : (s.put k (some f)).files k' = some g) :
          k' = k ∧ g = f ∨ s.files k' = some g := by
        by_cases same : k' = k
        · subst same
          rw [put_self] at there
          exact .inl ⟨rfl, (Option.some.inj there).symm⟩
        · rw [put_of_ne same] at there
          exact .inr there
      constructor
      · exact h.pinned
      · intro k' g there
        rcases files k' g there with ⟨-, rfl⟩ | old
        · exact (h.stays d k g held).2
        · exact h.listed k' g old
      · intro n g there
        rcases files _ g there with ⟨rfl, rfl⟩ | old
        · exact h.origin d n g held
        · exact h.named n g old
      · exact h.stays
      · exact h.origin
      · exact h.one
      · intro e k' g g' there now
        have before : s.held e = some (k', g) := there
        have same := h.one e d (by rw [before]; nofun) (by rw [held]; nofun)
        subst same
        cases before.symm.trans held
        rcases files k g' now with ⟨-, rfl⟩ | old
        · exact .inl rfl
        · exact absurd (found.symm.trans old) nofun
      · exact h.serials
      · intro c g there
        rcases files _ g there with ⟨rfl, rfl⟩ | old
        · exact h.heldClaims d c g held
        · exact h.claimed c g old
      · exact h.heldClaims
      · exact h.now
      · intro g mem
        have still (k' : Place) (there : s.files k' = some g) :
            (s.put k (some f)).files k' = some g := by
          refine (put_of_ne ?_).trans there
          rintro rfl
          exact absurd (found.symm.trans there) nofun
        refine (h.kept g mem).imp_right fun reachable => ?_
        rcases reachable with under | ⟨c, claimed⟩ | there
        · exact .inl (still _ under)
        · exact .inr (.inl ⟨c, still _ claimed⟩)
        · exact .inr (.inr there)

theorem sound_unlinkHeld (may : licence (.unlinkHeld d) s) : Sound (s.hold d none) := by
  have held (e : ℕ) (x : Place × File) (there : (s.hold d none).held e = some x) :
      e ≠ d ∧ s.held e = some x := by
    by_cases same : e = d
    · subst same
      rw [hold_self] at there
      cases there
    · rw [hold_of_ne same] at there
      exact ⟨same, there⟩
  constructor
  · exact h.pinned
  · exact h.listed
  · exact h.named
  · exact fun e k f there => h.stays e k f (held e _ there).2
  · exact fun e n f there => h.origin e n f (held e _ there).2
  · intro e e' there there'
    obtain ⟨x, now⟩ := Option.ne_none_iff_exists'.mp there
    obtain ⟨x', now'⟩ := Option.ne_none_iff_exists'.mp there'
    exact h.one e e' (by rw [(held e x now).2]; nofun) (by rw [(held e' x' now').2]; nofun)
  · exact fun e k f g there now => h.blocked e k f g (held e _ there).2 now
  · exact h.serials
  · exact h.claimed
  · exact fun e c f there => h.heldClaims e c f (held e _ there).2
  · exact h.now
  · intro f mem
    rcases h.kept f mem with spent | under | claimed | ⟨e, inside, k, there⟩
    · exact .inl spent
    · exact .inr (.inl under)
    · exact .inr (.inr (.inl claimed))
    · by_cases same : e = d
      · subst same
        rcases may k f there with spent | under
        · exact .inl spent
        · exact .inr (reachable_file (fun n root => h.named n f (root ▸ under)) under)
      · exact .inr (.inr (.inr ⟨e, inside, k, (hold_of_ne same).trans there⟩))

theorem sound_rmdir (d : ℕ) : Sound (s.rmdir d) := by
  unfold Disk.rmdir
  cases held : s.held d with
  | some e => exact h
  | none =>
    have inside (e : ℕ) (x : Place × File) (there : s.held e = some x) (mem : e ∈ s.dirs) :
        e ∈ s.dirs.erase d := by
      refine (List.mem_erase_of_ne ?_).mpr mem
      rintro rfl
      exact absurd (held.symm.trans there) nofun
    refine ⟨h.pinned, h.listed, h.named, fun e k f there => ⟨?_, (h.stays e k f there).2⟩,
      h.origin, h.one, h.blocked, h.serials, h.claimed, h.heldClaims, h.now, fun f mem => ?_⟩
    · exact inside e _ there (h.stays e k f there).1
    · refine (h.kept f mem).imp_right fun reachable => ?_
      rcases reachable with under | claimed | ⟨e, mem, k, there⟩
      · exact .inl under
      · exact .inr (.inl claimed)
      · exact .inr (.inr ⟨e, inside e _ there mem, k, there⟩)

theorem sound_uuid : Sound { s with uuid := s.uuid + 1 } where
  pinned := h.pinned
  listed := h.listed
  named := h.named
  stays := h.stays
  origin := h.origin
  one := h.one
  blocked := h.blocked
  serials := h.serials
  claimed c f there := Nat.lt_succ_of_lt (h.claimed c f there)
  heldClaims d c f there := Nat.lt_succ_of_lt (h.heldClaims d c f there)
  now := h.now
  kept := h.kept

theorem sound_claim {name : String} (epochMs : ℕ)
    (may : licence (.claim name epochMs) s) : Sound (s.claim name epochMs) := by
  cases found : s.files (.root name) with
  | none =>
    have same : s.claim name epochMs = { s with uuid := s.uuid + 1 } := by
      unfold Disk.claim
      rw [if_neg fun reserved => may reserved.1, found]
    rw [same]
    exact sound_uuid h
  | some f =>
    have moved : s.claim name epochMs =
        (Disk.put { s with uuid := s.uuid + 1 } (.root name) none).put
          (.claims ⟨epochMs, s.uuid⟩) (some f) := by
      unfold Disk.claim
      rw [if_neg fun reserved => may reserved.1, found]
    rw [moved]
    have files (k : Place) (g : File)
        (there : ((Disk.put { s with uuid := s.uuid + 1 } (.root name) none).put
          (.claims ⟨epochMs, s.uuid⟩) (some f)).files k = some g) :
        k = .claims ⟨epochMs, s.uuid⟩ ∧ g = f ∨ k ≠ .root name ∧ s.files k = some g := by
      by_cases new : k = .claims ⟨epochMs, s.uuid⟩
      · subst new
        rw [put_self] at there
        exact .inl ⟨rfl, (Option.some.inj there).symm⟩
      · rw [put_of_ne new] at there
        exact .inr (put_none there)
    constructor
    · exact h.pinned
    · intro k g there
      rcases files k g there with ⟨-, rfl⟩ | ⟨-, old⟩
      · exact h.listed _ g found
      · exact h.listed k g old
    · intro n g there
      rcases files _ g there with ⟨no, -⟩ | ⟨-, old⟩
      · cases no
      · exact h.named n g old
    · exact h.stays
    · exact h.origin
    · exact h.one
    · intro d k g g' there now
      rcases files k g' now with ⟨rfl, -⟩ | ⟨-, old⟩
      · exact absurd (h.heldClaims d _ g there) (Nat.lt_irrefl _)
      · exact h.blocked d k g g' there old
    · exact h.serials
    · intro c g there
      rcases files _ g there with ⟨same, -⟩ | ⟨-, old⟩
      · cases same
        exact Nat.lt_succ_self _
      · exact Nat.lt_succ_of_lt (h.claimed c g old)
    · exact fun d c g there => Nat.lt_succ_of_lt (h.heldClaims d c g there)
    · exact h.now
    · intro g mem
      refine (h.kept g mem).imp_right fun reachable => ?_
      rcases reachable with under | ⟨c, claimed⟩ | held
      · by_cases same : g.name = name
        · subst same
          cases under.symm.trans found
          exact .inr (.inl ⟨_, put_self⟩)
        · refine .inl ((put_of_ne (by nofun)).trans ((put_of_ne ?_).trans under))
          rintro ⟨⟩
          exact same rfl
      · refine .inr (.inl ⟨c, (put_of_ne ?_).trans ((put_of_ne (by nofun)).trans claimed)⟩)
        rintro ⟨⟩
        exact absurd (h.claimed _ g claimed) (Nat.lt_irrefl _)
      · exact .inr (.inr held)

theorem sound_removeClaim (c : ClaimName) : Sound (s.removeClaim c) := by
  have here : s.reapClaim ≠ some c := by
    rw [h.pinned.1]
    nofun
  cases found : s.files (.claims c) with
  | none =>
    have same : s.removeClaim c = s := by
      unfold Disk.removeClaim
      rw [if_neg here, found]
    rw [same]
    exact h
  | some f =>
    have removed : s.removeClaim c =
        { s.put (.claims c) none with
          removed := Function.update s.removed f.serial true } := by
      unfold Disk.removeClaim
      rw [if_neg here, found]
    rw [removed]
    have files (k : Place) (g : File) (there : (s.put (.claims c) none).files k = some g) :=
      (put_none there).2
    have still (k : Place) (g : File) (ne : k ≠ .claims c) (there : s.files k = some g) :
        (s.put (.claims c) none).files k = some g := (put_of_ne ne).trans there
    have spent (g : File) (old : Spent s g) :
        Spent { s.put (.claims c) none with
          removed := Function.update s.removed f.serial true } g := by
      refine old.imp_right fun rest => rest.imp_right fun gone => ?_
      change Function.update s.removed f.serial true g.serial = true
      rw [Function.update_apply, gone, ite_self]
    refine ⟨h.pinned, fun k g there => h.listed k g (files k g there),
      fun n g there => h.named n g (files _ g there), h.stays, h.origin, h.one,
      fun d k g g' there now => h.blocked d k g g' there (files k g' now), h.serials,
      fun c g there => h.claimed c g (files _ g there), h.heldClaims, h.now, fun g mem => ?_⟩
    rcases h.kept g mem with old | under | ⟨c', claimed⟩ | held
    · exact .inl (spent g old)
    · exact .inr (.inl (still (.root g.name) g nofun under))
    · by_cases same : c' = c
      · subst same
        cases claimed.symm.trans found
        exact .inl (.inr (.inr (Function.update_self _ _ _)))
      · refine .inr (.inr (.inl ⟨c', still (.claims c') g ?_ claimed⟩))
        rintro ⟨⟩
        exact same rfl
    · exact .inr (.inr (.inr held))

theorem sound_begin (nowMs : ℕ) : Sound { s with nowMs := nowMs, dueMs := max s.dueMs nowMs } where
  pinned := h.pinned
  listed := h.listed
  named := h.named
  stays := h.stays
  origin := h.origin
  one := h.one
  blocked := h.blocked
  serials := h.serials
  claimed := h.claimed
  heldClaims := h.heldClaims
  now := Nat.le_max_right _ _
  kept f mem := (h.kept f mem).imp_left fun spent =>
    spent.imp_left fun old => expired_mono (Nat.le_max_left _ _) old

theorem sound_looked (looked : Option File) : Sound { s with looked := looked } :=
  ⟨h.pinned, h.listed, h.named, h.stays, h.origin, h.one, h.blocked, h.serials, h.claimed,
    h.heldClaims, h.now, h.kept⟩

theorem sound_perform {op : FileOp} {names : List Place} (may : licence op s) :
    Sound (performCareful op names s).2 := by
  cases op with
  | begin_ nowMs => exact sound_begin h nowMs
  | lstat k =>
    have looks : (performCareful (.lstat k) names s).2 = { s with looked := s.files k } := by
      simp only [performCareful]
      split <;> rfl
    rw [looks]
    exact sound_looked h _
  | current d =>
    have same : (performCareful (.current d) names s).2 = s := by
      simp only [performCareful]
      split <;> rfl
    rw [same]
    exact h
  | listHeld d =>
    have same : (performCareful (.listHeld d) names s).2 = s := by
      simp only [performCareful]
      split <;> rfl
    rw [same]
    exact h
  | mkdir =>
    have made : (performCareful .mkdir names s).2 = s.mkdir := by
      simp [performCareful, perform, h.pinned.2]
    rw [made]
    exact sound_mkdir h
  | renameIn d k => exact sound_renameIn h may
  | link d => exact sound_link h d
  | unlinkHeld d => exact sound_unlinkHeld h may
  | rmdir d => exact sound_rmdir h d
  | claim name epochMs => exact sound_claim h epochMs may
  | unlinkClaim c => exact sound_removeClaim h c
  | listReap => exact h
  | list origin => exact h
  | exists_ c => exact h
  | lstatHeld d => exact h

end

end Sound

section Scripts
variable {α : Type}

abbrev discipline : Discipline performCareful :=
  moves (fun p s => s.publish p) Sound licence (fun {p _} h => sound_publish h p)
    fun h may => sound_perform h may

abbrev Holds (P : Disk → Prop) (p : FileScript α) (Q : α → Disk → Prop) : Prop :=
  Spec discipline P p Q

abbrev Steady (P : Disk → Prop) : Prop := Stable discipline P

/-- In a sweep at `now`, only such directories of `.reap` hold an entry. -/
def Only (now : ℕ) (φ : ℕ → Prop) (s : Disk) : Prop :=
  s.nowMs = now ∧ ∀ d, s.held d ≠ none → φ d

/-- The file last looked at is spent, and this is its `stat`. -/
def Judged (st : Stat) (s : Disk) : Prop :=
  ∃ f, s.looked = some f ∧ f.stat = st ∧ expired s.dueMs f.publishedMs = true

variable {P : Disk → Prop} {now d : ℕ} {φ ψ : ℕ → Prop} {st : Stat}

theorem steady_of (h : ∀ p s, Sound s → P s → P (s.publish p)) : Steady P := stable_moves h

theorem steady_only : Steady (Only now φ) := by
  refine steady_of fun p s _ held => ?_
  rw [Only, publish_nowMs, publish_held]
  exact held

theorem steady_judged : Steady (Judged st) := by
  refine steady_of fun p s _ held => ?_
  rw [Judged, publish_looked, publish_dueMs]
  exact held

theorem steady_free : Steady fun s => s.held d = none :=
  steady_of fun p s _ held => by rw [publish_held]; exact held

theorem steady_listed : Steady fun s => d ∈ s.dirs :=
  steady_of fun p s _ held => by rw [publish_dirs]; exact held

theorem steady_licence : Steady (licence (.unlinkHeld d)) := by
  refine steady_of fun p s inv held k f there => ?_
  rw [publish_held] at there
  rcases held k f there with spent | under
  · exact .inl (spent_publish spent)
  · rcases file_publish inv p (inv.stays d k f there).2 under with still | newer
    · exact .inr still
    · exact .inl (.inr (.inl newer))

theorem holds_call {op : FileOp} {Q : op.Answer → Disk → Prop} (steady : Steady P)
    (after : ∀ a, Steady (Q a))
    (h : ∀ s, Sound s → P s → licence op s ∧
      ∀ names, Q (performCareful op names s).1 (performCareful op names s).2) :
    Holds P (call op) Q :=
  @spec_ask fileSig _ _ performCareful discipline P op Q steady after h

theorem holds_pure {a : α} {Q : α → Disk → Prop} (steady : Steady (Q a))
    (h : ∀ s, Sound s → P s → Q a s) : Holds P (pure a : FileScript α) Q := spec_pure steady h

theorem Only.mono {s : Disk} (h : Only now φ s) (weaker : ∀ d, φ d → ψ d) : Only now ψ s :=
  ⟨h.1, fun d some_ => weaker d (h.2 d some_)⟩

theorem Only.without {s : Disk} (h : Only now φ s) (free : s.held d = none) :
    Only now (fun e => φ e ∧ e ≠ d) s := by
  refine ⟨h.1, fun e some_ => ⟨h.2 e some_, ?_⟩⟩
  rintro rfl
  exact some_ free

theorem holds_unlinkHeld (d : ℕ) :
    Holds (fun s => Only now φ s ∧ licence (.unlinkHeld d) s) (call (.unlinkHeld d))
      (fun _ => Only now fun e => φ e ∧ e ≠ d) := by
  refine holds_call (steady_only.and steady_licence) (fun _ => steady_only) fun s _ known => ?_
  refine ⟨known.2, fun names => ⟨known.1.1, fun e some_ => ?_⟩⟩
  have held : (s.hold d none).held e ≠ none := some_
  by_cases same : e = d
  · subst same
    exact absurd hold_self held
  · rw [hold_of_ne same] at held
    exact ⟨known.1.2 e held, same⟩

theorem holds_rmdir (d : ℕ) :
    Holds (Only now φ) (call (.rmdir d)) (fun _ => Only now φ) := by
  refine holds_call steady_only (fun _ => steady_only) fun s _ known => ⟨trivial, fun names => ?_⟩
  change Only now φ (s.rmdir d)
  unfold Disk.rmdir
  split <;> exact known

theorem licence_link {s : Disk} (inv : Sound s) (d : ℕ) : licence (.unlinkHeld d) (s.link d) := by
  cases held : s.held d with
  | none =>
    have same : s.link d = s := by simp [Disk.link, held]
    rw [same]
    exact fun k f there => absurd (held.symm.trans there) nofun
  | some e =>
    obtain ⟨k, f⟩ := e
    cases found : s.files k with
    | some g =>
      have same : s.link d = s := by simp [Disk.link, held, found]
      rw [same]
      intro k' f' there
      cases held.symm.trans there
      rcases inv.blocked d k f g held found with rfl | newer
      · exact .inr found
      · exact .inl (.inr (.inl newer))
    | none =>
      have linked : s.link d = s.put k (some f) := by simp [Disk.link, held, found]
      rw [linked]
      intro k' f' there
      cases held.symm.trans there
      exact .inr put_self

theorem held_link (s : Disk) (d : ℕ) : (s.link d).held = s.held ∧ (s.link d).nowMs = s.nowMs := by
  unfold Disk.link
  split
  · exact ⟨rfl, rfl⟩
  · split <;> exact ⟨rfl, rfl⟩

theorem holds_restoreEntry (d : ℕ) :
    Holds (Only now φ) (restoreEntry d) (fun _ => Only now fun e => φ e ∧ e ≠ d) := by
  refine Spec.bind (Q := fun a s => Only now φ s ∧ (a = none → s.held d = none)) ?_ fun a => ?_
  · refine holds_call steady_only (fun a => steady_only.and (Stable.imp fun _ => steady_free)) ?_
    intro s _ known
    refine ⟨trivial, fun names => ⟨known, fun none_ => ?_⟩⟩
    exact Option.map_eq_none_iff.mp none_
  · cases a with
    | none => exact holds_pure steady_only fun s _ known => known.1.without (known.2 rfl)
    | some st =>
      refine Spec.bind (Q := fun _ s => Only now φ s ∧ licence (.unlinkHeld d) s) ?_ fun _ =>
        holds_unlinkHeld d
      refine Spec.pre (holds_call steady_only
        (fun _ => steady_only.and steady_licence) ?_) fun s _ known => known.1
      intro s inv known
      refine ⟨trivial, fun names => ⟨?_, licence_link inv d⟩⟩
      change Only now φ (s.link d)
      rw [Only, (held_link s d).1, (held_link s d).2]
      exact known

theorem holds_recoverReapDir (d : ℕ) :
    Holds (Only now φ) (recoverReapDir d) (fun _ => Only now fun e => φ e ∧ e ≠ d) := by
  refine Spec.bind (Q := fun a s => Only now φ s ∧ (a = none → s.held d = none) ∧
    ((∃ k, a = some k ∧ k.safe = false) → licence (.unlinkHeld d) s)) ?_ fun a => ?_
  · refine holds_call steady_only (fun a => steady_only.and
      ((Stable.imp fun _ => steady_free).and (Stable.imp fun _ => steady_licence))) ?_
    intro s inv known
    refine ⟨trivial, fun names => ?_⟩
    cases spared : careless (.listHeld d) s with
    | true =>
      have answer : performCareful (.listHeld d) names s = (some (.claims ⟨0, 0⟩), s) := by
        simp only [performCareful, spared, if_true]
        rfl
      rw [answer]
      refine ⟨known, nofun, ?_⟩
      rintro ⟨k, ⟨⟩, unsafe_⟩
      exact absurd (unsafe_ : true = false) nofun
    | false =>
      rw [performCareful_eq spared]
      refine ⟨known, fun none_ => Option.map_eq_none_iff.mp none_, ?_⟩
      rintro ⟨k, found, unsafe_⟩ k' f held
      have there : s.held d = some (k', f) := held
      have same : k = k' := by
        have answer : (s.held d).map Prod.fst = some k := found
        rw [there] at answer
        exact (Option.some.inj answer).symm
      subst same
      simp only [careless, there, Option.any_some, unsafe_, Bool.not_false, Bool.true_and,
        Bool.and_eq_false_iff, Option.isNone_eq_false_iff, Bool.not_eq_false'] at spared
      rcases spared with taken | old
      · obtain ⟨g, found⟩ := Option.isSome_iff_exists.mp taken
        rcases inv.blocked d k f g there found with rfl | newer
        · exact .inr found
        · exact .inl (.inr (.inl newer))
      · exact .inl (.inl (expired_mono inv.now old))
  · refine Spec.bind (Q := fun _ => Only now fun e => φ e ∧ e ≠ d) ?_ fun _ => holds_rmdir d
    cases a with
    | none => exact holds_pure steady_only fun s _ known => known.1.without (known.2.1 rfl)
    | some k =>
      change Holds _ (if k.safe = true then restoreEntry d else call (.unlinkHeld d)) _
      cases safe : k.safe with
      | true =>
        rw [if_pos rfl]
        exact Spec.pre (holds_restoreEntry d) fun s _ known => known.1
      | false =>
        rw [if_neg nofun]
        exact Spec.pre (holds_unlinkHeld d) fun s _ known => ⟨known.1, known.2.2 ⟨k, rfl, safe⟩⟩

theorem holds_recovery (dirs : List ℕ) :
    Holds (Only now (· ∈ dirs)) (Prog.forEach recoverReapDir dirs)
      (fun _ => Only now fun _ => False) := by
  induction dirs with
  | nil => exact holds_pure steady_only fun s _ known => known.mono fun d mem => by cases mem
  | cons d rest ih =>
    refine (holds_recoverReapDir d).bind fun _ => ?_
    refine (ih.pre fun s _ known => known.mono ?_).bind fun _ =>
      holds_pure steady_only fun _ _ known => known
    rintro e ⟨mem, ne⟩
    exact (List.mem_cons.mp mem).resolve_left ne

theorem holds_settle (d : ℕ) (st : Stat) :
    Holds (fun s => Judged st s ∧ Only now (· = d) s) (settle d st)
      (fun _ => Only now fun _ => False) := by
  refine Spec.bind (Q := fun a s => Only now (· = d) s ∧ (a = none → s.held d = none) ∧
    ((∃ current, a = some current ∧ current.ino = st.ino) → licence (.unlinkHeld d) s)) ?_
    fun a => ?_
  · refine holds_call (steady_judged.and steady_only) (fun a => steady_only.and
      ((Stable.imp fun _ => steady_free).and (Stable.imp fun _ => steady_licence))) ?_
    rintro s inv ⟨⟨f, looked, rfl, old⟩, known⟩
    refine ⟨trivial, fun names => ?_⟩
    cases spared : careless (.current d) s with
    | true =>
      have answer : performCareful (.current d) names s =
          ((s.held d).map fun e => ⟨e.2.ino + 1, e.2.mtimeMs⟩, s) := by
        simp only [performCareful, spared, if_true]
        rfl
      rw [answer]
      refine ⟨known, fun none_ => Option.map_eq_none_iff.mp none_, ?_⟩
      rintro ⟨current, found, same⟩
      cases held : s.held d with
      | none =>
        simp only [held, Option.map_none] at found
        cases found
      | some e =>
        simp only [careless, held, looked, Option.any_some, Bool.and_eq_true,
          decide_eq_true_eq] at spared
        simp only [held, Option.map_some, Option.some.injEq] at found
        subst found
        simp only [File.stat] at same
        omega
    | false =>
      rw [performCareful_eq spared]
      refine ⟨known, fun none_ => Option.map_eq_none_iff.mp none_, ?_⟩
      rintro ⟨current, found, same⟩ k g held
      have there : s.held d = some (k, g) := held
      simp only [careless, there, looked, Option.any_some, Bool.and_eq_false_iff,
        decide_eq_false_iff_not, not_not] at spared
      have answer : (s.held d).map (fun e => e.2.stat) = some current := found
      rw [there] at answer
      cases answer
      rcases spared with other | rfl
      · exact absurd same other
      · exact .inl (.inl old)
  · cases a with
    | none =>
      refine holds_pure steady_only fun s _ known => ?_
      exact (known.1.without (known.2.1 rfl)).mono fun e both => both.2 both.1
    | some current =>
      by_cases other : current.ino ≠ st.ino
      · change Holds _ (if current.ino ≠ st.ino then _ else _) _
        rw [if_pos other]
        refine (Spec.pre (holds_restoreEntry d) fun s _ known => known.1).bind fun _ => ?_
        exact holds_pure steady_only fun s _ known => known.mono fun e both => both.2 both.1
      · change Holds _ (if current.ino ≠ st.ino then _ else _) _
        rw [if_neg other]
        refine (Spec.pre (@holds_unlinkHeld now (· = d) d) fun s _ known => ?_).bind fun _ => ?_
        · exact ⟨known.1, known.2.2 ⟨current, rfl, not_not.mp other⟩⟩
        · exact holds_pure steady_only fun s _ known => known.mono fun e both => both.2 both.1

theorem Only.clear {s : Disk} (h : Only now (fun _ => False) s) (d : ℕ) : s.held d = none := by
  cases held : s.held d with
  | none => rfl
  | some e => exact (h.2 d (by rw [held]; nofun)).elim

theorem holds_reap (k : Place) (st : Stat) :
    Holds (fun s => Judged st s ∧ Only now (fun _ => False) s) (reap k st)
      (fun _ => Only now fun _ => False) := by
  refine Spec.bind (Q := fun a s => (Judged st s ∧ Only now (fun _ => False) s) ∧
    ∀ d, a = some d → d ∈ s.dirs) ?_ fun a => ?_
  · have listed (a : Option ℕ) : Steady fun s => ∀ d, a = some d → d ∈ s.dirs :=
      steady_of fun p s _ held d same => by rw [publish_dirs]; exact held d same
    refine holds_call (steady_judged.and steady_only)
      (fun a => (steady_judged.and steady_only).and (listed a)) ?_
    intro s inv known
    refine ⟨trivial, fun names => ?_⟩
    have made : performCareful .mkdir names s = (some s.uuid, s.mkdir) := by
      simp only [performCareful, perform, inv.pinned.2, Bool.false_eq_true, if_false]
      rfl
    rw [made]
    refine ⟨known, ?_⟩
    rintro d ⟨⟩
    exact List.mem_append_right _ (List.mem_singleton_self _)
  cases a with
  | none => exact holds_pure steady_only fun s _ known => known.1.2
  | some d =>
    refine Spec.bind (Q := fun moved s => (Judged st s ∧ Only now (· = d) s) ∧
      (moved = false → Only now (fun _ => False) s)) ?_ fun moved => ?_
    · refine Spec.pre (holds_call (P := fun s => (Judged st s ∧ Only now (fun _ => False) s) ∧
        d ∈ s.dirs) ((steady_judged.and steady_only).and steady_listed)
        (fun moved => (steady_judged.and steady_only).and (Stable.imp fun _ => steady_only)) ?_)
        fun s _ known => ⟨known.1, known.2 d rfl⟩
      rintro s inv ⟨⟨judged, known⟩, inside⟩
      refine ⟨⟨known.clear, inside⟩, fun names => ?_⟩
      change (Judged st (s.renameIn d k) ∧ Only now (· = d) (s.renameIn d k)) ∧
        ((s.files k).isSome = false → Only now (fun _ => False) (s.renameIn d k))
      cases found : s.files k with
      | none =>
        have same : s.renameIn d k = s := by simp [Disk.renameIn, found]
        rw [same]
        exact ⟨⟨judged, known.mono fun _ no => no.elim⟩, fun _ => known⟩
      | some f =>
        have moved : s.renameIn d k = (s.put k none).hold d (some (k, f)) := by
          simp [Disk.renameIn, found]
        rw [moved]
        refine ⟨⟨judged, known.1, fun e some_ => ?_⟩, nofun⟩
        by_contra ne
        rw [hold_of_ne ne] at some_
        exact known.2 e some_
    · refine Spec.bind (Q := fun _ => Only now fun _ => False) ?_ fun reaped =>
        (holds_rmdir d).bind fun _ => holds_pure steady_only fun _ _ known => known
      cases moved with
      | true => exact Spec.pre (holds_settle d st) fun s _ known => known.1
      | false => exact holds_pure steady_only fun s _ known => known.2 rfl

theorem holds_expire (k : Place) :
    Holds (Only now fun _ => False) (expire now k) (fun _ => Only now fun _ => False) := by
  refine Spec.bind (Q := fun a s => Only now (fun _ => False) s ∧
    ∀ st, a = some st → expired now (k.ageRef st) = true → Judged st s) ?_ fun a => ?_
  · have judged (a : Option Stat) : Steady fun s =>
        ∀ st, a = some st → expired now (k.ageRef st) = true → Judged st s :=
      fun s t inv moved held st same old => steady_judged s t inv moved (held st same old)
    refine holds_call steady_only (fun a => steady_only.and (judged a)) fun s inv known => ?_
    refine ⟨trivial, fun names => ?_⟩
    cases spared : careless (.lstat k) s with
    | true =>
      have answer : performCareful (.lstat k) names s = (none, { s with looked := s.files k }) := by
        simp only [performCareful, spared, if_true]
        rfl
      rw [answer]
      exact ⟨known, nofun⟩
    | false =>
      rw [performCareful_eq spared]
      refine ⟨known, fun st answer old => ?_⟩
      obtain ⟨f, found, rfl⟩ := Option.map_eq_some_iff.mp (answer : (s.files k).map File.stat = _)
      refine ⟨f, found, rfl, ?_⟩
      rw [← known.1] at old
      simp only [careless, found, Option.any_some, old, Bool.true_and, Bool.not_eq_false'] at spared
      exact expired_mono inv.now spared
  · cases a with
    | none => exact holds_pure steady_only fun s _ known => known.1
    | some st =>
      cases old : expired now (k.ageRef st) with
      | true =>
        simp only [old, if_true]
        exact Spec.pre (holds_reap k st) fun s _ known => ⟨known.2 st rfl old, known.1⟩
      | false =>
        simp only [old, Bool.false_eq_true, if_false]
        exact holds_pure steady_only fun s _ known => known.1

theorem holds_sweepOnce (now : ℕ) :
    Holds (fun _ => True) (sweepOnce now) (fun _ => Only now fun _ => False) := by
  refine Spec.bind (Q := fun _ => Only now fun _ => True) ?_ fun _ => ?_
  · exact holds_call (stable_const _) (fun _ => steady_only)
      fun s _ _ => ⟨trivial, fun names => ⟨rfl, fun _ _ => trivial⟩⟩
  refine Spec.bind (Q := fun dirs => Only now (· ∈ dirs)) ?_ fun dirs => ?_
  · refine holds_call steady_only (fun _ => steady_only) fun s inv known => ?_
    refine ⟨trivial, fun names => ⟨known.1, fun d some_ => ?_⟩⟩
    obtain ⟨e, held⟩ := Option.ne_none_iff_exists'.mp some_
    exact (inv.stays d e.1 e.2 held).1
  refine (holds_recovery dirs).bind fun _ => ?_
  have listing (origin : Origin) : Holds (Only now fun _ => False) (call (.list origin))
      (fun _ => Only now fun _ => False) :=
    holds_call steady_only (fun _ => steady_only) fun s _ known => ⟨trivial, fun _ => known⟩
  have pass (names : List Place) : Holds (Only now fun _ => False)
      (Prog.forEach (expire now) names) (fun _ => Only now fun _ => False) :=
    spec_forEach_keeps steady_only names fun k _ => holds_expire k
  refine (listing .root).bind fun names => (pass names).bind fun _ => ?_
  refine (listing .claims).bind fun claimNames => (pass claimNames).bind fun _ => ?_
  exact holds_pure steady_only fun _ _ known => known

end Scripts

section Process

theorem lawful_process :
    Lawful carefulProcess discipline (fun _ => True)
      (fun task _ => ∀ name epochMs, task = .claim name epochMs → name ≠ reapSubdir) where
  stable := stable_const _
  env := fun p s _ => .single ⟨p, rfl⟩
  program := fun task => by
    have free {op : FileOp} (may : ∀ s, licence op s) :
        Holds (fun _ => True) (call op) (fun _ _ => True) :=
      holds_call (stable_const _) (fun _ => stable_const _)
        fun s _ _ => ⟨may s, fun _ => trivial⟩
    cases task with
    | sweep now =>
      exact Spec.pre ((holds_sweepOnce now).bind fun _ => holds_pure (stable_const _)
        fun _ _ _ => trivial) fun _ _ _ => trivial
    | claim name epochMs =>
      have asked (other : name ≠ reapSubdir) :
          Holds (fun _ => True) (claim name epochMs) (fun _ _ => True) := by
        unfold claim
        split
        · exact free fun _ => other
        · exact holds_pure (stable_const _) fun _ _ _ => trivial
      exact fun s inv known => asked (known.2 name epochMs rfl) s inv trivial
    | removeClaim c =>
      have exists_ : Holds (fun _ => True) (call (.exists_ c)) (fun _ _ => True) :=
        free fun _ => trivial
      refine Spec.pre (exists_.bind fun there => ?_) fun _ _ _ => trivial
      cases there with
      | true => exact free fun _ => trivial
      | false => exact holds_pure (stable_const _) fun _ _ _ => trivial
  crash := fun s inv => by
    have same : s.restart = s := if_pos inv.pinned
    refine ⟨?_, trivial⟩
    change Sound s.restart
    rw [same]
    exact inv

def initial : Config fileSig Disk Task := ⟨Disk.empty, none⟩

/-- Every file published less than `MAX_AGE_S` before every sweep so far is reachable, unless a
newer publication of its name has superseded it or its claim has been removed: in every run of
sweeps, claims, removals of claims and publications, with a crash anywhere. -/
theorem fresh_reachable {ls : List (Label Publication Task (List Place))}
    {c : Config fileSig Disk Task}
    (run : Runs process.step (fun l c => careful l c = true) initial ls c) {f : File}
    (published : f ∈ c.state.published) (young : c.state.dueMs ≤ f.publishedMs + maxAgeMs)
    (newest : ∀ g ∈ c.state.published, g.name = f.name → g.serial ≤ f.serial)
    (kept : c.state.removed f.serial = false) : c.state.Reachable f := by
  have start : Guarded (m := carefulProcess) discipline (fun _ => True) initial :=
    ⟨sound_empty, fun _ => trivial, nofun⟩
  have guarded := guarded_of_runs lawful_process (run.congr fun _ _ ok => step_careful ok)
    (fun task c ok _ => by
      rintro name epochMs rfl
      exact of_decide_eq_true ok) start
  have inv : Sound c.state := guarded.inv
  rcases inv.kept f published with (old | ⟨g, mem, same, later⟩ | gone) | reachable
  · simp only [expired, decide_eq_true_eq] at old
    omega
  · exact absurd (newest g mem same) (Nat.not_le_of_lt later)
  · rw [kept] at gone
    cases gone
  · exact reachable

def stale : Publication := ⟨"a", 5, 0, 0⟩

def young (ino : ℕ) : Publication := ⟨"a", ino, 10000000, 10000000⟩

def judged : List (Label Publication Task (List Place)) :=
  [.env stale, .start (.sweep 10000000), .advance [], .advance [], .advance [.root "a"],
    .advance [], .advance []]

/-- The file that the sweep takes is a new one; the process dies with it, and the next sweep puts
it back. -/
def strandedThenRecovered : List (Label Publication Task (List Place)) :=
  judged ++ [.env (young 6), .advance [], .crash] ++
    .start (.sweep 10000001) :: List.replicate 9 (.advance []) ++ [.finish]

theorem stranded_reachable :
    ∃ c, Runs process.step (fun l c => careful l c = true) initial strandedThenRecovered c ∧
      c.state.files (.root "a") = some ((young 6).file 1) ∧
      c.state.Reachable ((young 6).file 1) := by
  have legal : Legal process.step (fun l c => careful l c = true) initial
      strandedThenRecovered := by
    decide +kernel
  refine ⟨_, legal.runs, ?_, fresh_reachable legal.runs ?_ ?_ ?_ ?_⟩
  · decide +kernel
  · decide +kernel
  · decide +kernel
  · decide +kernel
  · decide +kernel

def replaced : List (Label Publication Task (List Place)) := judged ++ [.env (young 6)]

def finished : List (Label Publication Task (List Place)) :=
  List.replicate 5 (.advance []) ++ [.finish]

/-- The number of a replaced file is given to its second successor, and the sweep deletes that. -/
theorem reused_lost :
    ∃ c d, Runs process.step (fun _ _ => True) initial replaced c ∧
      Runs process.step (fun _ _ => True) c (.env (young 5) :: finished) d ∧
      (∀ f ∈ c.state.published, f.ino = 5 → ¬c.state.Reachable f) ∧
      (young 5).file 2 ∈ d.state.published ∧ d.running = none ∧
      d.state.dueMs ≤ ((young 5).file 2).publishedMs + maxAgeMs ∧
      (∀ g ∈ d.state.published, g.name = "a" → g.serial ≤ 2) ∧
      (∀ serial, d.state.removed serial = false) ∧ ¬d.state.Reachable ((young 5).file 2) := by
  refine ⟨_, _, Runs.foldl (fun _ _ _ => trivial) _, Runs.foldl (fun _ _ _ => trivial) _,
    ?_, ?_, Option.isNone_iff_eq_none.mp ?_, ?_, ?_, fun _ => rfl, ?_⟩
  · intro f published number
    have first : f = stale.file 0 := by
      revert f
      decide +kernel
    subst first
    rintro (under | ⟨claimName, claimed⟩ | ⟨d, inside, k, held⟩)
    · exact absurd under (by decide +kernel)
    · cases claimed
    · cases held
  · decide +kernel
  · decide +kernel
  · decide +kernel
  · decide +kernel
  · rintro (under | ⟨claimName, claimed⟩ | ⟨d, inside, -⟩)
    · exact absurd under (by decide +kernel)
    · cases claimed
    · exact absurd inside List.not_mem_nil

end Process

end Casa.OutboxReachable
