import Casa.JobRegistry

/-! The snapshot file against the table in memory. Loading what was written gives
the same rows, only reordered by the sort key, and the same delivery counter. -/

namespace Casa.JobSnapshot
open PythonValue ProvenanceCodec JobRecord KeyedTable FaultState JobRegistry

variable {T : Type}

section Counter

theorem le_foldl_max (rows : List (VoiceJob T)) (m : Int) :
    m ≤ rows.foldl (fun m other => max m other.deliverySequence) m ∧
      ∀ job ∈ rows, job.deliverySequence ≤
        rows.foldl (fun m other => max m other.deliverySequence) m := by
  induction rows generalizing m with
  | nil => simp
  | cons first rest ih =>
    obtain ⟨bound, each⟩ := ih (max m first.deliverySequence)
    simp only [List.foldl_cons, List.mem_cons, forall_eq_or_imp]
    exact ⟨le_trans (le_max_left _ _) bound, le_trans (le_max_right _ _) bound, each⟩

theorem foldl_max_mem (rows : List (VoiceJob T)) (m : Int) :
    rows.foldl (fun m other => max m other.deliverySequence) m = m ∨
      ∃ job ∈ rows, rows.foldl (fun m other => max m other.deliverySequence) m =
        job.deliverySequence := by
  induction rows generalizing m with
  | nil => exact .inl rfl
  | cons first rest ih =>
    simp only [List.foldl_cons]
    rcases ih (max m first.deliverySequence) with same | ⟨job, mem, eq⟩
    · rcases max_choice m first.deliverySequence with left | right
      · exact .inl (same.trans left)
      · exact .inr ⟨first, List.mem_cons_self, same.trans right⟩
    · exact .inr ⟨job, List.mem_cons_of_mem _ mem, eq⟩

theorem le_maxSequence {rows : List (VoiceJob T)} {job : VoiceJob T} (h : job ∈ rows) :
    job.deliverySequence ≤ maxSequence rows := by
  cases rows with
  | nil => simp at h
  | cons first rest =>
    obtain ⟨bound, each⟩ := le_foldl_max rest first.deliverySequence
    rcases List.mem_cons.mp h with rfl | tail
    · exact bound
    · exact each job tail

theorem maxSequence_mem {rows : List (VoiceJob T)} (h : rows ≠ []) :
    ∃ job ∈ rows, maxSequence rows = job.deliverySequence := by
  cases rows with
  | nil => exact absurd rfl h
  | cons first rest =>
    rcases foldl_max_mem rest first.deliverySequence with same | ⟨job, mem, eq⟩
    · exact ⟨first, List.mem_cons_self, same⟩
    · exact ⟨job, List.mem_cons_of_mem _ mem, eq⟩

theorem maxSequence_perm {rows rows' : List (VoiceJob T)} (h : rows.Perm rows') :
    maxSequence rows = maxSequence rows' := by
  by_cases empty : rows = []
  · subst empty
    rw [List.nil_perm.mp h]
  · have nonempty : rows' ≠ [] := fun eq => empty (List.perm_nil.mp (eq ▸ h))
    obtain ⟨top, mem, eq⟩ := maxSequence_mem empty
    obtain ⟨top', mem', eq'⟩ := maxSequence_mem nonempty
    apply le_antisymm
    · rw [eq]
      exact le_maxSequence (h.mem_iff.mp mem)
    · rw [eq']
      exact le_maxSequence (h.mem_iff.mpr mem')

end Counter

def encodedRow (job : VoiceJob T) : Json T :=
  .obj (rowFields job (.obj (asdict job.creatingSpeaker)) (.obj (asdict job.executingSpeaker)))

theorem mapM_encodeJob_eq_ok_iff {py : Builtins T} {rows : List (VoiceJob T)}
    {items : List (Json T)} : rows.mapM (encodeJob py) = .ok items ↔
      (∀ job ∈ rows, SpeakersValid py job) ∧ items = rows.map encodedRow := by
  induction rows generalizing items with
  | nil => simp [pure, Except.pure, eq_comm]
  | cons job rest ih =>
    rw [List.mapM_cons]
    cases head : encodeJob py job with
    | error message =>
      have invalid : ¬ SpeakersValid py job := fun valid => by
        have := (encodeJob_eq_ok_iff py).mpr ⟨valid, rfl⟩
        simp [head] at this
      simp [bind, Except.bind, invalid]
    | ok row =>
      obtain ⟨valid, rowEq⟩ := (encodeJob_eq_ok_iff py).mp head
      cases tail : rest.mapM (encodeJob py) with
      | error message =>
        have stuck : ¬ ∀ job ∈ rest, SpeakersValid py job := fun all => by
          have := ih.mpr ⟨all, rfl⟩
          simp [tail] at this
        simp only [bind, Except.bind, List.forall_mem_cons]
        simp [stuck]
      | ok others =>
        obtain ⟨all, othersEq⟩ := ih.mp tail
        simp only [ok_bind, pure, Except.pure, Except.ok.injEq, List.forall_mem_cons,
          List.map_cons]
        rw [rowEq, othersEq]
        exact ⟨fun eq => ⟨⟨valid, all⟩, eq.symm⟩, fun h => h.2.symm⟩

section Snapshot
variable [LinearOrder T]

def resorted (jobs : Jobs T) : Jobs T :=
  ⟨sortedJobs jobs.rows, ((sortedJobs_perm jobs.rows).map VoiceJob.id).nodup_iff.mpr jobs.nodup⟩

@[simp] theorem get?_resorted (jobs : Jobs T) (id : String) :
    (resorted jobs).get? id = jobs.get? id :=
  Table.get?_congr (sortedJobs_perm jobs.rows) id

def AllSpeakersValid (cfg : Settings T) (jobs : Jobs T) : Prop :=
  ∀ job ∈ jobs.rows, SpeakersValid cfg.py job

def snapshotOf (jobs : Jobs T) : Json T := .arr ((sortedJobs jobs.rows).map encodedRow)

theorem encodeSnapshot_eq_ok_iff {cfg : Settings T} {jobs : Jobs T} {snapshot : Json T} :
    encodeSnapshot cfg jobs = .ok snapshot ↔
      AllSpeakersValid cfg jobs ∧ snapshot = snapshotOf jobs := by
  have sameRows : (∀ job ∈ sortedJobs jobs.rows, SpeakersValid cfg.py job) ↔
      AllSpeakersValid cfg jobs := by
    simp only [AllSpeakersValid, (sortedJobs_perm jobs.rows).mem_iff]
  simp only [encodeSnapshot]
  cases items : (sortedJobs jobs.rows).mapM (encodeJob cfg.py) with
  | error message =>
    have stuck : ¬ AllSpeakersValid cfg jobs := fun all => by
      have := mapM_encodeJob_eq_ok_iff.mpr ⟨sameRows.mpr all, rfl⟩
      simp [items] at this
    simp [bind, Except.bind, stuck]
  | ok rows =>
    obtain ⟨all, eq⟩ := mapM_encodeJob_eq_ok_iff.mp items
    simp only [ok_bind, pure, Except.pure, Except.ok.injEq, snapshotOf, ← eq]
    exact ⟨fun h => ⟨sameRows.mp all, h.symm⟩, fun h => h.2.symm⟩

/-- Disk and memory agree: either nothing was ever loaded or written, or the file
holds the snapshot of exactly the rows in memory and the counter is their maximum. -/
inductive Synced (cfg : Settings T) : Registry T → Prop
  | fresh : Synced cfg .init
  | loaded {s : Registry T} (loaded : s.loaded = true) (valid : AllSpeakersValid cfg s.jobs)
      (disk : s.disk = some (snapshotOf s.jobs))
      (counter : s.deliverySequence = maxSequence s.jobs.rows) : Synced cfg s

theorem Synced.counter_eq {cfg : Settings T} {s : Registry T} (h : Synced cfg s) :
    s.deliverySequence = maxSequence s.jobs.rows := by
  cases h with
  | fresh => rfl
  | loaded _ _ _ counter => exact counter

variable [IntCast T]

theorem decodeRows_map_encodedRow {cfg : Settings T} {rows : List (VoiceJob T)} {jobs : Jobs T}
    (valid : ∀ job ∈ rows, SpeakersValid cfg.py job)
    (nodup : ((jobs.rows ++ rows).map VoiceJob.id).Nodup) :
    decodeRows cfg (rows.map encodedRow) jobs = .ok ⟨jobs.rows ++ rows, nodup⟩ := by
  induction rows generalizing jobs with
  | nil => simp [decodeRows]
  | cons job rest ih =>
    have absent : jobs.get? job.id = none := by
      rw [Table.get?_eq_none_iff]
      intro present
      rw [List.map_append, List.map_cons, List.nodup_append] at nodup
      exact nodup.2.2 _ present _ List.mem_cons_self rfl
    have rowsEq : (jobs.put job).rows = jobs.rows ++ [job] := Table.rows_put_of_none absent
    have nodup' : (((jobs.put job).rows ++ rest).map VoiceJob.id).Nodup := by
      rw [rowsEq, List.append_assoc]
      exact nodup
    rw [List.forall_mem_cons] at valid
    simp only [List.map_cons, decodeRows, encodedRow]
    rw [decodeJob_rowFields cfg.py valid.1, ok_bind]
    simp only [absent, Option.isSome_none, Bool.false_eq_true, if_false]
    rw [ih valid.2 nodup']
    congr 1
    apply Table.ext
    simp [rowsEq]

theorem decodeSnapshot_snapshotOf {cfg : Settings T} {jobs : Jobs T}
    (valid : AllSpeakersValid cfg jobs) :
    decodeSnapshot cfg (snapshotOf jobs) = .ok (resorted jobs) := by
  have sorted : ∀ job ∈ sortedJobs jobs.rows, SpeakersValid cfg.py job := by
    intro job mem
    exact valid job ((sortedJobs_perm jobs.rows).mem_iff.mp mem)
  have nodup : (((.empty : Jobs T).rows ++ sortedJobs jobs.rows).map VoiceJob.id).Nodup :=
    (resorted jobs).nodup
  exact decodeRows_map_encodedRow sorted nodup

end Snapshot

end Casa.JobSnapshot
