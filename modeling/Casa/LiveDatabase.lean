import Casa.StepRuns
import Mathlib.Logic.Function.Basic
import Mathlib.Tactic.Common

/-! The live service database. A worker thread compiles the source tree, swaps the live link
and reaps the previous database; its caller, which holds `_compile_lock`, may be cancelled while
the thread runs on. -/

namespace Casa.LiveDatabase

open Casa.StepRuns

/-- A compiled database: the one that was live before the first call, whose basename may already
start with `s6-casa-db-`, or the `new_db` of the `n`-th call. -/
inductive Db
  | boot (prefixed : Bool)
  | made (n : ℕ)
  deriving DecidableEq

/-- `os.path.basename(db).startswith("s6-casa-db-")` -/
def Db.prefixed : Db → Bool
  | .boot prefixed => prefixed
  | .made _ => true

/-- Where a worker stands inside `_compile_worker_lock`. -/
inductive Stage
  | entered
  | compiling (began : ℕ)
  | compiled
  | updating
  | swapped
  | discarding
  deriving DecidableEq

/-- The worker inside `_compile_worker_lock`, with its two local names. -/
structure Worker where
  new_db : ℕ
  old_db : Db
  stage : Stage
  deriving DecidableEq

/-- `tree` counts the changes of the source tree, so a compile that began and ended at one
number read one tree; `spans` keeps both numbers of every compile that exited 0. -/
structure State (Caller : Type) where
  lock : Option (Caller × Option ℕ)
  waiting : List ℕ
  worker : Option Worker
  abandoned : ℕ → Bool
  live : Db
  dirs : Db → Bool
  tree : ℕ
  spans : ℕ → Option (ℕ × ℕ)
  next : ℕ

inductive Label (Caller : Type)
  | acquire (c : Caller)
  | mutate (c : Caller)
  | submit (c : Caller) (prunes : Bool)
  | resume (c : Caller) (n : ℕ)
  | cancel (c : Caller) (n : ℕ)
  | release (c : Caller)
  | drop (n : ℕ)
  | enter (n : ℕ)
  | compile
  | compileExit (ok leaves : Bool)
  | check
  | updateExit (ok : Bool)
  | discard
  | reap

variable {Caller : Type}

/-- The thread of call `n` has not returned. -/
def State.Running (s : State Caller) (n : ℕ) : Prop :=
  n ∈ s.waiting ∨ s.worker.map Worker.new_db = some n

instance (s : State Caller) (n : ℕ) : Decidable (s.Running n) :=
  inferInstanceAs (Decidable (_ ∨ _))

theorem State.running_worker {s : State Caller} {w : Worker} (h : s.worker = some w) :
    s.Running w.new_db := .inr (by rw [h, Option.map_some])

section Steps
variable [DecidableEq Caller]

/-- One step of a caller, of the executor or of the worker. A step out of turn is none. -/
def step : Label Caller → State Caller → State Caller
  | .acquire c, s => if s.lock = none then { s with lock := some (c, none) } else s
  | .mutate c, s => if s.lock = some (c, none) then { s with tree := s.tree + 1 } else s
  | .submit c prunes, s =>
      -- `_prune_broken_pairs` is the last change of the tree before the thread
      if s.lock = some (c, none) then
        { s with
          tree := if prunes then s.tree + 1 else s.tree
          lock := some (c, some s.next)
          waiting := s.waiting ++ [s.next]
          next := s.next + 1 }
      else s
  | .resume c n, s =>
      if s.lock = some (c, some n) ∧ ¬ s.Running n then { s with lock := some (c, none) } else s
  | .cancel c n, s =>
      if s.lock = some (c, some n) then
        { s with abandoned := Function.update s.abandoned n true, lock := some (c, none) }
      else s
  | .release c, s => if s.lock = some (c, none) then { s with lock := none } else s
  -- the cancelled future of a thread that has not started; its caller wakes afterwards
  | .drop n, s => { s with waiting := s.waiting.erase n }
  | .enter n, s =>
      if s.worker = none ∧ n ∈ s.waiting then
        { s with waiting := s.waiting.erase n, worker := some ⟨n, s.live, .entered⟩ }
      else s
  | .compile, s =>
      match s.worker with
      | some ⟨n, old, .entered⟩ =>
          { s with
            worker := some ⟨n, old, .compiling s.tree⟩
            dirs := Function.update s.dirs (.made n) true }
      | _ => s
  | .compileExit ok leaves, s =>
      match s.worker with
      | some ⟨n, old, .compiling began⟩ =>
          if ok then
            { s with
              worker := some ⟨n, old, .compiled⟩
              spans := Function.update s.spans n (some (began, s.tree)) }
          else
            { s with
              worker := some ⟨n, old, .discarding⟩
              dirs := Function.update s.dirs (.made n) leaves }
      | _ => s
  | .check, s =>
      match s.worker with
      | some ⟨n, old, .compiled⟩ =>
          { s with worker := some ⟨n, old, if s.abandoned n then .discarding else .updating⟩ }
      | _ => s
  | .updateExit ok, s =>
      match s.worker with
      | some ⟨n, old, .updating⟩ =>
          if ok then { s with live := .made n, worker := some ⟨n, old, .swapped⟩ }
          else { s with worker := some ⟨n, old, .discarding⟩ }
      | _ => s
  | .discard, s =>
      match s.worker with
      | some ⟨n, _, .discarding⟩ =>
          { s with worker := none, dirs := Function.update s.dirs (.made n) false }
      | _ => s
  | .reap, s =>
      match s.worker with
      | some ⟨n, old, .swapped⟩ =>
          { s with
            worker := none
            dirs :=
              if old ≠ .made n ∧ old.prefixed = true then Function.update s.dirs old false
              else s.dirs }
      | _ => s

def State.start (prefixed : Bool) : State Caller :=
  { lock := none, waiting := [], worker := none, abandoned := fun _ => false
    live := .boot prefixed, dirs := fun d => d = .boot prefixed
    tree := 0, spans := fun _ => none, next := 0 }

/-- The state after the steps `ls`. -/
def run (prefixed : Bool) (ls : List (Label Caller)) : State Caller :=
  ls.foldl (fun s l => step l s) (.start prefixed)

end Steps

/-! ### What every step keeps -/

/-- The compile of database `n` exited 0 and read one tree from its beginning to its end. -/
def State.Steady (s : State Caller) (n : ℕ) : Prop := ∃ v, s.spans n = some (v, v)

/-- Nothing exists under the name of call `n`. -/
def State.Unused (s : State Caller) (n : ℕ) : Prop :=
  s.dirs (.made n) = false ∧ s.live ≠ .made n

def State.AtStage (s : State Caller) (w : Worker) : Prop :=
  match w.stage with
  | .entered => s.live = w.old_db ∧ s.dirs (.made w.new_db) = false
  | .compiling began =>
      s.live = w.old_db ∧ s.dirs (.made w.new_db) = true ∧
        (s.abandoned w.new_db = false → began = s.tree)
  | .compiled =>
      s.live = w.old_db ∧ s.dirs (.made w.new_db) = true ∧
        (s.abandoned w.new_db = false → s.Steady w.new_db)
  | .updating => s.live = w.old_db ∧ s.dirs (.made w.new_db) = true ∧ s.Steady w.new_db
  | .swapped => s.live = .made w.new_db
  | .discarding => s.live = w.old_db

/-- Database `n` is the worker's business: its new one, or the one its swap replaced. -/
def Worker.Owns (w : Worker) (n : ℕ) : Prop :=
  w.new_db = n ∨ w.stage = .swapped ∧ w.old_db = .made n

/-- The invariant of the callers and the worker. `awaited` carries it: a thread that is not
abandoned has its caller waiting inside `_compile_lock`, so nobody changes the tree. -/
structure Sound (s : State Caller) : Prop where
  awaited : ∀ n, s.Running n → s.abandoned n = false → ∃ c, s.lock = some (c, some n)
  numbered : ∀ n, s.Running n → n < s.next
  apart : ∀ n ∈ s.waiting, s.worker.map Worker.new_db ≠ some n
  nodup : s.waiting.Nodup
  unused : ∀ n ∈ s.waiting, s.Unused n
  unborn : ∀ n, s.next ≤ n → s.Unused n
  steady : ∀ n, s.live = .made n → s.Steady n
  present : s.dirs s.live = true
  owned : ∀ n, s.dirs (.made n) = true → s.live = .made n ∨ ∃ w, s.worker = some w ∧ w.Owns n
  stage : ∀ w, s.worker = some w → s.AtStage w ∧ w.old_db ≠ .made w.new_db

theorem State.AtStage.keep {s t : State Caller} {w : Worker} (h : s.AtStage w)
    (live : t.live = s.live) (dirs : t.dirs = s.dirs) (spans : t.spans = s.spans)
    (flag : t.abandoned w.new_db = false → s.abandoned w.new_db = false ∧ t.tree = s.tree) :
    t.AtStage w := by
  rcases w with ⟨n, old, stage⟩
  simp only [State.AtStage, State.Steady, live, dirs, spans] at h ⊢
  cases stage with
  | compiling began => exact ⟨h.1, h.2.1, fun up => (flag up).2 ▸ h.2.2 (flag up).1⟩
  | compiled => exact ⟨h.1, h.2.1, fun up => h.2.2 (flag up).1⟩
  | entered => exact h
  | updating => exact h
  | swapped => exact h
  | discarding => exact h

section Invariant
variable {s : State Caller} {c : Caller} {n : ℕ}

section
variable (h : Sound s) (held : ∀ c n, s.lock ≠ some (c, some n))
include h held

theorem Sound.superseded (busy : s.Running n) : s.abandoned n = true := by
  by_contra live
  obtain ⟨c, waits⟩ := h.awaited n busy (by simpa using live)
  exact held c n waits

theorem Sound.relock (lock : Option (Caller × Option ℕ)) : Sound { s with lock := lock } :=
  { h with awaited := fun n busy live => by simp [h.superseded held (n := n) busy] at live }

theorem Sound.change (v : ℕ) : Sound { s with tree := v } := by
  refine { h with stage := fun w inside => ?_ }
  have gone := h.superseded held (s.running_worker inside)
  exact ⟨(h.stage w inside).1.keep rfl rfl rfl fun live => by simp [gone] at live,
    (h.stage w inside).2⟩

end

theorem Sound.submitted (h : Sound s) (held : s.lock = some (c, none)) :
    Sound { s with
      lock := some (c, some s.next), waiting := s.waiting ++ [s.next], next := s.next + 1 } := by
  have idle (n : ℕ) (busy : s.Running n) : s.abandoned n = true :=
    h.superseded (by simp [held]) busy
  have grown {m : ℕ} (busy : m ∈ s.waiting ++ [s.next] ∨ s.worker.map Worker.new_db = some m) :
      s.Running m ∨ m = s.next := by
    simp only [State.Running, List.mem_append, List.mem_singleton] at busy ⊢
    tauto
  refine { h with
    awaited := fun m busy live => ?_
    numbered := fun m busy => ?_
    apart := fun m mem inside => ?_
    nodup := ?_
    unused := fun m mem => ?_
    unborn := fun m le => h.unborn m (Nat.le_of_succ_le le) }
  · rcases grown busy with busy | rfl
    · simp [idle m busy] at live
    · exact ⟨c, rfl⟩
  · rcases grown busy with busy | rfl
    · exact Nat.lt_succ_of_lt (h.numbered m busy)
    · exact Nat.lt_succ_self _
  · rcases List.mem_append.mp mem with mem | last
    · exact h.apart m mem inside
    · have := h.numbered m (.inr inside)
      simp at last
      omega
  · refine List.nodup_append.mpr ⟨h.nodup, by simp, fun a mem b last => ?_⟩
    have := h.numbered a (.inl mem)
    simp at last
    omega
  · rcases List.mem_append.mp mem with mem | last
    · exact h.unused m mem
    · exact h.unborn m (by simp at last; omega)

theorem Sound.dequeue (h : Sound s) : Sound { s with waiting := s.waiting.erase n } := by
  have fewer {m : ℕ} (mem : m ∈ s.waiting.erase n) : m ∈ s.waiting := List.mem_of_mem_erase mem
  exact { h with
    awaited := fun m busy => h.awaited m (busy.imp_left fewer)
    numbered := fun m busy => h.numbered m (busy.imp_left fewer)
    apart := fun m mem => h.apart m (fewer mem)
    nodup := h.nodup.erase n
    unused := fun m mem => h.unused m (fewer mem) }

theorem State.AtStage.live_old {s : State Caller} {w : Worker} (h : s.AtStage w)
    (unswapped : w.stage ≠ .swapped) : s.live = w.old_db := by
  rcases w with ⟨n, old, stage⟩
  cases stage with
  | swapped => exact absurd rfl unswapped
  | compiling began => exact h.1
  | compiled => exact h.1
  | entered => exact h.1
  | updating => exact h.1
  | discarding => exact h

/-- A step of the worker up to its swap: it touches its own database only, and makes it live
only when its compile read one tree. -/
theorem Sound.work (h : Sound s) {old : Db} {before : Stage}
    (inside : s.worker = some ⟨n, old, before⟩) (unswapped : before ≠ .swapped) (after : Stage)
    {live : Db} {dirs : Db → Bool} {spans : ℕ → Option (ℕ × ℕ)}
    (dirs_other : ∀ d, d ≠ .made n → dirs d = s.dirs d)
    (spans_other : ∀ m, m ≠ n → spans m = s.spans m)
    (swap : live = s.live ∨
      live = .made n ∧ dirs (.made n) = true ∧ ∃ v, spans n = some (v, v))
    (at_stage : State.AtStage
      { s with worker := some ⟨n, old, after⟩, live := live, dirs := dirs, spans := spans }
      ⟨n, old, after⟩) :
    Sound
      { s with worker := some ⟨n, old, after⟩, live := live, dirs := dirs, spans := spans } := by
  have same : (some ⟨n, old, after⟩ : Option Worker).map Worker.new_db =
      s.worker.map Worker.new_db := by rw [inside]; rfl
  have other := (h.stage _ inside).2
  have away : s.live ≠ .made n := by
    rw [(h.stage _ inside).1.live_old unswapped]
    exact other
  have elsewhere {m : ℕ} (ne : m ≠ n) (idle : s.Unused m) :
      dirs (.made m) = false ∧ live ≠ .made m := by
    have apart : Db.made m ≠ .made n := by simpa using ne
    refine ⟨by rw [dirs_other _ apart]; exact idle.1, fun now => ?_⟩
    rcases swap with kept | ⟨new, _⟩
    · exact idle.2 (kept ▸ now)
    · exact apart (now.symm.trans new)
  refine { h with
    awaited := fun m busy => h.awaited m (busy.imp_right (same ▸ ·))
    numbered := fun m busy => h.numbered m (busy.imp_right (same ▸ ·))
    apart := fun m mem => by simpa only [same] using h.apart m mem
    unused := fun m mem => elsewhere ?_ (h.unused m mem)
    unborn := fun m (le : s.next ≤ m) => elsewhere ?_ (h.unborn m le)
    steady := fun m now => ?_
    present := ?_
    owned := fun m there => ?_
    stage := ?_ }
  · rintro rfl
    exact h.apart m mem (by rw [inside]; rfl)
  · rintro rfl
    have := h.numbered m (s.running_worker inside)
    exact absurd le (by omega)
  · rcases swap with kept | ⟨new, _, v, span⟩
    · have was : s.live = .made m := kept ▸ now
      obtain ⟨v, span⟩ := h.steady m was
      refine ⟨v, (spans_other m ?_).trans span⟩
      rintro rfl
      exact away was
    · obtain rfl : n = m := by simpa using new.symm.trans now
      exact ⟨v, span⟩
  · change dirs live = true
    rcases swap with kept | ⟨new, there, _⟩
    · rw [kept, dirs_other _ away]
      exact h.present
    · rw [new]
      exact there
  · by_cases own : m = n
    · exact .inr ⟨_, rfl, .inl own.symm⟩
    · have apart : Db.made m ≠ .made n := by simpa using own
      have still : s.dirs (.made m) = true := (dirs_other _ apart).symm.trans there
      rcases h.owned m still with was | ⟨w, here, mine⟩
      · rcases swap with kept | ⟨new, _⟩
        · exact .inl (kept.trans was)
        · -- the swap itself: what was live is what the worker reaps next
          have swapped : after = .swapped := by
            by_contra not_yet
            exact other ((at_stage.live_old not_yet).symm.trans new)
          have snapshot := (h.stage _ inside).1.live_old unswapped
          exact .inr ⟨_, rfl, .inr ⟨swapped, snapshot.symm.trans was⟩⟩
      · obtain rfl := Option.some_inj.mp (inside.symm.trans here)
        rcases mine with mine | ⟨swapped, _⟩
        · exact absurd mine.symm own
        · exact absurd swapped unswapped
  · rintro w ⟨⟩
    exact ⟨at_stage, other⟩

/-- The worker leaves after it removed the one database that is neither live nor anybody
else's. -/
theorem Sound.leave (h : Sound s) {w : Worker} (inside : s.worker = some w)
    {dirs : Db → Bool} (less : ∀ d, dirs d = true → s.dirs d = true)
    (kept : dirs s.live = true) (gone : ∀ m, w.Owns m → dirs (.made m) = true → s.live = .made m) :
    Sound { s with worker := none, dirs := dirs } := by
  have idle {m : ℕ} (unused : s.Unused m) : dirs (.made m) = false ∧ s.live ≠ .made m :=
    ⟨Bool.eq_false_iff.mpr fun there => by simpa [unused.1] using less _ there, unused.2⟩
  have queued {m : ℕ} (busy : m ∈ s.waiting ∨ none = some m) : s.Running m :=
    .inl (busy.resolve_right nofun)
  exact { h with
    awaited := fun m busy => h.awaited m (queued busy)
    numbered := fun m busy => h.numbered m (queued busy)
    apart := fun m mem => nofun
    unused := fun m mem => idle (h.unused m mem)
    unborn := fun m le => idle (h.unborn m le)
    present := kept
    owned := fun m there => by
      rcases h.owned m (less _ there) with live | ⟨v, here, mine⟩
      · exact .inl live
      · obtain rfl := Option.some_inj.mp (inside.symm.trans here)
        exact .inl (gone m mine there)
    stage := fun w => nofun }

theorem sound_start (prefixed : Bool) : Sound (State.start prefixed : State Caller) where
  awaited := by simp [State.start, State.Running]
  numbered := by simp [State.start, State.Running]
  apart := by simp [State.start]
  nodup := List.nodup_nil
  unused := by simp [State.start]
  unborn := by simp [State.start, State.Unused]
  steady := by simp [State.start]
  present := by simp [State.start]
  owned := by simp [State.start]
  stage := by simp [State.start]

end Invariant

/-! ### The steps -/

section Callers
variable [DecidableEq Caller] {s : State Caller} {c : Caller} {n : ℕ}

section
variable (h : Sound s)
include h

theorem Sound.acquire : Sound (step (.acquire c) s) := by
  simp only [step]
  split
  case isFalse => exact h
  case isTrue free => exact h.relock (by simp [free]) _

theorem Sound.release : Sound (step (.release c) s) := by
  simp only [step]
  split
  case isFalse => exact h
  case isTrue held => exact h.relock (by simp [held]) _

theorem Sound.resume : Sound (step (.resume c n) s) := by
  simp only [step]
  split
  case isFalse => exact h
  case isTrue ready =>
    refine { h with awaited := fun m busy live => ?_ }
    obtain ⟨d, waits⟩ := h.awaited m busy live
    have same : c = d ∧ n = m := by simpa [ready.1] using waits
    exact absurd (same.2 ▸ busy) ready.2

theorem Sound.cancel : Sound (step (.cancel c n) s) := by
  simp only [step]
  split
  case isFalse => exact h
  case isTrue held =>
    have flag {m : ℕ} (live : Function.update s.abandoned n true m = false) :
        s.abandoned m = false ∧ m ≠ n := by
      by_cases same : m = n <;> simp_all
    refine { h with awaited := fun m busy live => ?_, stage := fun w inside => ?_ }
    · obtain ⟨d, waits⟩ := h.awaited m busy (flag live).1
      have same : c = d ∧ n = m := by simpa [held] using waits
      exact absurd same.2.symm (flag live).2
    · exact ⟨(h.stage w inside).1.keep rfl rfl rfl fun live => ⟨(flag live).1, rfl⟩,
        (h.stage w inside).2⟩

theorem Sound.mutate : Sound (step (.mutate c) s) := by
  simp only [step]
  split
  case isFalse => exact h
  case isTrue held => exact h.change (by simp [held]) _

theorem Sound.submit (prunes : Bool) : Sound (step (.submit c prunes) s) := by
  simp only [step]
  split
  case isFalse => exact h
  case isTrue held =>
    have changed := h.change (by simp [held]) (if prunes then s.tree + 1 else s.tree)
    exact changed.submitted held

theorem Sound.enter : Sound (step (.enter n) s) := by
  simp only [step]
  split
  case isFalse => exact h
  case isTrue ready =>
    obtain ⟨free, mem⟩ := ready
    have busy {m : ℕ} (busy : m ∈ s.waiting.erase n ∨ some n = some m) : s.Running m := by
      rcases busy with queued | same
      · exact .inl (List.mem_of_mem_erase queued)
      · exact .inl (Option.some_inj.mp same ▸ mem)
    refine { h.dequeue (n := n) with
      awaited := fun m run => h.awaited m (busy run)
      numbered := fun m run => h.numbered m (busy run)
      apart := ?_
      owned := ?_
      stage := ?_ }
    · rintro m queued ⟨⟩
      exact List.Nodup.not_mem_erase h.nodup queued
    · intro m there
      rcases h.owned m there with live | ⟨w, inside, _⟩
      · exact .inl live
      · simp [free] at inside
    · rintro w ⟨⟩
      exact ⟨⟨rfl, (h.unused n mem).1⟩, (h.unused n mem).2⟩

theorem Sound.compile : Sound (step .compile s) := by
  simp only [step]
  split
  case h_2 => exact h
  case h_1 n old inside =>
    obtain ⟨⟨live, _⟩, _⟩ := h.stage _ inside
    refine h.work inside (by simp) _ (fun d ne => Function.update_of_ne ne _ _)
      (fun _ _ => rfl) (.inl rfl) ⟨live, Function.update_self .., fun _ => rfl⟩

theorem Sound.compileExit (ok leaves : Bool) : Sound (step (.compileExit ok leaves) s) := by
  simp only [step]
  split
  case h_2 => exact h
  case h_1 n old began inside =>
    obtain ⟨⟨live, there, read⟩, _⟩ := h.stage _ inside
    cases ok with
    | false =>
      exact h.work inside (by simp) _ (fun d ne => Function.update_of_ne ne _ _)
        (fun _ _ => rfl) (.inl rfl) live
    | true =>
      refine h.work inside (by simp) _ (fun _ _ => rfl)
        (fun m ne => Function.update_of_ne ne _ _) (.inl rfl) ⟨live, there, fun up => ?_⟩
      exact ⟨s.tree, (Function.update_self ..).trans (by rw [read up])⟩

theorem Sound.check : Sound (step .check s) := by
  simp only [step]
  split
  case h_2 => exact h
  case h_1 n old inside =>
    obtain ⟨⟨live, there, read⟩, _⟩ := h.stage _ inside
    refine h.work inside (by simp) _ (fun _ _ => rfl) (fun _ _ => rfl) (.inl rfl) ?_
    cases flag : s.abandoned n with
    | true => exact live
    | false => exact ⟨live, there, read flag⟩

theorem Sound.updateExit (ok : Bool) : Sound (step (.updateExit ok) s) := by
  simp only [step]
  split
  case h_2 => exact h
  case h_1 n old inside =>
    obtain ⟨⟨live, there, read⟩, _⟩ := h.stage _ inside
    cases ok with
    | false =>
      exact h.work inside (by simp) _ (fun _ _ => rfl) (fun _ _ => rfl) (.inl rfl) live
    | true =>
      exact h.work inside (by simp) _ (fun _ _ => rfl) (fun _ _ => rfl)
        (.inr ⟨rfl, there, read⟩) rfl

theorem Sound.discard : Sound (step .discard s) := by
  simp only [step]
  split
  case h_2 => exact h
  case h_1 n old inside =>
    obtain ⟨live, other⟩ := h.stage _ inside
    have away : s.live ≠ .made n := fun now => other (live.symm.trans now)
    refine h.leave inside (fun d there => ?_) ?_ fun m mine there => ?_
    · by_cases own : d = .made n <;> simp_all
    · rw [Function.update_of_ne away]
      exact h.present
    · rcases mine with rfl | ⟨⟨⟩, _⟩
      simp at there

theorem Sound.reap : Sound (step .reap s) := by
  simp only [step]
  split
  case h_2 => exact h
  case h_1 n old inside =>
    obtain ⟨live, other⟩ := h.stage _ inside
    have away : s.live ≠ old := fun now => other (now.symm.trans live)
    refine h.leave inside (fun d there => ?_) ?_ fun m mine there => ?_
    · by_cases own : d = old <;> split at there <;> simp_all
    · split
      · rw [Function.update_of_ne away]
        exact h.present
      · exact h.present
    · rcases mine with rfl | ⟨_, rfl⟩
      · exact live
      · rw [if_pos ⟨other, rfl⟩] at there
        simp at there

end

theorem Sound.step (l : Label Caller) (h : Sound s) : Sound (step l s) := by
  cases l with
  | acquire c => exact h.acquire
  | mutate c => exact h.mutate
  | submit c prunes => exact h.submit prunes
  | resume c n => exact h.resume
  | cancel c n => exact h.cancel
  | release c => exact h.release
  | drop n => exact h.dequeue
  | enter n => exact h.enter
  | compile => exact h.compile
  | compileExit ok leaves => exact h.compileExit ok leaves
  | check => exact h.check
  | updateExit ok => exact h.updateExit ok
  | discard => exact h.discard
  | reap => exact h.reap

theorem sound_run (prefixed : Bool) (ls : List (Label Caller)) : Sound (run prefixed ls) := by
  have taken := @Runs.foldl _ _ LiveDatabase.step (fun _ _ => True) ls (fun _ _ _ => trivial) (.start prefixed)
  exact taken.invariant (fun l _ _ h => h.step l) (sound_start prefixed)

/-- Whatever is cancelled and whatever fails: the live database was compiled from one tree, its
directory is there, and with no worker inside it is the only one this process made. -/
theorem live_database_kept (prefixed : Bool) (ls : List (Label Caller)) :
    (∀ n, (run prefixed ls).live = .made n →
      ∃ v, (run prefixed ls).spans n = some (v, v)) ∧
    (run prefixed ls).dirs (run prefixed ls).live = true ∧
    ((run prefixed ls).worker = none →
      ∀ n, (run prefixed ls).dirs (.made n) = true → (run prefixed ls).live = .made n) := by
  have h := sound_run prefixed ls
  refine ⟨h.steady, h.present, fun idle n there => ?_⟩
  rcases h.owned n there with live | ⟨w, inside, _⟩
  · exact live
  · simp [idle] at inside

/-- A caller cancelled during its compile, its successor, and the abandoned worker between
them: the first database is discarded, the second goes live. -/
example :
    let s : State ℕ := run false
      [.acquire 0, .submit 0 false, .enter 0, .compile, .cancel 0 0, .release 0, .acquire 1,
        .mutate 1, .submit 1 true, .compileExit true true, .check, .discard, .enter 1, .compile,
        .compileExit true true, .check, .updateExit true, .reap, .resume 1 1, .release 1]
    s.live = .made 1 ∧ s.dirs (.made 0) = false ∧ s.spans 0 = some (0, 2) ∧
      s.spans 1 = some (2, 2) := by
  decide

end Callers

end Casa.LiveDatabase
