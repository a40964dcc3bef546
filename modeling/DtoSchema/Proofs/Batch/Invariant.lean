import Mathlib
import DtoSchema.Batch

/-!
# What holds at every moment of a batch

The workers of a batch share what they read from, the failure of the batch and the sign that the
batch was given up.  `Follows` says what holds in every state that a schedule can lead to: what a
worker has read is what stands at its path, and whoever was told that the batch was given up came
after a failure.  A worker step changes the stage of one worker, so each step keeps `Follows` by one
lemma about such a change.
-/

namespace DtoSchema.Batch

/-! ### Changes of one worker -/

namespace State

variable {s : State} {i j : ℕ} {path : Text} {stage stage' : Stage} {w : Worker}

/-- A change of stage leaves the other workers alone. -/
lemma getElem?_setStage_of_ne (h : j ≠ i) :
    (s.setStage i stage).workers[j]? = s.workers[j]? := by
  simp [setStage, h.symm]

/-- The worker whose stage was changed. -/
lemma getElem?_setStage_self (h : s.workers[i]? = some ⟨path, stage⟩) :
    (s.setStage i stage').workers[i]? = some ⟨path, stage'⟩ := by
  simp [setStage, h]

/-- The workers after a change of stage are the changed one and the others. -/
lemma eq_or_getElem?_of_setStage (h : s.workers[i]? = some ⟨path, stage⟩)
    (hj : (s.setStage i stage').workers[j]? = some w) :
    (j = i ∧ w = ⟨path, stage'⟩) ∨ (j ≠ i ∧ s.workers[j]? = some w) := by
  by_cases hji : j = i
  · subst hji
    rw [getElem?_setStage_self h] at hj
    exact .inl ⟨rfl, (Option.some.inj hj).symm⟩
  · rw [getElem?_setStage_of_ne hji] at hj
    exact .inr ⟨hji, hj⟩

/-- A change of stage keeps the paths. -/
lemma map_path_setStage : (s.setStage i stage).workers.map (·.path) = s.workers.map (·.path) := by
  apply List.ext_getElem?
  intro j
  by_cases hji : j = i
  · subst hji
    cases hj : s.workers[j]? <;> simp [setStage, hj]
  · rw [List.getElem?_map, List.getElem?_map, getElem?_setStage_of_ne hji]

end State

/-! ### What holds in every state -/

/-- The worker has not read its input yet. -/
def Stage.isUnread : Stage → Bool
  | queued | started | cleared => true
  | loaded _ | failing _ | finished _ | failed => false

/-- What a worker knows is true: what it has read stands at its path, and if it was told that the
batch was given up, the batch has a failure. -/
def Stage.IsTrue (options : Options) (content : Except FileError Text) (path : Text)
    (failure : Option Failure) : Stage → Prop
  | queued | started | cleared => True
  | loaded source => content = .ok source
  | failing f => (∃ e, content = .error e ∧ f = .unreadable path e) ∨
      (f = .cancelled ∧ failure.isSome)
  | finished job => ∃ source, content = .ok source ∧ job = ⟨path, source, convert options source⟩
  | failed => failure.isSome

/-- What is true stays true when a failure is handed in. -/
lemma Stage.IsTrue.or {options : Options} {content : Except FileError Text} {path : Text}
    {failure : Option Failure} {stage : Stage} (h : stage.IsTrue options content path failure)
    (f : Failure) : stage.IsTrue options content path (failure.or (some f)) := by
  have hsome : (failure.or (some f)).isSome := by simp
  cases stage with
  | failing g => exact h.imp_right fun hg => ⟨hg.1, hsome⟩
  | failed => exact hsome
  | _ => exact h

/-- A state that a batch can come to, whatever its schedule is. -/
structure Follows (options : Options) (sources : Sources) (paths : List Text) (s : State) :
    Prop where
  /-- The workers are those of the paths. -/
  paths_eq : s.workers.map (·.path) = paths
  /-- The options stay. -/
  options_eq : s.options = options
  /-- There is a place for a worker. -/
  limit : 0 < s.limit
  /-- Nobody gave the batch up from outside. -/
  cancelled : s.cancelled = false
  /-- The files stay. -/
  file_eq : s.sources.file = sources.file
  /-- The standard input is there for the worker that has to read it. -/
  input : ∀ (i : ℕ) w, s.workers[i]? = some w → w.path = standardInput → w.stage.isUnread →
    s.sources.input = sources.input
  /-- What the workers know is true. -/
  stages : ∀ (i : ℕ) w, s.workers[i]? = some w →
    w.stage.IsTrue options (sources.content w.path) w.path s.failure
  /-- The failure is that of an input that cannot be read. -/
  failure : ∀ f, s.failure = some f →
    ∃ p ∈ paths, ∃ e, sources.content p = .error e ∧ f = .unreadable p e
  /-- The batch is given up only because of a failure. -/
  abandoned : s.abandoned → s.failure.isSome

namespace Follows

variable {options : Options} {sources : Sources} {paths : List Text} {s : State} {i : ℕ}
  {path : Text} {stage stage' : Stage}

/-- The paths of the workers. -/
lemma getElem?_paths (h : Follows options sources paths s)
    (hi : s.workers[i]? = some ⟨path, stage⟩) : paths[i]? = some path := by
  rw [← h.paths_eq, List.getElem?_map, hi]
  rfl

/-- A worker that has not read its input finds there what stands at its path. -/
lemma content_eq (h : Follows options sources paths s) (hi : s.workers[i]? = some ⟨path, stage⟩)
    (hunread : stage.isUnread) : s.sources.content path = sources.content path := by
  unfold Sources.content
  split
  case isTrue hpath => exact h.input i _ hi hpath hunread
  case isFalse => rw [h.file_eq]

/-- A worker goes on to a stage at which it knows nothing wrong, and does not forget that it has
read its input. -/
lemma setStage (h : Follows options sources paths s) (hi : s.workers[i]? = some ⟨path, stage⟩)
    (hunread : stage'.isUnread → stage.isUnread)
    (htrue : stage'.IsTrue options (sources.content path) path s.failure) :
    Follows options sources paths (s.setStage i stage') where
  paths_eq := State.map_path_setStage.trans h.paths_eq
  options_eq := h.options_eq
  limit := h.limit
  cancelled := h.cancelled
  file_eq := h.file_eq
  input := by
    intro j w hj hpath hw
    rcases State.eq_or_getElem?_of_setStage hi hj with ⟨-, rfl⟩ | ⟨-, hj'⟩
    · exact h.input i _ hi hpath (hunread hw)
    · exact h.input j w hj' hpath hw
  stages := by
    intro j w hj
    rcases State.eq_or_getElem?_of_setStage hi hj with ⟨-, rfl⟩ | ⟨-, hj'⟩
    · exact htrue
    · exact h.stages j w hj'
  failure := h.failure
  abandoned := h.abandoned

/-! ### Each step keeps it -/

/-- A batch that has not begun. -/
lemma begin (limit : ℕ) (options : Options) (sources : Sources) (paths : List Text) :
    Follows options sources paths (begin limit options false sources paths) where
  paths_eq := by simp [Batch.begin, Function.comp_def]
  options_eq := rfl
  limit := Nat.lt_of_lt_of_le Nat.one_pos (Nat.le_max_left 1 limit)
  cancelled := rfl
  file_eq := rfl
  input := fun _ _ _ _ _ => rfl
  stages := by
    intro i w hi
    obtain ⟨p, -, rfl⟩ := by simpa [Batch.begin] using hi
    trivial
  failure := by
    intro f hf
    cases hf
  abandoned := by
    intro h
    cases h

lemma start (h : Follows options sources paths s) : Follows options sources paths s.start := by
  unfold State.start
  split
  case h_2 => exact h
  case h_1 i hi =>
    split
    case isFalse => exact h
    case isTrue =>
      obtain ⟨hlt, hqueued, -⟩ := List.findIdx?_eq_some_iff_getElem.mp hi
      have hw : s.workers[i]? = some ⟨s.workers[i].path, s.workers[i].stage⟩ :=
        List.getElem?_eq_getElem hlt
      refine h.setStage hw (fun _ => ?_) trivial
      revert hqueued
      cases s.workers[i].stage <;> simp [Stage.isQueued, Stage.isUnread]

lemma look (h : Follows options sources paths s) (i : ℕ) :
    Follows options sources paths (s.look i) := by
  unfold State.look
  split
  case h_2 => exact h
  case h_1 path hi =>
    refine h.setStage hi (fun _ => rfl) ?_
    split
    case isFalse => trivial
    case isTrue hgiven =>
      -- nobody gave the batch up from outside, so it has a failure
      rw [State.isGivenUp, h.cancelled, Bool.false_or] at hgiven
      exact .inr ⟨rfl, h.abandoned hgiven⟩

/-- A path that stands before another place and at this place is there twice. -/
lemma two_le_count {a : Text} {j : ℕ} (hlt : i < j) (hi : paths[i]? = some a)
    (hj : paths[j]? = some a) : 2 ≤ paths.count a := by
  have hbefore : a ∈ paths.take j := by
    refine List.mem_of_getElem? (i := i) ?_
    rw [List.getElem?_take_of_lt hlt, hi]
  have hafter : a ∈ paths.drop j := by
    refine List.mem_of_getElem? (i := 0) ?_
    rw [List.getElem?_drop, Nat.add_zero, hj]
  have hsplit : paths.count a = (paths.take j).count a + (paths.drop j).count a := by
    rw [← List.count_append, List.take_append_drop]
  have hfirst := List.count_pos_iff.mpr hbefore
  have hsecond := List.count_pos_iff.mpr hafter
  omega

/-- A path that is there once stands at one place. -/
lemma eq_of_count_le_one {a : Text} {j : ℕ} (hcount : paths.count a ≤ 1)
    (hi : paths[i]? = some a) (hj : paths[j]? = some a) : i = j := by
  by_contra hne
  rcases Nat.lt_or_gt_of_ne hne with hlt | hlt
  · have htwo := two_le_count hlt hi hj
    omega
  · have htwo := two_le_count hlt hj hi
    omega

lemma read (h : Follows options sources paths s) (hcount : paths.count standardInput ≤ 1) (i : ℕ) :
    Follows options sources paths (s.read i) := by
  unfold State.read
  split
  case h_2 => exact h
  case h_1 path hi =>
    have hcontent := h.content_eq hi rfl
    refine ⟨State.map_path_setStage.trans h.paths_eq, h.options_eq, h.limit, h.cancelled, ?_, ?_,
      ?_, h.failure, h.abandoned⟩
    · simp only [State.setStage, Sources.afterReading]
      split <;> exact h.file_eq
    · intro j w hj hpath hunread
      rcases State.eq_or_getElem?_of_setStage (s := { s with
        sources := s.sources.afterReading path }) hi hj with ⟨-, rfl⟩ | ⟨hne, hj'⟩
      · -- the worker that reads has read its input afterwards
        revert hunread
        simp only
        split <;> simp [Stage.isUnread]
      · -- the other workers have other paths than the standard input, or this one has
        have hother : path ≠ standardInput := by
          rintro rfl
          obtain ⟨path', stage⟩ := w
          obtain rfl : path' = standardInput := hpath
          exact hne (eq_of_count_le_one hcount (h.getElem?_paths hj') (h.getElem?_paths hi))
        simpa [State.setStage, Sources.afterReading, hother] using h.input j w hj' hpath hunread
    · intro j w hj
      rcases State.eq_or_getElem?_of_setStage (s := { s with
        sources := s.sources.afterReading path }) hi hj with ⟨-, rfl⟩ | ⟨-, hj'⟩
      · simp only
        rw [hcontent]
        cases hc : sources.content path with
        | ok source => rfl
        | error e => exact .inl ⟨e, rfl, rfl⟩
      · exact h.stages j w hj'

lemma work (h : Follows options sources paths s) (i : ℕ) :
    Follows options sources paths (s.work i) := by
  unfold State.work
  split
  case h_2 => exact h
  case h_1 path source hi =>
    refine h.setStage hi (fun hunread => nomatch hunread) ⟨source, h.stages i _ hi, ?_⟩
    rw [h.options_eq]

/-- A failure that is handed in is that of an input that cannot be read, or not the first one. -/
lemma fail (h : Follows options sources paths s) (i : ℕ) :
    Follows options sources paths (s.fail i) := by
  unfold State.fail
  split
  case h_2 => exact h
  case h_1 path f hi =>
    have hfailed : Follows options sources paths
        { s with failure := s.failure.or (some f) } := by
      refine ⟨h.paths_eq, h.options_eq, h.limit, h.cancelled, h.file_eq, h.input,
        fun j w hj => (h.stages j w hj).or f, ?_, fun _ => by simp⟩
      intro g hg
      cases hs : s.failure with
      | some first =>
        obtain rfl : first = g := by simpa [hs] using hg
        exact h.failure first hs
      | none =>
        obtain rfl : f = g := by simpa [hs] using hg
        rcases h.stages i _ hi with ⟨e, he, hf⟩ | ⟨-, hsome⟩
        · exact ⟨path, List.mem_of_getElem? (h.getElem?_paths hi), e, he, hf⟩
        · simp [hs] at hsome
    exact hfailed.setStage hi (fun hunread => nomatch hunread) (by simp [Stage.IsTrue])

lemma abandon (h : Follows options sources paths s) : Follows options sources paths s.abandon where
  paths_eq := h.paths_eq
  options_eq := h.options_eq
  limit := h.limit
  cancelled := h.cancelled
  file_eq := h.file_eq
  input := h.input
  stages := h.stages
  failure := h.failure
  abandoned := by
    intro hs
    rcases Bool.or_eq_true _ _ ▸ hs with hs | hs
    · exact h.abandoned hs
    · exact hs

/-- Every step keeps it. -/
lemma step (h : Follows options sources paths s) (hcount : paths.count standardInput ≤ 1)
    (x : Step) : Follows options sources paths (s.step x) := by
  cases x with
  | start => exact h.start
  | look i => exact h.look i
  | read i => exact h.read hcount i
  | work i => exact h.work i
  | fail i => exact h.fail i
  | abandon => exact h.abandon

/-- Every schedule keeps it. -/
lemma run (h : Follows options sources paths s) (hcount : paths.count standardInput ≤ 1)
    (schedule : List Step) : Follows options sources paths (s.run schedule) := by
  induction schedule generalizing s with
  | nil => exact h
  | cons x schedule ih => exact ih (h.step hcount x)

end Follows

end DtoSchema.Batch
