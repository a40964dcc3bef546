import DtoSchema.Proofs.Batch.Invariant

/-!
# A batch does not depend on its schedule

When all workers have ended, what a batch comes to can be read off the stages of its workers, and
these are known to be true (`Follows`).  So every schedule that ends all workers gives the same
jobs, or a failure for the same reason.

There always is such a schedule: a worker that is under way can take the step of its stage, and if
no worker is under way the next one can start.  Each of these steps brings a worker nearer to its
end.
-/

namespace DtoSchema.Batch

/-! ### What a batch has to come to -/

/-- What a batch has to come to, given what can be read at its paths. -/
structure IsResult (options : Options) (sources : Sources) (paths : List Text)
    (result : Except Failure (List Job)) : Prop where
  /-- It comes to jobs exactly if all inputs can be read. -/
  succeeds : (∃ jobs, result = .ok jobs) ↔ ∀ p ∈ paths, ∃ source, sources.content p = .ok source
  /-- There is one job for each path, in the same order, and it is the conversion of what stands
  there. -/
  jobs : ∀ jobs, result = .ok jobs →
    List.Forall₂ (fun p job => ∃ source,
      sources.content p = .ok source ∧ job = ⟨p, source, convert options source⟩) paths jobs
  /-- A failure is that of reading one of the inputs that cannot be read. -/
  failure : ∀ f, result = .error f →
    ∃ p ∈ paths, ∃ e, sources.content p = .error e ∧ f = .unreadable p e

/-! ### What a batch comes to when all workers have ended -/

namespace Follows

variable {options : Options} {sources : Sources} {paths : List Text} {s : State}

/-- A worker that has ended has a job, or the batch has a failure. -/
lemma job_of_isEnded (h : Follows options sources paths s) (hnone : s.failure = none) {w : Worker}
    (hw : w ∈ s.workers) (hended : w.stage.isEnded) :
    ∃ job, w.stage.job? = some job ∧ ∃ source,
      sources.content w.path = .ok source ∧ job = ⟨w.path, source, convert options source⟩ := by
  obtain ⟨i, hi⟩ := List.mem_iff_getElem?.mp hw
  have htrue := h.stages i w hi
  obtain ⟨path, stage⟩ := w
  cases stage with
  | finished job => exact ⟨job, rfl, htrue⟩
  | failed => simp [Stage.IsTrue, hnone] at htrue
  | _ => cases hended

/-- Without a failure there is a job for each worker. -/
lemma forall₂_jobs (h : Follows options sources paths s) (hnone : s.failure = none)
    (hcomplete : s.isComplete) :
    List.Forall₂ (fun p job => ∃ source,
      sources.content p = .ok source ∧ job = ⟨p, source, convert options source⟩)
      paths (s.workers.filterMap (·.stage.job?)) := by
  have hjobs := fun w hw => h.job_of_isEnded hnone (w := w) hw (List.all_eq_true.mp hcomplete w hw)
  rw [← h.paths_eq]
  generalize s.workers = workers at hjobs
  induction workers with
  | nil => exact .nil
  | cons w workers ih =>
    obtain ⟨⟨job, hjob, hsource⟩, hworkers⟩ := List.forall_mem_cons.mp hjobs
    have hcons : (w :: workers).filterMap (·.stage.job?) =
        job :: workers.filterMap (·.stage.job?) := List.filterMap_cons_some hjob
    rw [hcons]
    exact .cons hsource (ih hworkers)

/-- What a batch comes to when all workers have ended. -/
lemma isResult (h : Follows options sources paths s) (hcomplete : s.isComplete) :
    IsResult options sources paths s.result := by
  unfold State.result
  split
  case h_1 f hf =>
    obtain ⟨p, hp, e, he, rfl⟩ := h.failure f hf
    refine ⟨⟨?_, fun hall => ?_⟩, ?_, ?_⟩
    · rintro ⟨jobs, ⟨⟩⟩
    · obtain ⟨source, hsource⟩ := hall p hp
      simp [he] at hsource
    · rintro jobs ⟨⟩
    · rintro f' ⟨⟩
      exact ⟨p, hp, e, he, rfl⟩
  case h_2 hnone =>
    have hjobs := h.forall₂_jobs hnone hcomplete
    refine ⟨⟨fun _ p hp => ?_, fun _ => ⟨_, rfl⟩⟩, ?_, ?_⟩
    · obtain ⟨i, hi⟩ := List.mem_iff_getElem?.mp hp
      obtain ⟨hlt, rfl⟩ := List.getElem?_eq_some_iff.mp hi
      obtain ⟨source, hsource, -⟩ := hjobs.get hlt (hjobs.length_eq ▸ hlt)
      exact ⟨source, hsource⟩
    · rintro jobs ⟨⟩
      exact hjobs
    · rintro f ⟨⟩

end Follows

/-! ### Every schedule can be continued to the end -/

/-- The number of steps that a worker still needs at most. -/
def Stage.distance : Stage → ℕ
  | queued => 4
  | started => 3
  | cleared => 2
  | loaded _ | failing _ => 1
  | finished _ | failed => 0

namespace State

variable {s : State} {i : ℕ} {path : Text} {stage stage' : Stage}

/-- The number of steps that the workers still need at most. -/
def distance (s : State) : ℕ := (s.workers.map (·.stage.distance)).sum

/-- A change of one worker for the better is one of the batch. -/
lemma distance_setStage_lt (hi : s.workers[i]? = some ⟨path, stage⟩)
    (hlt : stage'.distance < stage.distance) : (s.setStage i stage').distance < s.distance := by
  unfold distance setStage
  simp only
  generalize s.workers = workers at hi
  induction workers generalizing i with
  | nil => simp at hi
  | cons w workers ih =>
    cases i with
    | zero =>
      obtain rfl : w = ⟨path, stage⟩ := by simpa using hi
      simpa using hlt
    | succ i => simpa using ih (by simpa using hi)

/-- A worker that is under way can take a step. -/
lemma exists_step_of_isActive (hi : s.workers[i]? = some ⟨path, stage⟩) (hactive : stage.isActive) :
    ∃ x, (s.step x).distance < s.distance := by
  cases stage with
  | started =>
    refine ⟨.look i, ?_⟩
    simp only [step, look, hi]
    refine distance_setStage_lt hi ?_
    split <;> decide
  | cleared =>
    refine ⟨.read i, ?_⟩
    simp only [step, read, hi]
    refine distance_setStage_lt (s := { s with sources := s.sources.afterReading path }) hi ?_
    split <;> exact Nat.one_lt_two
  | loaded source =>
    refine ⟨.work i, ?_⟩
    simp only [step, work, hi]
    exact distance_setStage_lt hi Nat.one_pos
  | failing f =>
    refine ⟨.fail i, ?_⟩
    simp only [step, fail, hi]
    exact distance_setStage_lt (s := { s with failure := s.failure.or (some f) }) hi Nat.one_pos
  | _ => cases hactive

/-- The next worker can start if no worker is under way. -/
lemma start_eq_setStage (hlimit : 0 < s.limit) (hidle : ∀ w ∈ s.workers, w.stage.isActive = false)
    (hi : s.workers.findIdx? (·.stage.isQueued) = some i) : s.start = s.setStage i .started := by
  have hcount : s.workers.countP (·.stage.isActive) = 0 :=
    List.countP_eq_zero.mpr fun w hw => by simp [hidle w hw]
  simp only [start, hi, hcount, if_pos hlimit]

/-- A batch whose workers have not all ended can take a step. -/
lemma exists_step (hlimit : 0 < s.limit) (hcomplete : ¬ s.isComplete) :
    ∃ x, (s.step x).distance < s.distance := by
  by_cases hidle : ∀ w ∈ s.workers, w.stage.isActive = false
  · obtain ⟨w, hw, hended⟩ : ∃ w ∈ s.workers, w.stage.isEnded = false := by
      simpa [isComplete] using hcomplete
    have hqueued : w.stage.isQueued := by
      have hw' := hidle w hw
      revert hw' hended
      cases w.stage <;> simp [Stage.isQueued, Stage.isActive, Stage.isEnded]
    have hany : s.workers.any (·.stage.isQueued) := List.any_eq_true.mpr ⟨w, hw, hqueued⟩
    obtain ⟨i, hi⟩ := Option.isSome_iff_exists.mp (List.findIdx?_isSome.trans hany)
    obtain ⟨hlt, hfound, -⟩ := List.findIdx?_eq_some_iff_getElem.mp hi
    refine ⟨.start, ?_⟩
    rw [step, start_eq_setStage hlimit hidle hi]
    refine distance_setStage_lt (List.getElem?_eq_getElem hlt) ?_
    revert hfound
    cases s.workers[i].stage <;> simp [Stage.isQueued, Stage.distance]
  · push Not at hidle
    obtain ⟨w, hw, hactive⟩ := hidle
    obtain ⟨i, hi⟩ := List.mem_iff_getElem?.mp hw
    obtain ⟨path, stage⟩ := w
    exact exists_step_of_isActive hi (by simpa using hactive)

/-- The steps of one schedule and then those of another one. -/
lemma run_append (xs ys : List Step) : s.run (xs ++ ys) = (s.run xs).run ys := List.foldl_append

end State

/-- Every schedule can be continued until all workers have ended. -/
lemma Follows.exists_isComplete {options : Options} {sources : Sources} {paths : List Text}
    {s : State} (hcount : paths.count standardInput ≤ 1) (h : Follows options sources paths s) :
    ∃ rest, (s.run rest).isComplete := by
  -- by induction on the number of steps that are still needed
  induction hn : s.distance using Nat.strongRecOn generalizing s with
  | ind n ih =>
    by_cases hcomplete : s.isComplete
    · exact ⟨[], hcomplete⟩
    · obtain ⟨x, hx⟩ := State.exists_step h.limit hcomplete
      obtain ⟨rest, hrest⟩ := ih _ (hn ▸ hx) (h.step hcount x) rfl
      exact ⟨x :: rest, hrest⟩

/-! ### Workers that take turns -/

namespace State

variable {s s' s'' : State} {i k : ℕ} {path : Text} {stage : Stage}

/-- The second state has the same workers as the first one, except that one of them may be at
another stage. -/
structure LeavesOthers (i : ℕ) (s s' : State) : Prop where
  limit : s'.limit = s.limit
  length : s'.workers.length = s.workers.length
  others : ∀ j : ℕ, j ≠ i → s'.workers[j]? = s.workers[j]?

lemma LeavesOthers.refl : LeavesOthers i s s := ⟨rfl, rfl, fun _ _ => rfl⟩

lemma LeavesOthers.trans (h : LeavesOthers i s s') (h' : LeavesOthers i s' s'') :
    LeavesOthers i s s'' :=
  ⟨h'.limit.trans h.limit, h'.length.trans h.length,
    fun j hj => (h'.others j hj).trans (h.others j hj)⟩

lemma leavesOthers_setStage (hlimit : s'.limit = s.limit) (hworkers : s'.workers = s.workers) :
    LeavesOthers i s (s'.setStage i stage) where
  limit := hlimit
  length := by simp [setStage, hworkers]
  others := fun j hj => by rw [getElem?_setStage_of_ne hj, hworkers]

lemma leavesOthers_look : LeavesOthers i s (s.look i) := by
  unfold look
  split
  · exact leavesOthers_setStage rfl rfl
  · exact .refl

lemma leavesOthers_read : LeavesOthers i s (s.read i) := by
  unfold read
  split
  · exact leavesOthers_setStage rfl rfl
  · exact .refl

lemma leavesOthers_work : LeavesOthers i s (s.work i) := by
  unfold work
  split
  · exact leavesOthers_setStage rfl rfl
  · exact .refl

lemma leavesOthers_fail : LeavesOthers i s (s.fail i) := by
  unfold fail
  split
  · exact leavesOthers_setStage rfl rfl
  · exact .refl

/-- A worker that has failed ends by handing its failure in, and converts nothing. -/
lemma isEnded_of_failing {f : Failure} (hi : s.workers[i]? = some ⟨path, .failing f⟩) :
    ((s.work i).fail i).workers[i]? = some ⟨path, .failed⟩ := by
  simp only [work, fail, hi]
  exact getElem?_setStage_self (s := { s with failure := s.failure.or (some f) }) hi

/-- A worker that has read its input ends by converting it. -/
lemma isEnded_of_loaded {source : Text} (hi : s.workers[i]? = some ⟨path, .loaded source⟩) :
    ((s.work i).fail i).workers[i]? =
      some ⟨path, .finished ⟨path, source, convert s.options source⟩⟩ := by
  have hwork :
      (s.setStage i (.finished ⟨path, source, convert s.options source⟩)).workers[i]? =
        some ⟨path, .finished ⟨path, source, convert s.options source⟩⟩ :=
    getElem?_setStage_self hi
  simp only [work, fail, hi, hwork]

/-- A worker that has started ends by its steps. -/
lemma isEnded_of_started (hi : s.workers[i]? = some ⟨path, .started⟩) :
    ∃ stage, ((((s.look i).read i).work i).fail i).workers[i]? = some ⟨path, stage⟩ ∧
      stage.isEnded := by
  have hlook : s.look i =
      s.setStage i (if s.isGivenUp then .failing .cancelled else .cleared) := by
    simp only [look, hi]
  rw [hlook]
  split
  case isTrue =>
    have hfailing : (s.setStage i (.failing .cancelled)).workers[i]? =
        some ⟨path, .failing .cancelled⟩ := getElem?_setStage_self hi
    have hread :
        (s.setStage i (.failing .cancelled)).read i = s.setStage i (.failing .cancelled) := by
      simp only [read, hfailing]
    rw [hread]
    exact ⟨_, isEnded_of_failing hfailing, rfl⟩
  case isFalse =>
    set t := s.setStage i .cleared
    have hcleared : t.workers[i]? = some ⟨path, .cleared⟩ := getElem?_setStage_self hi
    cases hc : t.sources.content path with
    | ok source =>
      have hread : (t.read i).workers[i]? = some ⟨path, .loaded source⟩ := by
        simp only [read, hcleared, hc]
        exact getElem?_setStage_self (s := { t with sources := _ }) hcleared
      exact ⟨_, isEnded_of_loaded hread, rfl⟩
    | error e =>
      have hread : (t.read i).workers[i]? = some ⟨path, .failing (.unreadable path e)⟩ := by
        simp only [read, hcleared, hc]
        exact getElem?_setStage_self (s := { t with sources := _ }) hcleared
      exact ⟨_, isEnded_of_failing hread, rfl⟩

/-- Some workers have ended, and those behind them have not started. -/
structure IsBetweenTurns (k : ℕ) (s : State) : Prop where
  limit : 0 < s.limit
  ended : ∀ (j : ℕ) w, s.workers[j]? = some w → j < k → w.stage.isEnded
  queued : ∀ (j : ℕ) w, s.workers[j]? = some w → k ≤ j → w.stage = .queued

/-- Between turns no worker is under way. -/
lemma IsBetweenTurns.idle (h : IsBetweenTurns k s) : ∀ w ∈ s.workers, w.stage.isActive = false := by
  intro w hw
  obtain ⟨j, hj⟩ := List.mem_iff_getElem?.mp hw
  rcases Nat.lt_or_ge j k with hlt | hge
  · have hended := h.ended j w hj hlt
    revert hended
    cases w.stage <;> simp [Stage.isEnded, Stage.isActive]
  · rw [h.queued j w hj hge]
    rfl

/-- Between turns the next worker is the first one that has not started. -/
lemma IsBetweenTurns.findIdx? (h : IsBetweenTurns k s) (hk : k < s.workers.length) :
    s.workers.findIdx? (·.stage.isQueued) = some k := by
  rw [List.findIdx?_eq_some_iff_getElem]
  refine ⟨hk, ?_, fun j hj => ?_⟩
  · rw [h.queued k _ (List.getElem?_eq_getElem hk) le_rfl]
    rfl
  · have hended := h.ended j _ (List.getElem?_eq_getElem (hj.trans hk)) hj
    revert hended
    cases s.workers[j].stage <;> simp [Stage.isEnded, Stage.isQueued]

/-- The next worker takes its turn. -/
lemma IsBetweenTurns.turn (h : IsBetweenTurns k s) (hk : k < s.workers.length) :
    IsBetweenTurns (k + 1) (s.run (turn k)) ∧
      (s.run (turn k)).workers.length = s.workers.length := by
  have hrun : s.run (Batch.turn k) =
      (((((s.setStage k .started).look k).read k).work k).fail k).abandon := by
    rw [← start_eq_setStage h.limit h.idle (h.findIdx? hk)]
    rfl
  have hstarted : (s.setStage k .started).workers[k]? = some ⟨s.workers[k].path, .started⟩ :=
    getElem?_setStage_self (List.getElem?_eq_getElem hk)
  obtain ⟨stage, hstage, hended⟩ := isEnded_of_started hstarted
  have hothers : LeavesOthers k s
      (((((s.setStage k .started).look k).read k).work k).fail k) :=
    (((leavesOthers_setStage rfl rfl).trans leavesOthers_look).trans
      leavesOthers_read).trans leavesOthers_work |>.trans leavesOthers_fail
  rw [hrun]
  refine ⟨⟨hothers.limit ▸ h.limit, fun j w hj hlt => ?_, fun j w hj hge => ?_⟩, hothers.length⟩
  · by_cases hjk : j = k
    · subst hjk
      obtain rfl : w = _ := (Option.some.inj (hstage.symm.trans hj)).symm
      exact hended
    · exact h.ended j w ((hothers.others j hjk).symm.trans hj) (by omega)
  · have hjk : j ≠ k := by omega
    exact h.queued j w ((hothers.others j hjk).symm.trans hj) (by omega)

end State

/-- When the workers take turns, they all end. -/
lemma isComplete_turns (limit : ℕ) (options : Options) (cancelled : Bool) (sources : Sources)
    (paths : List Text) :
    ((begin limit options cancelled sources paths).run
      ((List.range paths.length).flatMap turn)).isComplete := by
  set s := begin limit options cancelled sources paths
  have hlength : s.workers.length = paths.length := List.length_map _
  have hturns : ∀ k ≤ paths.length, (s.run ((List.range k).flatMap turn)).IsBetweenTurns k ∧
      (s.run ((List.range k).flatMap turn)).workers.length = paths.length := by
    intro k hk
    induction k with
    | zero =>
      refine ⟨⟨?_, fun j w _ hlt => absurd hlt (Nat.not_lt_zero j), fun j w hj _ => ?_⟩, hlength⟩
      · exact Nat.lt_of_lt_of_le Nat.one_pos (Nat.le_max_left 1 limit)
      · obtain ⟨p, -, rfl⟩ := by simpa [s, begin, State.run] using hj
        rfl
    | succ k ih =>
      obtain ⟨hbetween, hsame⟩ := ih (Nat.le_of_succ_le hk)
      have hnext := hbetween.turn (by omega)
      rw [List.range_succ, List.flatMap_append, State.run_append]
      simp only [List.flatMap_cons, List.flatMap_nil, List.append_nil]
      exact ⟨hnext.1, hnext.2.trans hsame⟩
  obtain ⟨hbetween, hsame⟩ := hturns paths.length le_rfl
  refine List.all_eq_true.mpr fun w hw => ?_
  obtain ⟨j, hj⟩ := List.mem_iff_getElem?.mp hw
  obtain ⟨hlt, -⟩ := List.getElem?_eq_some_iff.mp hj
  exact hbetween.ended j w hj (hsame ▸ hlt)

/-- What a batch comes to when its workers take turns. -/
lemma isResult_convertAll {paths : List Text} (hcount : paths.count standardInput ≤ 1) (limit : ℕ)
    (options : Options) (sources : Sources) :
    IsResult options sources paths (convertAll limit options false sources paths) :=
  ((Follows.begin limit options sources paths).run hcount _).isResult
    (isComplete_turns limit options false sources paths)

/-! ### Every schedule -/

/-- A batch does not depend on its schedule.  Let the paths hold the standard input at most once,
let nobody give the batch up from outside, and let the workers take their steps in any order.  Then
the schedule can be continued until all workers have ended.  When they have, the batch comes to jobs
exactly if all inputs can be read; there is one job for each path, in the order of the paths, and it
is the conversion of what stands there; and a failure is that of reading one of the inputs that
cannot be read, never that the batch was given up.  Workers that take turns are a case of this. -/
theorem isResult_of_isComplete {paths : List Text} (hcount : paths.count standardInput ≤ 1)
    (limit : ℕ) (options : Options) (sources : Sources) (schedule : List Step) :
    let s := (begin limit options false sources paths).run schedule
    (∃ rest, (s.run rest).isComplete) ∧
      (s.isComplete → IsResult options sources paths s.result) ∧
      IsResult options sources paths (convertAll limit options false sources paths) := by
  intro s
  have hfollows : Follows options sources paths s :=
    (Follows.begin limit options sources paths).run hcount schedule
  exact ⟨hfollows.exists_isComplete hcount, hfollows.isResult,
    isResult_convertAll hcount limit options sources⟩

/-- Three inputs, of which the second one cannot be read.  The third worker starts after the failure
of the second one, is told that the batch was given up, and hands this in, while the first worker
still reads the standard input.  The failure of the batch is that of reading. -/
theorem isResult_of_isComplete_given_up :
    let sources : Sources :=
      { Sources.withFile {} "c.kt" (.ok "class C") with input := .ok "class A" }
    let s := (begin 2 {} false sources ["-", "b.kt", "c.kt"]).run
      [.start, .start, .look 1, .look 0, .read 1, .fail 1, .start, .abandon, .look 2, .fail 2,
        .read 0, .work 0]
    s.isComplete ∧ s.result = .error (.unreadable "b.kt" ⟨"open", "b.kt", .notFound⟩) := by
  intro sources s
  have hcomplete : s.isComplete := by decide +kernel
  have hcount : List.count standardInput ["-", "b.kt", "c.kt"] ≤ 1 := by decide
  obtain ⟨-, hresult, -⟩ := isResult_of_isComplete hcount 2 {} sources
    [.start, .start, .look 1, .look 0, .read 1, .fail 1, .start, .abandon, .look 2, .fail 2,
      .read 0, .work 0]
  have hfirst : sources.content "-" = .ok "class A" := rfl
  have hsecond : sources.content "b.kt" = .error ⟨"open", "b.kt", .notFound⟩ := rfl
  have hthird : sources.content "c.kt" = .ok "class C" := rfl
  refine ⟨hcomplete, ?_⟩
  cases hr : s.result with
  | ok jobs =>
    -- the second input would have been read
    obtain ⟨source, hsource⟩ := (hresult hcomplete).succeeds.mp ⟨jobs, hr⟩ "b.kt" (by simp)
    simp [hsecond] at hsource
  | error f =>
    obtain ⟨p, hp, e, he, rfl⟩ := (hresult hcomplete).failure f hr
    simp only [List.mem_cons, List.not_mem_nil, or_false] at hp
    rcases hp with rfl | rfl | rfl
    · simp [hfirst] at he
    · rw [hsecond] at he
      cases he
      rfl
    · simp [hthird] at he

end DtoSchema.Batch
