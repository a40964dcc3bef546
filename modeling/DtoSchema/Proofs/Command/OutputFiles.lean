import DtoSchema.Proofs.Command.Rejection
import DtoSchema.Proofs.File.Directory

/-!
# The output files of a batch

The jobs of a batch are written to one directory, each to the file of its output name.  An output
name forgets the directory and the extension of its input, so different inputs may have the same
one.  All names are looked at before anything is written: the first input whose name occurred before
is refused together with the one that had it (`collisionAfter?_eq_some`), and the world stays as it
is.  If the names differ, they belong to different places of the directory, so no file is written
twice, and every other file stays (`writeJobs_or_collision`).

That an output name is a proper name needs that its input has one.  This holds since a job comes
from an input that was read (`HasSource`), which is kept by every step of a batch.
-/

namespace DtoSchema

open Text

/-! ### The inputs of jobs -/

namespace Batch

/-- Something can be read at the path: it is that of the standard input or of a file. -/
def Sources.HasSource (sources : Sources) (path : Text) : Prop :=
  path = standardInput ∨ ∃ content, sources.file path = .ok content

/-- What the worker has read or converted stands at its path. -/
def Worker.IsSourced (sources : Sources) (w : Worker) : Prop :=
  match w.stage with
  | .loaded _ => sources.HasSource w.path
  | .finished job => sources.HasSource job.path
  | .queued | .started | .cleared | .failing _ | .failed => True

/-- The files are those of the beginning, and what the workers have read stands there. -/
structure IsSourced (sources : Sources) (s : State) : Prop where
  files : s.sources.file = sources.file
  workers : ∀ w ∈ s.workers, w.IsSourced sources

namespace IsSourced

variable {sources : Sources} {s : State} {i : ℕ} {path : Text} {stage stage' : Stage}

lemma begin (limit : ℕ) (options : Options) (cancelled : Bool) (sources : Sources)
    (paths : List Text) :
    IsSourced sources (Batch.begin limit options cancelled sources paths) where
  files := rfl
  workers := by
    intro w hw
    obtain ⟨p, -, rfl⟩ := List.mem_map.mp hw
    exact trivial

/-- A worker is at another stage. -/
lemma setStage (h : IsSourced sources s) (hi : s.workers[i]? = some ⟨path, stage⟩)
    (hstage : Worker.IsSourced sources ⟨path, stage'⟩) :
    IsSourced sources (s.setStage i stage') where
  files := h.files
  workers := by
    intro w hw
    obtain ⟨j, hj⟩ := List.mem_iff_getElem?.mp hw
    rcases State.eq_or_getElem?_of_setStage hi hj with ⟨-, rfl⟩ | ⟨-, hold⟩
    · exact hstage
    · exact h.workers w (List.mem_of_getElem? hold)

/-- Only the files and the workers matter. -/
lemma congr (h : IsSourced sources s) {s' : State} (hfiles : s'.sources.file = s.sources.file)
    (hworkers : s'.workers = s.workers) : IsSourced sources s' :=
  ⟨hfiles.trans h.files, hworkers ▸ h.workers⟩

lemma start (h : IsSourced sources s) : IsSourced sources s.start := by
  unfold State.start
  split
  · next i hfind =>
    split
    · obtain ⟨hlt, -⟩ := List.findIdx?_eq_some_iff_getElem.mp hfind
      exact h.setStage (List.getElem?_eq_getElem hlt) trivial
    · exact h
  · exact h

lemma look (h : IsSourced sources s) (i : ℕ) : IsSourced sources (s.look i) := by
  unfold State.look
  split
  · next hi =>
    refine h.setStage hi ?_
    split <;> exact trivial
  · exact h

/-- What a worker reads stands at its path. -/
lemma read (h : IsSourced sources s) (i : ℕ) : IsSourced sources (s.read i) := by
  unfold State.read
  split
  · next path hi =>
    have hfiles : (s.sources.afterReading path).file = s.sources.file := by
      unfold Sources.afterReading
      split <;> rfl
    have hafter : IsSourced sources { s with sources := s.sources.afterReading path } :=
      h.congr hfiles rfl
    refine hafter.setStage hi ?_
    cases hcontent : s.sources.content path with
    | error e => exact trivial
    | ok source =>
      by_cases hpath : path = standardInput
      · exact .inl hpath
      · rw [Sources.content, if_neg hpath, h.files] at hcontent
        exact .inr ⟨source, hcontent⟩
  · exact h

lemma work (h : IsSourced sources s) (i : ℕ) : IsSourced sources (s.work i) := by
  unfold State.work
  split
  · next path source hi =>
    have hread : Worker.IsSourced sources ⟨path, .loaded source⟩ :=
      h.workers _ (List.mem_of_getElem? hi)
    exact h.setStage hi hread
  · exact h

lemma fail (h : IsSourced sources s) (i : ℕ) : IsSourced sources (s.fail i) := by
  unfold State.fail
  split
  · next e hi =>
    have hfailure : IsSourced sources { s with failure := s.failure.or (some e) } :=
      h.congr rfl rfl
    exact hfailure.setStage hi trivial
  · exact h

lemma step (h : IsSourced sources s) (x : Step) : IsSourced sources (s.step x) := by
  cases x with
  | start => exact h.start
  | look i => exact h.look i
  | read i => exact h.read i
  | work i => exact h.work i
  | fail i => exact h.fail i
  | abandon => exact h.congr rfl rfl

lemma run (h : IsSourced sources s) (schedule : List Step) :
    IsSourced sources (s.run schedule) := by
  induction schedule generalizing s with
  | nil => exact h
  | cons x schedule ih => exact ih (h.step x)

/-- The jobs that a batch comes to have inputs that can be read. -/
lemma hasSource_of_mem_result (h : IsSourced sources s) {jobs : List Job}
    (hjobs : s.result = .ok jobs) {job : Job} (hjob : job ∈ jobs) : sources.HasSource job.path := by
  unfold State.result at hjobs
  split at hjobs
  · cases hjobs
  · cases hjobs
    obtain ⟨⟨path, stage⟩, hw, hstage⟩ := List.mem_filterMap.mp hjob
    have hsourced := h.workers _ hw
    cases stage with
    | finished job' =>
      obtain rfl := Option.some.inj hstage
      exact hsourced
    | _ => cases hstage

end IsSourced

end Batch

namespace Command

/-- The sources at some paths have the files of the world, and no other ones. -/
lemma file_sourcesAt (world : World) {paths : List Text} {p content : Text}
    (h : ((sourcesAt paths : StateM World Batch.Sources) world).1.file p = .ok content) :
    world.tree.read p = .ok content := by
  induction paths with
  | nil => cases h
  | cons path paths ih =>
    rw [sourcesAt] at h
    split at h
    · exact ih h
    · change (if p = path then world.tree.read path else _) = _ at h
      split at h
      · next hp => rw [hp, h]
      · exact ih h

/-- The input of a job has a name, whatever the schedule of the batch was. -/
lemma names_ne_nil_of_mem_result {limit : ℕ} {options : Options} {cancelled : Bool}
    {paths : List Text} {before : World} {schedule : List Batch.Step} {jobs : List Job}
    (hjobs : ((Batch.begin limit options cancelled
      ((sourcesAt paths : StateM World Batch.Sources) before).1 paths).run schedule).result =
        .ok jobs) {job : Job} (hjob : job ∈ jobs) : Path.names job.path ≠ [] := by
  have hsourced := (Batch.IsSourced.begin limit options cancelled
    ((sourcesAt paths : StateM World Batch.Sources) before).1 paths).run schedule
  rcases hsourced.hasSource_of_mem_result hjobs hjob with hinput | ⟨content, hfile⟩
  · rw [hinput]
    decide
  · exact Tree.names_ne_nil_of_read (file_sourcesAt before hfile)

/-! ### The first collision -/

/-- A collision is the first one: up to its second input all names differ, and the first input is
among those before. -/
lemma collisionAfter?_eq_some {seen paths : List Text} {first second name : Text}
    (hseen : (seen.map outputName).Nodup)
    (h : collisionAfter? seen paths = some (first, second, name)) :
    ∃ j, paths[j]? = some second ∧ first ∈ seen.reverse ++ paths.take j ∧
      outputName first = outputName second ∧ name = outputName second ∧
      ((seen.reverse ++ paths.take j).map outputName).Nodup := by
  induction paths generalizing seen with
  | nil => cases h
  | cons path paths ih =>
    rw [collisionAfter?] at h
    cases hfind : seen.find? (outputName · == outputName path) with
    | some found =>
      simp only [hfind, Option.some.injEq, Prod.mk.injEq] at h
      obtain ⟨rfl, rfl, rfl⟩ := h
      have hmem := List.mem_of_find?_eq_some hfind
      have hname := List.find?_some hfind
      refine ⟨0, rfl, by simpa using hmem, by simpa using hname, rfl, ?_⟩
      simpa [List.nodup_reverse] using hseen
    | none =>
      simp only [hfind] at h
      have hnew : ((path :: seen).map outputName).Nodup := by
        rw [List.find?_eq_none] at hfind
        rw [List.map_cons, List.nodup_cons]
        refine ⟨fun hmem => ?_, hseen⟩
        obtain ⟨q, hq, hname⟩ := List.mem_map.mp hmem
        exact hfind q hq (by simpa using hname)
      obtain ⟨j, hj, hfirst, hsame, hname, hnodup⟩ := ih hnew h
      have hlist : (path :: seen).reverse ++ paths.take j =
          seen.reverse ++ (path :: paths).take (j + 1) := by simp
      rw [hlist] at hfirst hnodup
      exact ⟨j + 1, hj, hfirst, hsame, hname, hnodup⟩

/-- Two jobs of the same output name are refused, the first such ones by name. -/
lemma writeJobs_of_collision (dir : Text) {jobs : List Job} (world : World)
    (h : ¬ (jobs.map (outputName ·.path)).Nodup) :
    ∃ i j first second, i < j ∧ jobs[i]? = some first ∧ jobs[j]? = some second ∧
      outputName first.path = outputName second.path ∧
      ((jobs.take j).map (outputName ·.path)).Nodup ∧
      (writeJobs dir jobs : StateM World (Except OutputError Unit)) world =
        (.error (.collision first.path second.path (outputName second.path)), world) := by
  have hcollision : collision? (jobs.map (·.path)) ≠ none := by
    rwa [Ne, collision?_eq_none_iff, List.map_map]
  obtain ⟨⟨p, q, name⟩, hsome⟩ := Option.ne_none_iff_exists'.mp hcollision
  obtain ⟨j, hj, hfirst, hsame, rfl, hnodup⟩ := collisionAfter?_eq_some (by simp) hsome
  simp only [List.reverse_nil, List.nil_append, ← List.map_take] at hfirst hnodup
  obtain ⟨second, hsecond, rfl⟩ : ∃ second, jobs[j]? = some second ∧ second.path = q := by
    simpa using hj
  obtain ⟨first, htake, rfl⟩ := List.mem_map.mp hfirst
  obtain ⟨i, hi⟩ := List.mem_iff_getElem?.mp htake
  have hlt : i < j := by
    by_contra hle
    simp [hle] at hi
  rw [List.getElem?_take_of_lt hlt] at hi
  refine ⟨i, j, first, second, hlt, hi, hsecond, hsame, by rwa [List.map_map] at hnodup, ?_⟩
  rw [writeJobs, writeOutputs, List.map_map]
  simp only [Function.comp_def, hsome]
  rfl

/-! ### Writing into a directory -/

/-- The tree with files of some names and contents at a place. -/
def filesAt (place : List Text) (files : List (Text × Text)) (t : Tree) : Tree :=
  files.foldl (fun t f => t.put (place ++ [f.1]) (.file f.2)) t

lemma get?_filesAt_of_ne {place ns : List Text} {files : List (Text × Text)}
    (h : ∀ f ∈ files, ns ≠ place ++ [f.1]) (t : Tree) :
    (filesAt place files t).get? ns = t.get? ns := by
  induction files generalizing t with
  | nil => rfl
  | cons f files ih =>
    obtain ⟨hf, hfiles⟩ := List.forall_mem_cons.mp h
    rw [filesAt, List.foldl_cons]
    exact (ih hfiles _).trans (Tree.get?_put_of_ne hf)

/-- Files of different names all are there with their contents. -/
lemma get?_filesAt_of_mem (place : List Text) {files : List (Text × Text)}
    (hnodup : (files.map Prod.fst).Nodup) {f : Text × Text} (hf : f ∈ files) (t : Tree) :
    (filesAt place files t).get? (place ++ [f.1]) = some (.file f.2) := by
  induction files generalizing t with
  | nil => simp at hf
  | cons g files ih =>
    rw [List.map_cons, List.nodup_cons] at hnodup
    rcases List.mem_cons.mp hf with rfl | hf
    · -- no later file is written over this one
      have hlater : ∀ g ∈ files, place ++ [f.1] ≠ place ++ [g.1] := by
        intro g hg heq
        have hname : f.1 = g.1 := by simpa using heq
        exact hnodup.1 (hname ▸ List.mem_map_of_mem hg)
      have hput := get?_filesAt_of_ne hlater (t.put (place ++ [f.1]) (.file f.2))
      exact hput.trans (Tree.get?_put_self (by simp))
    · exact ih hnodup.2 hf _

/-- Files of different proper names can be written into a directory if no directory has the name of
one, and then they are there. -/
lemma writeInto_eq {dir : Text} {place : List Text} {files : List (Text × Text)}
    (hproper : ∀ f ∈ files, Path.IsProper f.1) (hnodup : (files.map Prod.fst).Nodup) (world : World)
    (hdir : world.tree.IsDirectoryAt dir place) :
    let written := (writeInto dir files : StateM World (Except OutputError Unit)) world
    (written.1 = .ok () ↔ ∀ f ∈ files, world.tree.get? (place ++ [f.1]) ≠ some .directory) ∧
      (written.1 = .ok () → written.2 = { world with tree := filesAt place files world.tree } ∧
        written.2.tree.IsDirectoryAt dir place) := by
  induction files generalizing world with
  | nil =>
    simp only [List.not_mem_nil, IsEmpty.forall_iff, implies_true, iff_true]
    exact ⟨rfl, fun _ => ⟨rfl, hdir⟩⟩
  | cons f files ih =>
    obtain ⟨n, content⟩ := f
    obtain ⟨hn, hproper⟩ := List.forall_mem_cons.mp hproper
    rw [List.map_cons, List.nodup_cons] at hnodup
    have hwrite := hdir.write_append hn content
    simp only [writeInto, bind_apply]
    simp only [Host.writeFile, World.change, hwrite]
    by_cases hget : world.tree.get? (place ++ [n]) = some .directory
    · -- the name is that of a directory, so nothing more is written
      simp only [if_pos hget]
      refine ⟨⟨fun h => (by cases h), fun h => ?_⟩, fun h => (by cases h)⟩
      exact absurd hget (h (n, content) (by simp))
    · simp only [if_neg hget]
      have hafter := ih hproper hnodup.2
        { world with tree := world.tree.put (place ++ [n]) (.file content) } (hdir.put hget)
      -- the file that was written has another name than the ones to come
      have hsame : ∀ f ∈ files, (world.tree.put (place ++ [n]) (.file content)).get?
          (place ++ [f.1]) = world.tree.get? (place ++ [f.1]) := by
        intro f hf
        refine Tree.get?_put_of_ne fun heq => hnodup.1 ?_
        exact List.mem_map.mpr ⟨f, hf, by simpa using heq⟩
      refine ⟨hafter.1.trans ?_, hafter.2⟩
      rw [List.forall_mem_cons]
      constructor
      · intro h
        exact ⟨hget, fun f hf => hsame f hf ▸ h f hf⟩
      · rintro ⟨-, h⟩ f hf
        rw [hsame f hf]
        exact h f hf

/-- The names and contents of the output files of jobs. -/
def outputFiles (jobs : List Job) : List (Text × Text) :=
  jobs.map fun job => (outputName job.path, job.conversion.code)

/-- Without a collision the directory is made, and then the files are written into it. -/
lemma writeJobs_of_nodup (dir : Text) {jobs : List Job} (world : World)
    (h : (jobs.map (outputName ·.path)).Nodup) :
    (writeJobs dir jobs : StateM World (Except OutputError Unit)) world =
      match world.tree.makeDirectories dir with
      | .error e => (.error (.directory e), world)
      | .ok made =>
        (writeInto dir (outputFiles jobs) :
          StateM World (Except OutputError Unit)) { world with tree := made } := by
  have hcollision : collision? (jobs.map (·.path)) = none := by
    rwa [collision?_eq_none_iff, List.map_map]
  rw [writeJobs, writeOutputs, List.map_map, List.map_map]
  simp only [Function.comp_def, hcollision, writeFiles, bind_apply]
  simp only [Host.makeDirectories, World.change]
  cases world.tree.makeDirectories dir with
  | error e => rfl
  | ok made => rfl

section
variable {dir : Text} {jobs : List Job} {world : World}

/-- Jobs of different output names are written if each of them could be. -/
lemma writeJobs_eq_ok_iff (hproper : ∀ job ∈ jobs, Path.IsProper (outputName job.path))
    (hnodup : (jobs.map (outputName ·.path)).Nodup) :
    ((writeJobs dir jobs : StateM World (Except OutputError Unit)) world).1 = .ok () ↔
      ∃ made, world.tree.makeDirectories dir = .ok made ∧ ∀ job ∈ jobs, ∃ t,
        made.write (Path.append dir (outputName job.path)) job.conversion.code = .ok t := by
  rw [writeJobs_of_nodup dir world hnodup]
  cases hdirs : world.tree.makeDirectories dir with
  | error e => simp
  | ok made =>
    obtain ⟨place, hplace⟩ := Tree.isDirectoryAt_makeDirectories hdirs
    have hfiles : ((outputFiles jobs).map Prod.fst).Nodup := by rwa [outputFiles, List.map_map]
    have hwrite : ∀ job ∈ jobs, (made.get? (place ++ [outputName job.path]) ≠ some .directory ↔
        ∃ t, made.write (Path.append dir (outputName job.path)) job.conversion.code = .ok t) := by
      intro job hjob
      rw [hplace.write_append (hproper job hjob)]
      split <;> simp_all
    have hwritten := (writeInto_eq (List.forall_mem_map.mpr hproper) hfiles
      { world with tree := made } hplace).1
    refine hwritten.trans (List.forall_mem_map.trans ?_)
    constructor
    · intro h
      exact ⟨made, rfl, fun job hjob => (hwrite job hjob).mp (h job hjob)⟩
    · rintro ⟨t, ht, h⟩ job hjob
      obtain rfl := Except.ok.inj ht
      exact (hwrite job hjob).mpr (h job hjob)

/-- Jobs that were written have their files, and the other files are those of before. -/
lemma files_of_writeJobs (hproper : ∀ job ∈ jobs, Path.IsProper (outputName job.path))
    (hnodup : (jobs.map (outputName ·.path)).Nodup)
    (h : ((writeJobs dir jobs : StateM World (Except OutputError Unit)) world).1 = .ok ()) :
    ∃ place after, ((writeJobs dir jobs : StateM World (Except OutputError Unit)) world).2 =
        { world with tree := after } ∧ after.IsDirectoryAt dir place ∧
      (∀ job ∈ jobs,
        after.get? (place ++ [outputName job.path]) = some (.file job.conversion.code) ∧
        after.read (Path.append dir (outputName job.path)) = .ok job.conversion.code) ∧
      ∀ ns content, (∀ job ∈ jobs, ns ≠ place ++ [outputName job.path]) →
        (after.get? ns = some (.file content) ↔ world.tree.get? ns = some (.file content)) := by
  rw [writeJobs_of_nodup dir world hnodup] at h ⊢
  cases hdirs : world.tree.makeDirectories dir with
  | error e =>
    rw [hdirs] at h
    cases h
  | ok made =>
    rw [hdirs] at h
    obtain ⟨place, hplace⟩ := Tree.isDirectoryAt_makeDirectories hdirs
    have hfiles : ((outputFiles jobs).map Prod.fst).Nodup := by rwa [outputFiles, List.map_map]
    obtain ⟨hworld, hdirectory⟩ := (writeInto_eq (List.forall_mem_map.mpr hproper) hfiles
      { world with tree := made } hplace).2 h
    rw [hworld] at hdirectory
    refine ⟨place, filesAt place (outputFiles jobs) made, hworld, hdirectory, ?_, ?_⟩
    · intro job hjob
      have hget := get?_filesAt_of_mem place hfiles (List.mem_map_of_mem hjob) made
      exact ⟨hget, hdirectory.read_append (hproper job hjob) hget⟩
    · intro ns content hns
      have hnames : ∀ f ∈ outputFiles jobs, ns ≠ place ++ [f.1] := List.forall_mem_map.mpr hns
      rw [get?_filesAt_of_ne hnames]
      exact Tree.get?_makeDirectories hdirs ns content

end

/-- The jobs of a batch, whatever its schedule was, are written to files of their own.

If two of them have the same output name, the first such ones are named in the error, and the world
stays as it is.  If not, then they are written exactly if their directory can be made and each
single file can be written into it.  Afterwards each file holds the code of its job, and every other
file is the one that was there before. -/
theorem writeJobs_or_collision {limit : ℕ} {options : Options} {cancelled : Bool}
    {paths : List Text} {before : World} {schedule : List Batch.Step} {jobs : List Job}
    (hjobs : ((Batch.begin limit options cancelled
      ((sourcesAt paths : StateM World Batch.Sources) before).1 paths).run schedule).result =
        .ok jobs) (dir : Text) (world : World) :
    let written := (writeJobs dir jobs : StateM World (Except OutputError Unit)) world
    (¬ (jobs.map (outputName ·.path)).Nodup →
      ∃ i j first second, i < j ∧ jobs[i]? = some first ∧ jobs[j]? = some second ∧
        outputName first.path = outputName second.path ∧
        ((jobs.take j).map (outputName ·.path)).Nodup ∧
        let e := OutputError.collision first.path second.path (outputName second.path)
        written = (.error e, world) ∧ e.message = "inputs " ++ first.path ++ " and " ++
          second.path ++ " both map to " ++ outputName second.path) ∧
    ((jobs.map (outputName ·.path)).Nodup →
      (written.1 = .ok () ↔ ∃ made, world.tree.makeDirectories dir = .ok made ∧
        ∀ job ∈ jobs, ∃ t,
          made.write (Path.append dir (outputName job.path)) job.conversion.code = .ok t) ∧
      (written.1 = .ok () → ∃ place after, written.2 = { world with tree := after } ∧
        after.IsDirectoryAt dir place ∧
        (∀ job ∈ jobs,
          after.get? (place ++ [outputName job.path]) = some (.file job.conversion.code) ∧
          after.read (Path.append dir (outputName job.path)) = .ok job.conversion.code) ∧
        ∀ ns content, (∀ job ∈ jobs, ns ≠ place ++ [outputName job.path]) →
          (after.get? ns = some (.file content) ↔ world.tree.get? ns = some (.file content)))) := by
  intro written
  refine ⟨fun hcollision => ?_, fun hnodup => ?_⟩
  · obtain ⟨i, j, first, second, hlt, hi, hj, hsame, htake, hwritten⟩ :=
      writeJobs_of_collision dir world hcollision
    exact ⟨i, j, first, second, hlt, hi, hj, hsame, htake, hwritten, rfl⟩
  · have hproper : ∀ job ∈ jobs, Path.IsProper (outputName job.path) := fun job hjob =>
      Path.isProper_outputName (names_ne_nil_of_mem_result hjobs hjob)
    exact ⟨writeJobs_eq_ok_iff hproper hnodup, files_of_writeJobs hproper hnodup⟩

/-- A file and the standard input are written to a directory that was not there. -/
theorem writeJobs_input_and_file :
    let paths : List Text := ["in/User.java", "-"]
    let world : World := ⟨(Tree.empty ["w"]).put ["w", "in"] .directory |>.put
      ["w", "in", "User.java"] (.file "class User \x7b int x; \x7d"),
        "class Tag \x7b int y; \x7d", [], []⟩
    ∃ jobs, Batch.convertAll 2 {} false ((sourcesAt paths : StateM World Batch.Sources) world).1
        paths = .ok jobs ∧ jobs.map (·.path) = paths ∧
      ∀ job ∈ jobs, ((writeJobs "out/new" jobs : StateM World (Except OutputError Unit))
        world).2.tree.read (Path.append "out/new" (outputName job.path)) =
          .ok job.conversion.code := by
  intro paths world
  cases hjobs : Batch.convertAll 2 {} false
      ((sourcesAt paths : StateM World Batch.Sources) world).1 paths with
  | error e =>
    have hok : (Batch.convertAll 2 {} false
      ((sourcesAt paths : StateM World Batch.Sources) world).1 paths).toBool = true := by
        decide +kernel
    rw [hjobs] at hok
    cases hok
  | ok jobs =>
    have hpaths : (Batch.convertAll 2 {} false ((sourcesAt paths : StateM World Batch.Sources)
        world).1 paths).toOption.map (·.map (·.path)) = some paths := by
      decide +kernel
    have hwritten : (Batch.convertAll 2 {} false ((sourcesAt paths : StateM World Batch.Sources)
        world).1 paths).toOption.map (fun jobs =>
          ((writeJobs "out/new" jobs : StateM World (Except OutputError Unit)) world).1.toBool) =
            some true := by
      decide +kernel
    rw [hjobs] at hpaths hwritten
    have hpaths : jobs.map (·.path) = paths := Option.some.inj hpaths
    have hnodup : (jobs.map (outputName ·.path)).Nodup := by
      have hnames : jobs.map (outputName ·.path) = paths.map outputName := by
        rw [← hpaths, List.map_map]
        rfl
      rw [hnames]
      decide
    have hok : ((writeJobs "out/new" jobs : StateM World (Except OutputError Unit)) world).1 =
        .ok () := by
      cases hresult : ((writeJobs "out/new" jobs : StateM World (Except OutputError Unit))
          world).1 with
      | ok _ => rfl
      | error e => simp [Except.toOption, hresult, Except.toBool] at hwritten
    obtain ⟨place, after, hafter, -, hfiles, -⟩ :=
      ((writeJobs_or_collision hjobs "out/new" world).2 hnodup).2 hok
    refine ⟨jobs, rfl, hpaths, fun job hjob => ?_⟩
    rw [hafter]
    exact (hfiles job hjob).2

end Command

end DtoSchema
