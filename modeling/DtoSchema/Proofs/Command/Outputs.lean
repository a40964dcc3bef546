import DtoSchema.Proofs.Batch.Schedule
import DtoSchema.Proofs.Command.Debouncing
import DtoSchema.Proofs.File.Tree

/-!
# The output files of a watch

A watch lives in a world that changes: files are edited at any time, the events of these changes
wait to be delivered, and the files that a tick asks for are converted one after the other.
`System` is the watch with all this, and its steps are those of the watch and of the world.

What a conversion does to the files is said once (`Converts`): the output file is written, and the
output files of other names stay.  So for each watched file that can be read there always is a
reason to trust its output file or not (`Attributes`): a change of the file is on its way, or the
file is about to be converted, or the output file is current.  This needs that the output names of
the watched files differ.  A watch does not see to that, and two files with the same output name
overwrite each other (`outputs_overwritten`).
-/

namespace DtoSchema.Command

open Text

/-! ### What a conversion does to the files -/

namespace Watch

/-- The path of the output file for an input. -/
def outputPath (w : Watch) (p : Text) : Text := Path.append w.output (outputName p)

/-- The code for a content. -/
def codeFor (w : Watch) (content : Text) : Text := (DtoSchema.convert w.manner.options content).code

/-- What a conversion does to the files, and what becomes of it. -/
inductive Converts (w : Watch) (p : Text) (t : Tree) : List Outcome → Tree → Prop where
  /-- The input cannot be read. -/
  | unread (h : ∀ content, t.read p ≠ .ok content) : Converts w p t [.notConverted] t
  /-- The output file cannot be written, but directories may have been made. -/
  | refused {t' : Tree} (h : t.Keeps t') : Converts w p t [.notWritten] t'
  /-- The output file is written. -/
  | written {content : Text} {t₁ t' : Tree} {outcomes : List Outcome}
      (hread : t.read p = .ok content) (hkeeps : t.Keeps t₁)
      (hwrite : t₁.write (w.outputPath p) (w.codeFor content) = .ok t')
      (houtcomes : .notWritten ∉ outcomes) : Converts w p t outcomes t'

variable {w : Watch} {p q content : Text} {t t' : Tree} {outcomes : List Outcome} {e : Event}

/-- An event changes only the pending files. -/
lemma notice_eq (w : Watch) (e : Event) :
    w.notice e = { w with pending := (w.notice e).pending } := by
  simp only [notice]
  split <;> rfl

/-- The pending files after an event. -/
lemma mem_pending_notice :
    p ∈ (w.notice e).pending.map (·.1) ↔ w.concerns p e ∨ p ∈ w.pending.map (·.1) := by
  simp only [notice, concerns_iff]
  split
  case isTrue he =>
    by_cases hp : Path.clean e.path = p
    · subst hp
      simp [he]
    · have hpending : p ∈ (w.pending.filter (·.1 != Path.clean e.path)).map (·.1) ↔
          p ∈ w.pending.map (·.1) := by
        simp only [List.mem_map, List.mem_filter]
        constructor
        · rintro ⟨file, ⟨hfile, -⟩, rfl⟩
          exact ⟨file, hfile, rfl⟩
        · rintro ⟨file, hfile, rfl⟩
          exact ⟨file, ⟨hfile, by simpa using Ne.symm hp⟩, rfl⟩
      rw [List.map_append, List.mem_append, hpending]
      simp [hp, Ne.symm hp]
  case isFalse he =>
    refine ⟨.inr, fun h => h.resolve_left ?_⟩
    rintro ⟨rfl, hmem, htouches⟩
    exact he ⟨hmem, htouches⟩

/-- Only the directory for the output and the manner of the watch matter. -/
lemma Converts.congr {w' : Watch} (h : w'.Converts p t outcomes t') (houtput : w'.output = w.output)
    (hmanner : w'.manner = w.manner) : w.Converts p t outcomes t' := by
  cases h with
  | unread hunread => exact .unread hunread
  | refused hkeeps => exact .refused hkeeps
  | written hread hkeeps hwrite houtcomes =>
    rw [outputPath, codeFor, houtput, hmanner] at hwrite
    exact .written hread hkeeps hwrite houtcomes

/-- The output file is new if it could be written. -/
lemma Converts.read_self (h : w.Converts p t outcomes t') (hread : t.read p = .ok content) :
    .notWritten ∈ outcomes ∨ t'.read (w.outputPath p) = .ok (w.codeFor content) := by
  cases h with
  | unread hunread => exact absurd hread (hunread content)
  | refused => exact .inl (by simp)
  | written hread' _ hwrite =>
    obtain rfl := Except.ok.inj (hread.symm.trans hread')
    exact .inr (Tree.read_write_self hwrite)

/-- An output file of another name stays. -/
lemma Converts.read_other (h : w.Converts p t outcomes t') (hq : Path.names q ≠ [])
    (hne : outputName q ≠ outputName p) (hread : t.read (w.outputPath q) = .ok content) :
    t'.read (w.outputPath q) = .ok content := by
  cases h with
  | unread => exact hread
  | refused hkeeps => exact hkeeps.read hread
  | @written _ t₁ _ _ hp hkeeps hwrite =>
    refine Tree.read_write_of_ne hwrite (fun hplaces => hne ?_) (hkeeps.read hread)
    -- both paths would lead to a place that ends in the name of both files
    obtain ⟨ns, hlocate, -⟩ := Tree.write_eq_ok hwrite
    have hlast := Tree.getLast?_of_locate_append
      (Path.isProper_outputName (Tree.names_ne_nil_of_read hp)) hlocate
    have hlast' := Tree.getLast?_of_locate_append (Path.isProper_outputName hq)
      (hplaces.trans hlocate)
    exact Option.some.inj (hlast'.symm.trans hlast)

end Watch

/-- A batch of one file. -/
lemma convertAll_singleton (limit : ℕ) (options : Options) {p : Text} (hp : p ≠ standardInput)
    (content : Except FileError Text) :
    Batch.convertAll limit options false (Batch.Sources.withFile {} p content) [p] =
      match content with
      | .ok source => .ok [⟨p, source, DtoSchema.convert options source⟩]
      | .error e => .error (.unreadable p e) := by
  have hcount : List.count standardInput [p] ≤ 1 := List.count_le_length
  set sources := Batch.Sources.withFile {} p content
  have hcontent : sources.content p = content := by
    simp [sources, Batch.Sources.content, Batch.Sources.withFile, hp]
  have hresult := Batch.isResult_convertAll hcount limit options sources
  cases hr : Batch.convertAll limit options false sources [p] with
  | ok jobs =>
    cases hresult.jobs jobs hr with
    | cons hjob hnil =>
      obtain ⟨source, hsource, rfl⟩ := hjob
      cases hnil
      rw [← hcontent, hsource]
  | error f =>
    obtain ⟨q, hq, e, he, rfl⟩ := hresult.failure f hr
    obtain rfl : q = p := by simpa using hq
    rw [← hcontent, he]

section World

variable (world : World)

/-- One thing after the other. -/
lemma bind_apply {α β : Type} (x : StateM World α) (f : α → StateM World β) :
    (x >>= f) world = f (x world).1 (x world).2 := rfl

/-- The conversion of one file. -/
lemma convertPaths_singleton (k : Manner) {p : Text} (hp : p ≠ standardInput) :
    (convertPaths k false [p] : StateM World _) world =
      (match world.tree.read p with
        | .ok source => .ok [⟨p, source, DtoSchema.convert k.options source⟩]
        | .error e => .error (.unreadable p e), world) := by
  rw [← convertAll_singleton k.jobs k.options hp]
  simp only [convertPaths, sourcesAt, if_neg hp]
  rfl

/-- Reporting changes no file. -/
lemma tree_reportJobs (k : Manner) (jobs : List Job) :
    ((reportJobs k jobs : StateM World (Except Failure Unit)) world).2.tree = world.tree := by
  have hcolours : ((usesColours k : StateM World (Except Failure Bool)) world).2 = world := by
    unfold usesColours
    split_ifs <;> rfl
  rw [reportJobs, bind_apply, hcolours]
  cases ((usesColours k : StateM World (Except Failure Bool)) world).1 <;> rfl

/-- The output of one file. -/
lemma writeJobs_singleton (dir : Text) (job : Job) :
    (writeJobs dir [job] : StateM World (Except OutputError Unit)) world =
      match world.tree.makeDirectories dir with
      | .error e => (.error (.directory e), world)
      | .ok t =>
        match t.write (Path.append dir (outputName job.path)) job.conversion.code with
        | .error e => (.error (.file (outputName job.path) e), { world with tree := t })
        | .ok t' => (.ok (), { world with tree := t' }) := by
  have hcollision : collision? [job.path] = none := rfl
  simp only [writeJobs, writeOutputs, List.map_cons, List.map_nil, hcollision, writeFiles]
  rw [bind_apply]
  simp only [Host.makeDirectories, World.change]
  cases world.tree.makeDirectories dir with
  | error e => rfl
  | ok t =>
    simp only [writeInto, bind_apply]
    simp only [Host.writeFile, World.change]
    cases t.write (Path.append dir (outputName job.path)) job.conversion.code with
    | error e => rfl
    | ok t' => rfl

/-- A conversion does to the files what it has to do. -/
lemma Watch.converts_convert (w : Watch) {p : Text} (hp : p ≠ standardInput) :
    w.Converts p world.tree ((w.convert false p : StateM World (List Outcome)) world).1
      ((w.convert false p : StateM World (List Outcome)) world).2.tree := by
  rw [Watch.convert, bind_apply, convertPaths_singleton world w.manner hp]
  cases hread : world.tree.read p with
  | error e => exact .unread (by simp [hread])
  | ok content =>
    simp only [bind_apply, writeJobs_singleton]
    cases hdirs : world.tree.makeDirectories w.output with
    | error e => exact .refused (.refl _)
    | ok t =>
      have hkeeps := Tree.keeps_makeDirectories hdirs
      simp only
      cases hwrite : t.write (Path.append w.output (outputName p))
          (DtoSchema.convert w.manner.options content).code with
      | error e => exact .refused hkeeps
      | ok t' =>
        have hreport := tree_reportJobs { world with tree := t' } w.manner
          [⟨p, content, DtoSchema.convert w.manner.options content⟩]
        simp only [bind_apply]
        generalize (reportJobs w.manner [⟨p, content, DtoSchema.convert w.manner.options content⟩] :
          StateM World (Except Failure Unit)) { world with tree := t' } = report at hreport ⊢
        obtain ⟨report, after⟩ := report
        obtain rfl : after.tree = t' := hreport
        cases report with
        | error e =>
          change w.Converts p world.tree [.notReported, .updated] after.tree
          exact .written hread hkeeps hwrite (by decide)
        | ok _ =>
          change w.Converts p world.tree [.updated] after.tree
          exact .written hread hkeeps hwrite (by decide)

/-- Asking for absolute paths changes nothing. -/
lemma mapM_absolute (paths : List Text) :
    (paths.mapM Host.absolute : StateM World (List Text)) world =
      (paths.map world.tree.absolute, world) := by
  induction paths with
  | nil => rfl
  | cons path paths ih =>
    have hpath : (Host.absolute path : StateM World Text) world =
        (world.tree.absolute path, world) := rfl
    rw [List.mapM_cons, bind_apply, bind_apply, hpath, ih]
    rfl

/-- A watch that is accepted watches absolute paths, and no file is pending. -/
lemma Watch.of_prepare {k : Manner} {output : Text} {quiet : ℕ} {paths : List Text} {w : Watch}
    (h : ((Watch.prepare k output quiet paths : StateM World (Except Failure Watch)) world).1 =
      .ok w) :
    w = ⟨k, output, quiet, (paths.map world.tree.absolute).eraseDups, []⟩ := by
  rw [Watch.prepare, bind_apply, mapM_absolute] at h
  simp only [bind_apply] at h
  generalize (Watch.checkDirectories _ : StateM World (Except Failure Unit)) world = checked at h
  obtain ⟨checked, after⟩ := checked
  cases checked with
  | error e => cases h
  | ok _ => exact (Except.ok.inj h).symm

end World

/-! ### A watch in a world that changes -/

/-- A watch with its world. -/
structure System where
  /-- The world. -/
  world : World
  /-- The watch. -/
  watch : Watch
  /-- The events that have not been delivered. -/
  queue : List Event
  /-- The files that have to be converted. -/
  work : List Request
  /-- The files whose output file could not be written when they were last converted. -/
  refused : List Text

namespace System

/-- There is an event for each watched file that has a new content. -/
def Notifies (w : Watch) (t t' : Tree) (events : List Event) : Prop :=
  ∀ p ∈ w.targets, ∀ content, t'.read p = .ok content → t.read p ≠ .ok content →
    ∃ e ∈ events, w.concerns p e

/-- What a conversion makes of a world. -/
def convert (s : System) (r : Request) : List Outcome × World :=
  (r.watch.convert false r.path : StateM World (List Outcome)) s.world

/-- The files that are refused after a conversion. -/
def refusedAfter (s : System) (r : Request) : List Text :=
  if .notWritten ∈ (s.convert r).1 then r.path :: s.refused else s.refused.filter (· != r.path)

/-- A step of the watch or of its world.  Whoever changes a watched file, there is an event for it.
Nobody else changes output files. -/
inductive Step : System → System → Prop where
  /-- Somebody changes files, but no output file. -/
  | edit (s : System) (t : Tree) (events : List Event)
      (houtputs : ∀ p ∈ s.watch.targets, ∀ content,
        s.world.tree.read (s.watch.outputPath p) = .ok content →
        t.read (s.watch.outputPath p) = .ok content)
      (hevents : Notifies s.watch s.world.tree t events) :
      Step s { s with world := { s.world with tree := t }, queue := s.queue ++ events }
  /-- The next file is converted. -/
  | convert (s : System) (r : Request) (work : List Request) (events : List Event)
      (hwork : s.work = r :: work)
      (hevents : Notifies s.watch s.world.tree (s.convert r).2.tree events) :
      Step s { s with
        world := (s.convert r).2
        queue := s.queue ++ events
        work := work
        refused := s.refusedAfter r }
  /-- The next event is delivered. -/
  | deliver (s : System) (e : Event) (queue : List Event) (hwork : s.work = [])
      (hqueue : s.queue = e :: queue) :
      Step s { s with watch := s.watch.notice e, queue := queue }
  /-- The clock ticks. -/
  | tick (s : System) (now : ℕ) (files : List (Text × ℕ)) (hwork : s.work = [])
      (hfiles : files.Perm s.watch.pending) :
      Step s { s with
        watch := (Watch.sweep now files s.watch).2
        work := (Watch.sweep now files s.watch).1 }

/-- What is known about a watched file that can be read: a change of it is still to be delivered or
to be acted upon, or it is about to be converted, or its output file could not be written, or the
output file is the conversion of its content. -/
structure Attributes (w : Watch) (s : System) : Prop where
  /-- Only the pending files change. -/
  same : s.watch = { w with pending := s.watch.pending }
  /-- The pending files are watched. -/
  pending : ∀ p ∈ s.watch.pending.map (·.1), p ∈ w.targets
  /-- The files to be converted are watched ones, and are converted as the watch says. -/
  work : ∀ r ∈ s.work, r.path ∈ w.targets ∧ r.watch = { w with pending := r.watch.pending }
  /-- Where each watched file stands. -/
  current : ∀ p ∈ w.targets, ∀ content, s.world.tree.read p = .ok content →
    (∃ e ∈ s.queue, w.concerns p e) ∨ p ∈ s.watch.pending.map (·.1) ∨ p ∈ s.work.map (·.path) ∨
      p ∈ s.refused ∨ s.world.tree.read (w.outputPath p) = .ok (w.codeFor content)

namespace Attributes

variable {w : Watch} {s : System}

/-- The watch has just been accepted, and all files are to be converted. -/
lemma begin {world : World} {work : List Request} (hpending : w.pending = [])
    (hwork : work.Perm w.requests) : Attributes w ⟨world, w, [], work, []⟩ where
  same := rfl
  pending := by simp [hpending]
  work := by
    intro r hr
    obtain ⟨p, hp, rfl⟩ := List.mem_map.mp (hwork.mem_iff.mp hr)
    exact ⟨hp, rfl⟩
  current := by
    intro p hp content _
    have hmem : (⟨p, w⟩ : Request) ∈ work := hwork.mem_iff.mpr (List.mem_map_of_mem hp)
    exact .inr (.inr (.inl (List.mem_map_of_mem hmem)))

/-- Somebody changes files. -/
lemma edit (h : Attributes w s) {t : Tree} {events : List Event}
    (houtputs : ∀ p ∈ s.watch.targets, ∀ content,
      s.world.tree.read (s.watch.outputPath p) = .ok content →
      t.read (s.watch.outputPath p) = .ok content)
    (hevents : Notifies s.watch s.world.tree t events) :
    Attributes w { s with world := { s.world with tree := t }, queue := s.queue ++ events } := by
  rw [h.same] at houtputs hevents
  refine ⟨h.same, h.pending, h.work, fun p hp content hread => ?_⟩
  by_cases hold : s.world.tree.read p = .ok content
  · rcases h.current p hp content hold with ⟨e, he, hconcerns⟩ | hpending | hwork | hrefused | hcode
    · exact .inl ⟨e, List.mem_append_left _ he, hconcerns⟩
    · exact .inr (.inl hpending)
    · exact .inr (.inr (.inl hwork))
    · exact .inr (.inr (.inr (.inl hrefused)))
    · exact .inr (.inr (.inr (.inr (houtputs p hp _ hcode))))
  · obtain ⟨e, he, hconcerns⟩ := hevents p hp content hread hold
    exact .inl ⟨e, List.mem_append_right _ he, hconcerns⟩

/-- A file is converted. -/
lemma convert (h : Attributes w s) (htargets : ∀ p ∈ w.targets, p ≠ standardInput)
    (hnames : (w.targets.map outputName).Nodup) {r : Request} {work : List Request}
    {events : List Event} (hwork : s.work = r :: work)
    (hevents : Notifies s.watch s.world.tree (s.convert r).2.tree events) :
    Attributes w { s with
      world := (s.convert r).2
      queue := s.queue ++ events
      work := work
      refused := s.refusedAfter r } := by
  obtain ⟨hr, hwatch⟩ := h.work r (by simp [hwork])
  rw [h.same] at hevents
  have hconverts : w.Converts r.path s.world.tree (s.convert r).1 (s.convert r).2.tree := by
    refine (r.watch.converts_convert s.world (htargets r.path hr)).congr ?_ ?_
    · rw [hwatch]
    · rw [hwatch]
  refine ⟨h.same, h.pending, fun r' hr' => h.work r' (by simp [hwork, hr']),
    fun p hp content hread => ?_⟩
  by_cases hold : s.world.tree.read p = .ok content
  · by_cases hpr : p = r.path
    · subst hpr
      rcases hconverts.read_self hold with hrefused | hcode
      · exact .inr (.inr (.inr (.inl (by simp [refusedAfter, hrefused]))))
      · exact .inr (.inr (.inr (.inr hcode)))
    · rcases h.current p hp content hold with
        ⟨e, he, hconcerns⟩ | hpending | hasked | hrefused | hcode
      · exact .inl ⟨e, List.mem_append_left _ he, hconcerns⟩
      · exact .inr (.inl hpending)
      · rw [hwork, List.map_cons, List.mem_cons] at hasked
        exact .inr (.inr (.inl (hasked.resolve_left hpr)))
      · refine .inr (.inr (.inr (.inl ?_)))
        unfold refusedAfter
        split
        · exact List.mem_cons_of_mem _ hrefused
        · simpa [hpr] using hrefused
      · have hne : outputName p ≠ outputName r.path :=
          fun heq => hpr (List.inj_on_of_nodup_map hnames hp hr heq)
        have hkept := hconverts.read_other (Tree.names_ne_nil_of_read hold) hne hcode
        exact .inr (.inr (.inr (.inr hkept)))
  · obtain ⟨e, he, hconcerns⟩ := hevents p hp content hread hold
    exact .inl ⟨e, List.mem_append_right _ he, hconcerns⟩

/-- An event is delivered. -/
lemma deliver (h : Attributes w s) {e : Event} {queue : List Event}
    (hqueue : s.queue = e :: queue) :
    Attributes w { s with watch := s.watch.notice e, queue := queue } := by
  have hconcerns : ∀ p, s.watch.concerns p e = w.concerns p e := by
    intro p
    rw [h.same]
    rfl
  refine ⟨?_, fun p hp => ?_, h.work, fun p hp content hread => ?_⟩
  · rw [Watch.notice_eq, h.same]
  · rcases Watch.mem_pending_notice.mp hp with hnew | hold
    · rw [hconcerns] at hnew
      exact (Watch.concerns_iff.mp hnew).2.1
    · exact h.pending p hold
  · rcases h.current p hp content hread with ⟨e', he', hnew⟩ | hpending | hrest
    · rw [hqueue, List.mem_cons] at he'
      rcases he' with rfl | he'
      · exact .inr (.inl (Watch.mem_pending_notice.mpr (.inl ((hconcerns p).trans hnew))))
      · exact .inl ⟨e', he', hnew⟩
    · exact .inr (.inl (Watch.mem_pending_notice.mpr (.inr hpending)))
    · exact .inr (.inr hrest)

/-- The clock ticks. -/
lemma tick (h : Attributes w s) (now : ℕ) {files : List (Text × ℕ)} (hwork : s.work = [])
    (hfiles : files.Perm s.watch.pending) :
    Attributes w { s with
      watch := (Watch.sweep now files s.watch).2
      work := (Watch.sweep now files s.watch).1 } := by
  have hpending : (Watch.sweep now files s.watch).2.pending = s.watch.pending.filter
      fun file => file.1 ∉ (Watch.sweep now files s.watch).1.map (·.path) := by
    rw [Watch.sweep_snd]
  refine ⟨?_, fun p hp => ?_, fun r hr => ⟨?_, ?_⟩, fun p hp content hread => ?_⟩
  · rw [Watch.sweep_snd, h.same]
  · simp only [hpending] at hp
    exact h.pending p (List.map_subset _ List.filter_sublist.subset hp)
  · have hpath := List.mem_map_of_mem (f := (·.path)) hr
    rw [Watch.map_path_sweep] at hpath
    refine h.pending r.path ((hfiles.map _).mem_iff.mp ?_)
    exact List.map_subset _ List.filter_sublist.subset hpath
  · rw [(Watch.of_mem_sweep hr).1, h.same]
  · rcases h.current p hp content hread with hqueue | hold | hasked | hrest
    · exact .inl hqueue
    · -- a pending file is asked for, or it stays pending
      by_cases hasked : p ∈ (Watch.sweep now files s.watch).1.map (·.path)
      · exact .inr (.inr (.inl hasked))
      · obtain ⟨file, hfile, rfl⟩ := List.mem_map.mp hold
        refine .inr (.inl (List.mem_map_of_mem ?_))
        simp only [hpending]
        exact List.mem_filter.mpr ⟨hfile, by simpa using hasked⟩
    · simp [hwork] at hasked
    · exact .inr (.inr (.inr hrest))

/-- A step. -/
lemma step (htargets : ∀ p ∈ w.targets, p ≠ standardInput)
    (hnames : (w.targets.map outputName).Nodup) {s' : System} (h : Attributes w s)
    (hstep : Step s s') : Attributes w s' := by
  cases hstep with
  | edit t events houtputs hevents => exact h.edit houtputs hevents
  | convert r work events hwork hevents => exact h.convert htargets hnames hwork hevents
  | deliver e queue hwork hqueue => exact h.deliver hqueue
  | tick now files hwork hfiles => exact h.tick now hwork hfiles

/-- Any steps. -/
lemma of_reaches (htargets : ∀ p ∈ w.targets, p ≠ standardInput)
    (hnames : (w.targets.map outputName).Nodup) {s' : System} (h : Attributes w s)
    (hsteps : Relation.ReflTransGen Step s s') : Attributes w s' := by
  induction hsteps with
  | refl => exact h
  | tail _ hstep ih => exact ih.step htargets hnames hstep

end Attributes

end System

/-! ### Every run -/

/-- An absolute path is not the one that stands for the standard input. -/
lemma ne_standardInput_of_mem_absolute {t : Tree} {paths : List Text} {p : Text}
    (h : p ∈ (paths.map t.absolute).eraseDups) : p ≠ standardInput := by
  obtain ⟨path, -, rfl⟩ := List.mem_map.mp (List.mem_eraseDups.mp h)
  have habsolute : Path.isAbsolute (t.absolute path) := by
    unfold Tree.absolute
    split
    case isTrue hpath => exact Path.isAbsolute_clean hpath
    case isFalse => exact Path.isAbsolute_append rfl path
  intro heq
  rw [heq] at habsolute
  exact absurd habsolute (by decide)

/-- A watch keeps every output file attributable to its input, if its files have different output
names.  Let a watch be accepted, and let all its files be converted in any order; from then on, and
already while they are converted, let files be changed, events be delivered and the clock tick in
any order.  Whenever no event is to be delivered, no file is pending and no file is about to be
converted, the output file of each watched file that can be read is the conversion of its present
content, unless the output file could not be written when the file was last converted. -/
theorem read_outputPath_of_idle {k : Manner} {output : Text} {quiet : ℕ} {paths : List Text}
    {world : World} {w : Watch}
    (haccepted : ((Watch.prepare k output quiet paths : StateM World _) world).1 = .ok w)
    (hnames : (w.targets.map outputName).Nodup) {work : List Request}
    (hwork : work.Perm w.requests) {s : System}
    (hsteps : Relation.ReflTransGen System.Step ⟨world, w, [], work, []⟩ s)
    (hqueue : s.queue = []) (hpending : s.watch.pending = []) (hidle : s.work = [])
    {p content : Text} (hp : p ∈ w.targets) (hread : s.world.tree.read p = .ok content)
    (hwritten : p ∉ s.refused) :
    s.world.tree.read (Path.append output (outputName p)) =
      .ok (DtoSchema.convert k.options content).code := by
  obtain rfl := Watch.of_prepare world haccepted
  have hbegin : System.Attributes _ ⟨world, _, [], work, []⟩ := .begin rfl hwork
  have h := hbegin.of_reaches (fun q hq => ne_standardInput_of_mem_absolute hq) hnames hsteps
  rcases h.current p hp content hread with ⟨e, he, -⟩ | hlate | hasked | hrefused | hcode
  · simp [hqueue] at he
  · simp [hpending] at hlate
  · simp [hidle] at hasked
  · exact absurd hrefused hwritten
  · exact hcode

/-- A file is converted, written anew, noticed, and converted again at a tick. -/
theorem read_outputPath_of_idle_rewritten :
    let p : Text := "/w/a.kt"
    let w : Watch := { manner := {}, output := "out", quiet := 20, targets := [p] }
    let world : World := ⟨(Tree.empty ["w"]).withFile "a.kt" "class A", [], [], []⟩
    ∃ s, Relation.ReflTransGen System.Step ⟨world, w, [], w.requests, []⟩ s ∧
      s.world.tree.read p = .ok "class B" ∧
      s.world.tree.read "out/a.ts" = .ok (DtoSchema.convert {} "class B").code := by
  intro p w world
  let e : Event := ⟨p, .written, 5⟩
  let w' : Watch := { w with pending := [(p, 5)] }
  let s₀ : System := ⟨world, w, [], w.requests, []⟩
  let s₁ : System := ⟨(s₀.convert ⟨p, w⟩).2, w, [], [], s₀.refusedAfter ⟨p, w⟩⟩
  let t : Tree := s₁.world.tree.put ["w", "a.kt"] (.file "class B")
  let s₂ : System := ⟨{ s₁.world with tree := t }, w, [e], [], s₁.refused⟩
  let s₃ : System := ⟨s₂.world, w', [], [], s₂.refused⟩
  let s₄ : System := ⟨s₃.world, w, [], [⟨p, w⟩], s₃.refused⟩
  let s₅ : System := ⟨(s₄.convert ⟨p, w⟩).2, w, [], [], s₄.refusedAfter ⟨p, w⟩⟩
  have hquiet : ∀ t t' : Tree, t'.read p = t.read p → System.Notifies w t t' [] := by
    intro t t' hsame q hq content hread hold
    obtain rfl : q = p := List.mem_singleton.mp hq
    exact absurd (hsame.symm.trans hread) hold
  have h₁ : System.Step s₀ s₁ :=
    .convert s₀ ⟨p, w⟩ [] [] rfl (hquiet _ _ (by decide +kernel))
  have h₂ : System.Step s₁ s₂ := by
    refine .edit s₁ t [e] (fun q hq content hread => ?_) (fun q hq _ _ _ => ⟨e, by simp, ?_⟩)
    · obtain rfl : q = p := List.mem_singleton.mp hq
      have hsame : t.read (w.outputPath p) = s₁.world.tree.read (w.outputPath p) := by
        decide +kernel
      exact hsame.trans hread
    · obtain rfl : q = p := List.mem_singleton.mp hq
      decide
  have h₃ : System.Step s₂ s₃ := by
    have hnotice : s₂.watch.notice e = w' := by
      have hclean : Path.clean p = p := by decide
      simp [Watch.notice, s₂, e, hclean, w, w', Change.touchesContent]
    have h := System.Step.deliver s₂ e [] rfl rfl
    rw [hnotice] at h
    exact h
  have h₄ : System.Step s₃ s₄ := by
    have hsweep : Watch.sweep 25 [(p, 5)] s₃.watch = ([⟨p, w⟩], w) := by
      simp [Watch.sweep, Watch.isDue, Watch.forget, s₃, w', w]
    have h := System.Step.tick s₃ 25 [(p, 5)] rfl (.refl _)
    rw [hsweep] at h
    exact h
  have h₅ : System.Step s₄ s₅ :=
    .convert s₄ ⟨p, w⟩ [] [] rfl (hquiet _ _ (by decide +kernel))
  have hsteps : Relation.ReflTransGen System.Step s₀ s₅ :=
    ((((Relation.ReflTransGen.single h₁).tail h₂).tail h₃).tail h₄).tail h₅
  have hread : s₅.world.tree.read p = .ok "class B" := by decide +kernel
  have hpath : Path.append "out" (outputName p) = "out/a.ts" := by decide +kernel
  refine ⟨s₅, hsteps, hread, ?_⟩
  rw [← hpath]
  have haccepted : ((Watch.prepare {} "out" 20 ["a.kt"] : StateM World _) world).1 = .ok w := by
    have htargets : (List.map world.tree.absolute ["a.kt"]).eraseDups = [p] := by decide +kernel
    have hok : ((Watch.prepare {} "out" 20 ["a.kt"] : StateM World _) world).1.toBool := by
      decide +kernel
    cases h : ((Watch.prepare {} "out" 20 ["a.kt"] : StateM World _) world).1 with
    | error f =>
      rw [h] at hok
      cases hok
    | ok prepared => rw [Watch.of_prepare world h, htargets]
  exact read_outputPath_of_idle haccepted (by decide +kernel) (.refl _) hsteps rfl rfl rfl
    List.mem_cons_self hread (by decide +kernel)

/-- Two files with the same output name are accepted.  When both have been converted and nothing is
pending, the output file holds the code for the second one, although the first one can be read; the
output files of several inputs are refused when they are written together. -/
theorem outputs_overwritten :
    let first : Text := "class User \x7b int x; \x7d"
    let second : Text := "class User \x7b int y; \x7d"
    let targets : List Text := ["/w/a/User.java", "/w/b/User.java"]
    let world : World :=
      ⟨((Tree.empty ["w"]).withFile "a/User.java" first).withFile "b/User.java" second, [], [], []⟩
    let started := (Watch.start {} "out" 20 false ["a/User.java", "b/User.java"] :
      StateM World _) world
    started.1.toOption.map (fun (w, outcomes) => (w.targets, w.pending, outcomes)) =
      some (targets, [], [.updated, .updated]) ∧
    started.2.tree.read "/w/a/User.java" = .ok first ∧
    started.2.tree.read "/w/out/User.ts" = .ok (DtoSchema.convert {} second).code ∧
    (DtoSchema.convert {} second).code ≠ (DtoSchema.convert {} first).code ∧
    collision? targets = some (utf8 "/w/a/User.java", utf8 "/w/b/User.java", utf8 "User.ts") := by
  decide +kernel

end DtoSchema.Command
