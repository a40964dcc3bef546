import DtoSchema.Command.Run
import DtoSchema.Proofs.Command.Outputs

/-!
# Commands that are rejected

A command looks at its words, at its settings and at its inputs before it writes anything.  If it
fails there it is rejected, and a rejected command leaves the world as it was: no file or directory
is made or changed, and nothing is written to the standard output or reported.

A command is a sequence of actions, and `IsClean` is what they have in common.  Actions that only
read come first (`IsClean.bind`), and actions that cannot be rejected any more come last
(`IsClean.bind_of_neverRejects`).  Between them there is one that may be either: before output files
are written, two inputs of the same output name are refused.

The use of colours is looked at when there is something to report, and by then the output has been
written (`output_before_unknownColour`).
-/

namespace DtoSchema.Command

open Text

/-- The failure is found before anything is written: the words, the settings or the inputs are to
blame, or two inputs have the same output name. -/
def Failure.isRejection : Failure → Bool
  | flag _ | unknownCommand _ _ | unwantedArgument _ _ | missingArgument => true
  | settings _ | unknownDialect _ | unknownFormat _ | tooFewJobs _ => true
  | inputRepeated | batch _ | output (.collision _ _ _) => true
  | noOutput | inputWatched | unwatchable _ _ => true
  | output (.directory _) | output (.file _ _) | unknownColour _ | reported => false

/-! ### Actions -/

/-- An action of a command in a world. -/
abbrev Action (α : Type) : Type := ExceptT Failure (StateM World) α

section Action

variable {α β : Type}

/-- The action changes nothing. -/
def ReadsOnly (x : Action α) : Prop := ∀ world, (x.run world).2 = world

/-- The failures of the action are all rejections, or none of them is. -/
def FailsAs (rejection : Bool) (x : Action α) : Prop :=
  ∀ world f, (x.run world).1 = .error f → f.isRejection = rejection

/-- The failures of the action are no rejections. -/
abbrev NeverRejects (x : Action α) : Prop := FailsAs false x

/-- The failures of the action are all rejections. -/
abbrev OnlyRejects (x : Action α) : Prop := FailsAs true x

/-- An action that is rejected has changed nothing. -/
def IsClean (x : Action α) : Prop :=
  ∀ world f, (x.run world).1 = .error f → f.isRejection → (x.run world).2 = world

variable {x : Action α} {g : α → Action β}

/-- One action after the other; a failure of the first one is that of both. -/
lemma run_bind (x : Action α) (g : α → Action β) (world : World) :
    (x >>= g).run world =
      match x.run world with
      | (.ok a, after) => (g a).run after
      | (.error f, after) => (.error f, after) := by
  change (ExceptT.bindCont g (x.run world).1) (x.run world).2 = _
  rcases x.run world with ⟨_ | _, _⟩ <;> rfl

lemma ReadsOnly.isClean (h : ReadsOnly x) : IsClean x := fun world _ _ _ => h world

lemma FailsAs.isClean (h : NeverRejects x) : IsClean x := by
  intro world f hf hrejection
  rw [h world f hf] at hrejection
  cases hrejection

lemma ReadsOnly.bind (hx : ReadsOnly x) (hg : ∀ a, ReadsOnly (g a)) : ReadsOnly (x >>= g) := by
  intro world
  have hsame := hx world
  rw [run_bind]
  generalize x.run world = outcome at hsame
  obtain ⟨_ | a, after⟩ := outcome
  · exact hsame
  · exact (hg a after).trans hsame

lemma FailsAs.bind {rejection : Bool} (hx : FailsAs rejection x)
    (hg : ∀ a, FailsAs rejection (g a)) : FailsAs rejection (x >>= g) := by
  intro world f hf
  have hfirst := hx world
  rw [run_bind] at hf
  generalize x.run world = outcome at hf hfirst
  obtain ⟨_ | a, after⟩ := outcome
  · cases hf
    exact hfirst f rfl
  · exact hg a after f hf

/-- After an action that only reads, the world is still as it was. -/
lemma IsClean.bind (hx : ReadsOnly x) (hg : ∀ a, IsClean (g a)) : IsClean (x >>= g) := by
  intro world f hf hrejection
  have hsame := hx world
  rw [run_bind] at hf ⊢
  generalize x.run world = outcome at hf hsame
  obtain ⟨_ | a, after⟩ := outcome
  · exact hsame
  · exact (hg a after f hf hrejection).trans hsame

/-- Before actions that cannot be rejected, a rejection is that of the first action. -/
lemma IsClean.bind_of_neverRejects (hx : IsClean x) (hg : ∀ a, NeverRejects (g a)) :
    IsClean (x >>= g) := by
  intro world f hf hrejection
  have hfirst := hx world
  rw [run_bind] at hf ⊢
  generalize x.run world = outcome at hf hfirst
  obtain ⟨_ | a, after⟩ := outcome
  · cases hf
    exact hfirst f rfl hrejection
  · rw [hg a after f hf] at hrejection
    cases hrejection

lemma readsOnly_pure (a : α) : ReadsOnly (pure a) := fun _ => rfl

/-- What is known without looking at the world. -/
lemma readsOnly_lift (e : Except Failure α) : ReadsOnly (liftM e) := fun _ => rfl

lemma run_lift (e : Except Failure α) (world : World) :
    (liftM e : Action α).run world = (e, world) := rfl

lemma failsAs_pure (rejection : Bool) (a : α) : FailsAs rejection (pure a) := by
  rintro world f ⟨⟩

lemma neverRejects_throw {f : Failure} (h : f.isRejection = false) :
    NeverRejects (throw f : Action α) := by
  rintro world _ ⟨⟩
  exact h

/-- Printing does not fail. -/
lemma neverRejects_print (s : Text) : NeverRejects (ExceptT.lift (Host.print s)) := by
  rintro world f ⟨⟩

/-- What an attempt comes to. -/
lemma run_attempt {ε : Type} (failure : ε → Failure) (action : StateM World (Except ε α))
    (world : World) :
    (attempt failure action : Action α).run world =
      ((action world).1.mapError failure, (action world).2) := rfl

/-- An attempt fails for the reason of its action. -/
lemma exists_of_attempt_eq_error {ε : Type} {failure : ε → Failure}
    {action : StateM World (Except ε α)} {world : World} {f : Failure}
    (h : ((attempt failure action : Action α).run world).1 = .error f) :
    ∃ e, (action world).1 = .error e ∧ f = failure e := by
  rw [run_attempt] at h
  generalize (action world).1 = result at h
  cases result with
  | error e => exact ⟨e, rfl, (Except.error.inj h).symm⟩
  | ok a => cases h

lemma onlyRejects_attempt {ε : Type} {failure : ε → Failure} (h : ∀ e, (failure e).isRejection)
    (action : StateM World (Except ε α)) : OnlyRejects (attempt failure action) := by
  intro world f hf
  obtain ⟨e, -, rfl⟩ := exists_of_attempt_eq_error hf
  exact h e

lemma readsOnly_attempt {ε : Type} (failure : ε → Failure)
    {action : StateM World (Except ε α)} (h : ∀ world, (action world).2 = world) :
    ReadsOnly (attempt failure action) := h

end Action

/-! ### Actions that only read -/

section Reading

variable (world : World)

/-- What a world has at the path of an input. -/
def inputAt (p : Text) : Except FileError Text :=
  if p = standardInput then .ok world.input else world.tree.read p

/-- Inputs are read without changing anything. -/
lemma sourcesAt_snd (paths : List Text) :
    ((sourcesAt paths : StateM World Batch.Sources) world).2 = world := by
  induction paths with
  | nil => rfl
  | cons path paths ih =>
    rw [sourcesAt]
    split
    · exact ih
    · exact ih

/-- The sources of a batch are what the world has at its paths. -/
lemma content_sourcesAt {paths : List Text} {p : Text} (hp : p ∈ paths) :
    ((sourcesAt paths : StateM World Batch.Sources) world).1.content p = inputAt world p := by
  induction paths with
  | nil => simp at hp
  | cons path paths ih =>
    set rest := ((sourcesAt paths : StateM World Batch.Sources) world).1 with hrest
    have hcons : ((sourcesAt (path :: paths) : StateM World Batch.Sources) world).1 =
        if path = standardInput then { rest with input := .ok world.input }
        else rest.withFile path (world.tree.read path) := by
      rw [sourcesAt]
      split <;> rfl
    rw [hcons]
    by_cases hinput : p = standardInput
    · by_cases hpath : path = standardInput
      · simp [hpath, hinput, Batch.Sources.content, inputAt]
      · have hne : p ≠ path := fun heq => hpath (heq.symm.trans hinput)
        have hmem : p ∈ paths := (List.mem_cons.mp hp).resolve_left hne
        rw [if_neg hpath, ← ih hmem]
        simp [hinput, Batch.Sources.content, Batch.Sources.withFile]
    · by_cases hpath : p = path
      · have hne : path ≠ standardInput := hpath ▸ hinput
        simp [hpath, hne, Batch.Sources.content, Batch.Sources.withFile, inputAt]
      · rw [← ih ((List.mem_cons.mp hp).resolve_left hpath)]
        split
        · simp [hinput, Batch.Sources.content]
        · simp [hinput, hpath, Batch.Sources.content, Batch.Sources.withFile]

/-- A batch is run without changing anything. -/
lemma convertPaths_snd (k : Manner) (cancelled : Bool) (paths : List Text) :
    ((convertPaths k cancelled paths : StateM World _) world).2 = world :=
  sourcesAt_snd world paths

lemma load_snd (path : Text) : ((Settings.load path : StateM World _) world).2 = world := by
  have hread : (Host.readFile path : StateM World _) world = (world.tree.read path, world) := rfl
  rw [Settings.load, bind_apply, hread]
  cases world.tree.read path <;> rfl

lemma watchRefusal_snd (dir : Text) :
    ((Host.watchRefusal dir : StateM World _) world).2 = world := by
  have hget : (get : StateM World World) world = (world, world) := rfl
  simp only [Host.watchRefusal]
  rw [bind_apply, hget]
  cases world.tree.stat dir <;> rfl

lemma checkDirectories_snd (dirs : List Text) :
    ((Watch.checkDirectories dirs : StateM World _) world).2 = world := by
  induction dirs with
  | nil => rfl
  | cons dir dirs ih =>
    rw [Watch.checkDirectories, bind_apply, watchRefusal_snd]
    cases ((Host.watchRefusal dir : StateM World _) world).1 with
    | none => exact ih
    | some refusal => rfl

lemma prepare_snd (k : Manner) (output : Text) (quiet : ℕ) (paths : List Text) :
    ((Watch.prepare k output quiet paths : StateM World _) world).2 = world := by
  rw [Watch.prepare, bind_apply, mapM_absolute, bind_apply, checkDirectories_snd]
  generalize ((Watch.checkDirectories _ : StateM World (Except Failure Unit)) world).1 = checked
  cases checked <;> rfl

end Reading

lemma readsOnly_runBatch (k : Manner) (cancelled : Bool) (ws : Words) :
    ReadsOnly (runBatch k cancelled ws) :=
  (readsOnly_lift (inputPaths ws.arguments)).bind fun paths =>
    readsOnly_attempt _ fun world => convertPaths_snd world k cancelled paths

lemma readsOnly_loadSettings (ws : Words) : ReadsOnly (loadSettings ws) := by
  unfold loadSettings
  by_cases hpath : ws.textOf configFlag [] = []
  · simp only [hpath, if_true]
    exact readsOnly_pure _
  · simp only [hpath, if_false]
    exact readsOnly_attempt _ fun world => load_snd world _

/-! ### Writing and reporting -/

/-- Files that cannot be written are no reason for a rejection. -/
lemma neverRejects_writeFiles (dir : Text) (files : List (Text × Text)) :
    NeverRejects (attempt .output (writeFiles dir files)) := by
  have hinto : ∀ world e, ((writeInto dir files : StateM World _) world).1 = .error e →
      ∃ name e', e = .file name e' := by
    induction files with
    | nil => rintro world e ⟨⟩
    | cons file files ih =>
      obtain ⟨name, content⟩ := file
      intro world e he
      rw [writeInto, bind_apply] at he
      generalize (Host.writeFile (Path.append dir name) content : StateM World _) world = written
        at he
      obtain ⟨_ | _, after⟩ := written
      · cases he
        exact ⟨_, _, rfl⟩
      · exact ih after e he
  intro world f hf
  obtain ⟨e, he, rfl⟩ := exists_of_attempt_eq_error hf
  rw [writeFiles, bind_apply] at he
  generalize (Host.makeDirectories dir : StateM World _) world = made at he
  obtain ⟨_ | _, after⟩ := made
  · cases he
    rfl
  · obtain ⟨name, e', rfl⟩ := hinto after e he
    rfl

/-- Output files are written unless two inputs have the same output name. -/
lemma isClean_putCode (dir : Text) (jobs : List Job) : IsClean (putCode dir jobs) := by
  unfold putCode
  split
  · exact (neverRejects_print _).isClean
  · unfold writeJobs writeOutputs
    split
    · exact (readsOnly_attempt _ fun _ => rfl).isClean
    · exact (neverRejects_writeFiles dir _).isClean

/-- An unknown use of colours is no reason for a rejection. -/
lemma neverRejects_reportJobs (k : Manner) (jobs : List Job) :
    NeverRejects (attempt id (reportJobs k jobs)) := by
  have hcolours : ∀ world e, ((usesColours k : StateM World _) world).1 = .error e →
      e = .unknownColour k.colour := by
    intro world e he
    unfold usesColours at he
    split_ifs at he <;> cases he
    rfl
  intro world f hf
  obtain ⟨e, he, rfl⟩ := exists_of_attempt_eq_error hf
  have hworld := hcolours world
  rw [reportJobs, bind_apply] at he
  generalize (usesColours k : StateM World _) world = colours at he hworld
  obtain ⟨_ | _, after⟩ := colours
  · cases he
    rw [hworld _ rfl]
    rfl
  · cases he

/-- Errors among the diagnostics are no reason for a rejection. -/
lemma neverRejects_ite_throw {α : Type} {p : Prop} [Decidable p] {x : Action α}
    (hx : NeverRejects x) : NeverRejects (if p then throw .reported else x) := by
  split
  · exact neverRejects_throw rfl
  · exact hx

/-! ### Commands -/

lemma isClean_runConvert (s : Settings) (cancelled : Bool) (ws : Words) :
    IsClean (runConvert s cancelled ws) :=
  .bind (readsOnly_lift (manner s ws)) fun k =>
    .bind (readsOnly_runBatch k cancelled ws) fun jobs =>
      (isClean_putCode _ jobs).bind_of_neverRejects fun _ =>
        (neverRejects_reportJobs k jobs).bind fun _ =>
          neverRejects_ite_throw (failsAs_pure false ())

lemma isClean_runCheck (s : Settings) (cancelled : Bool) (ws : Words) :
    IsClean (runCheck s cancelled ws) := by
  refine .bind (readsOnly_lift (manner s ws)) fun k =>
    .bind (readsOnly_runBatch k cancelled ws) fun jobs => ?_
  refine ((neverRejects_reportJobs k jobs).bind fun _ => neverRejects_ite_throw ?_).isClean
  split
  · exact neverRejects_print _
  · exact failsAs_pure false ()

/-- A watch that cannot begin has converted nothing. -/
lemma isClean_start (k : Manner) (output : Text) (quiet : ℕ) (cancelled : Bool)
    (paths : List Text) : IsClean (attempt id (Watch.start k output quiet cancelled paths)) := by
  intro world f hf _
  have hsame := prepare_snd world k output quiet paths
  rw [run_attempt, Watch.start, bind_apply] at hf ⊢
  generalize (Watch.prepare k output quiet paths : StateM World _) world = prepared at hf hsame
  obtain ⟨_ | w, after⟩ := prepared
  · exact hsame
  · cases hf

/-- A command that first refuses some words. -/
lemma IsClean.guard {β : Type} {p : Prop} [Decidable p] {f : Failure} {g : PUnit → Action β}
    (hg : IsClean (g ⟨⟩)) : IsClean (if p then throw f >>= g else g ⟨⟩) := by
  split
  · exact ReadsOnly.isClean fun _ => rfl
  · exact hg

lemma isClean_runWatch (s : Settings) (cancelled : Bool) (ws : Words) :
    IsClean (runWatch s cancelled ws) :=
  .guard <| .guard <| .bind (readsOnly_lift (manner s ws)) fun k =>
    (isClean_start k _ quietTime cancelled _).bind_of_neverRejects fun _ => failsAs_pure false _

lemma isClean_runCommand (c : Name) (cancelled : Bool) (ws : Words) :
    IsClean (runCommand c cancelled ws) := by
  refine .bind (readsOnly_loadSettings ws) fun s => ?_
  cases c with
  | convert =>
    exact (isClean_runConvert s cancelled ws).bind_of_neverRejects fun _ => failsAs_pure false _
  | check =>
    exact (isClean_runCheck s cancelled ws).bind_of_neverRejects fun _ => failsAs_pure false _
  | watch => exact isClean_runWatch s cancelled ws
  | version => exact ((neverRejects_print _).bind fun _ => failsAs_pure false _).isClean

lemma isClean_run (cancelled : Bool) (words : List Text) : IsClean (run cancelled words) := by
  refine .bind (readsOnly_lift (readInvocation words)) fun invocation => ?_
  cases invocation with
  | help => exact (readsOnly_pure _).isClean
  | command c ws => exact isClean_runCommand c cancelled ws

/-! ### Why a conversion is refused -/

/-- There is no collision exactly if the output names differ from each other and from those of the
inputs before. -/
lemma collisionAfter?_eq_none_iff (seen paths : List Text) :
    collisionAfter? seen paths = none ↔
      (paths.map outputName).Nodup ∧ ∀ p ∈ paths, ∀ q ∈ seen, outputName q ≠ outputName p := by
  induction paths generalizing seen with
  | nil => simp [collisionAfter?]
  | cons path paths ih =>
    rw [collisionAfter?]
    cases hfind : seen.find? (outputName · == outputName path) with
    | some first =>
      have hfirst := List.find?_some hfind
      have hmem := List.mem_of_find?_eq_some hfind
      simp only [beq_iff_eq] at hfirst
      simp only [reduceCtorEq, false_iff, not_and]
      exact fun _ h => h path List.mem_cons_self first hmem hfirst
    | none =>
      rw [List.find?_eq_none] at hfind
      simp only [beq_iff_eq] at hfind
      simp only [ih, List.map_cons, List.nodup_cons, List.mem_map, List.mem_cons, forall_eq_or_imp,
        not_exists, not_and]
      constructor
      · rintro ⟨hnodup, hapart⟩
        exact ⟨⟨fun p hp heq => (hapart p hp).1 heq.symm, hnodup⟩, hfind,
          fun p hp => (hapart p hp).2⟩
      · rintro ⟨⟨hpath, hnodup⟩, -, hapart⟩
        exact ⟨hnodup, fun p hp => ⟨fun heq => hpath p hp heq.symm, hapart p hp⟩⟩

lemma collision?_eq_none_iff (paths : List Text) :
    collision? paths = none ↔ (paths.map outputName).Nodup := by
  simp [collision?, collisionAfter?_eq_none_iff]

/-- Why a conversion is refused in a world: one of its flags says something that it cannot say, or
something is wrong with its inputs. -/
inductive Refused (ws : Words) (world : World) : Prop where
  /-- There is no such dialect. -/
  | dialect {name : Text} (given : ws.given? dialectFlag = some name)
      (unknown : Dialect.Choice.parse? name = none)
  /-- There is no such format of diagnostics. -/
  | format {name : Text} (given : ws.given? formatFlag = some name)
      (unknown : Diagnostic.Format.ofName? name = none)
  /-- There is no conversion at a time. -/
  | jobs {n : ℤ} (given : ws.integer? jobsFlag = some n) (few : n < 1)
  /-- The standard input is named twice. -/
  | repeated (h : 1 < ws.arguments.count standardInput)
  /-- An input cannot be read. -/
  | unreadable {p : Text} {e : FileError} (named : p ∈ ws.arguments)
      (refused : inputAt world p = .error e)
  /-- Two inputs have the same output name. -/
  | collision (directory : ws.textOf outputFlag [] ≠ [])
      (same : ¬ (ws.arguments.map outputName).Nodup)

/-- The action is rejected in the world, and changes nothing there. -/
def Rejects {α : Type} (x : Action α) (world : World) : Prop :=
  ∃ f, f.isRejection ∧ x.run world = (.error f, world)

section Rejects

variable {α β : Type} {x : Action α} {g : α → Action β} {world : World}

/-- What is rejected ends there. -/
lemma Rejects.bind (h : Rejects x world) : Rejects (x >>= g) world := by
  obtain ⟨f, hf, hx⟩ := h
  exact ⟨f, hf, by rw [run_bind, hx]⟩

/-- After an action that only reads, the next one is rejected in the same world. -/
lemma Rejects.of_readsOnly (hx : ReadsOnly x) (honly : OnlyRejects x)
    (hok : ∀ a, (x.run world).1 = .ok a → Rejects (g a) world) : Rejects (x >>= g) world := by
  have hsame := hx world
  have herror := honly world
  simp only [Rejects, run_bind]
  generalize x.run world = outcome at hsame herror hok
  obtain ⟨f | a, after⟩ := outcome
  · obtain rfl : after = world := hsame
    exact ⟨f, herror f rfl, rfl⟩
  · obtain rfl : after = world := hsame
    exact hok a rfl

end Rejects

lemma onlyRejects_manner (s : Settings) (ws : Words) :
    OnlyRejects (liftM (manner s ws)) := by
  intro world f h
  rw [run_lift] at h
  unfold manner at h
  repeat' split at h
  all_goals cases h
  all_goals rfl

/-- In a command that has a manner the flags are known. -/
lemma flags_of_manner {s : Settings} {ws : Words} {k : Manner} (h : manner s ws = .ok k) :
    (∀ name, ws.given? dialectFlag = some name → Dialect.Choice.parse? name ≠ none) ∧
      (∀ name, ws.given? formatFlag = some name → Diagnostic.Format.ofName? name ≠ none) ∧
      ∀ n, ws.integer? jobsFlag = some n → 1 ≤ n := by
  unfold manner at h
  repeat' split at h
  all_goals cases h
  all_goals simp_all

lemma onlyRejects_runBatch (k : Manner) (cancelled : Bool) (ws : Words) :
    OnlyRejects (runBatch k cancelled ws) := by
  refine .bind ?_ fun paths => onlyRejects_attempt (fun _ => rfl) _
  intro world f hf
  rw [run_lift] at hf
  unfold inputPaths at hf
  split_ifs at hf
  cases hf
  rfl

lemma onlyRejects_loadSettings (ws : Words) : OnlyRejects (loadSettings ws) := by
  unfold loadSettings
  by_cases hpath : ws.textOf configFlag [] = []
  · simp only [hpath, if_true]
    exact failsAs_pure true _
  · simp only [hpath, if_false]
    exact onlyRejects_attempt (fun _ => rfl) _

/-- The inputs of a command are its arguments, or the standard input if there are none. -/
lemma inputPaths_eq_ok {arguments paths : List Text} (h : inputPaths arguments = .ok paths) :
    paths.count standardInput ≤ 1 ∧ (arguments = [] ∨ paths = arguments) := by
  unfold inputPaths at h
  split_ifs at h with hempty hcount
  · cases h
    exact ⟨by simp, .inl (List.isEmpty_iff.mp hempty)⟩
  · cases h
    exact ⟨not_lt.mp hcount, .inr rfl⟩

/-- If a batch does not fail, its inputs can be read, and there is a job for each argument. -/
lemma paths_of_runBatch {k : Manner} {ws : Words} {world : World} {jobs : List Job}
    (h : ((runBatch k false ws : Action _).run world).1 = .ok jobs) :
    ws.arguments.count standardInput ≤ 1 ∧
      (∀ p ∈ ws.arguments, ∃ content, inputAt world p = .ok content) ∧
      (ws.arguments = [] ∨ jobs.map (·.path) = ws.arguments) := by
  rw [runBatch, run_bind, run_lift] at h
  cases hpaths : inputPaths ws.arguments with
  | error f => simp [hpaths] at h
  | ok paths =>
    obtain ⟨hcount, hnone | rfl⟩ := inputPaths_eq_ok hpaths
    · simp [hnone]
    set sources := ((sourcesAt ws.arguments : StateM World Batch.Sources) world).1
    have hresult := Batch.isResult_convertAll hcount k.jobs k.options sources
    rw [hpaths] at h
    change Except.mapError _ (Batch.convertAll k.jobs k.options false sources ws.arguments) = _ at h
    generalize Batch.convertAll k.jobs k.options false sources ws.arguments = result
      at h hresult
    cases result with
    | error f => cases h
    | ok jobs' =>
      cases h
      refine ⟨hcount, fun p hp => ?_, .inr ?_⟩
      · obtain ⟨content, hcontent⟩ := hresult.succeeds.mp ⟨jobs, rfl⟩ p hp
        exact ⟨content, (content_sourcesAt world hp).symm.trans hcontent⟩
      · have hjobs := hresult.jobs jobs rfl
        rw [← List.forall₂_eq_eq_eq, List.forall₂_map_left_iff]
        exact hjobs.flip.imp fun job p ⟨_, _, hjob⟩ => by rw [hjob]

/-- Two inputs of the same output name are refused. -/
lemma rejects_putCode {dir : Text} {jobs : List Job} (hdir : dir ≠ [])
    (hsame : ¬ (jobs.map (outputName ·.path)).Nodup) (world : World) :
    Rejects (putCode dir jobs) world := by
  have hcollision : collision? (jobs.map (·.path)) ≠ none := by
    rwa [Ne, collision?_eq_none_iff, List.map_map]
  obtain ⟨⟨first, second, name⟩, hsome⟩ := Option.ne_none_iff_exists'.mp hcollision
  refine ⟨.output (.collision first second name), rfl, ?_⟩
  rw [putCode, if_neg hdir, run_attempt, writeJobs, writeOutputs, List.map_map]
  simp only [Function.comp_def, hsome]
  rfl

/-- A conversion that has a reason to be refused is rejected. -/
lemma Refused.rejects_runConvert {ws : Words} {world : World} (h : Refused ws world)
    (s : Settings) : Rejects (runConvert s false ws) world := by
  refine .of_readsOnly (readsOnly_lift (manner s ws)) (onlyRejects_manner s ws)
    fun k hk => ?_
  obtain ⟨hdialect, hformat, hjobs⟩ := flags_of_manner hk
  refine .of_readsOnly (readsOnly_runBatch k false ws) (onlyRejects_runBatch k false ws)
    fun jobs hok => ?_
  obtain ⟨hcount, hread, hpaths⟩ := paths_of_runBatch hok
  cases h with
  | dialect given unknown => exact absurd unknown (hdialect _ given)
  | format given unknown => exact absurd unknown (hformat _ given)
  | jobs given few => exact absurd (hjobs _ given) (not_le.mpr few)
  | repeated h => exact absurd hcount (not_le.mpr h)
  | unreadable named refused =>
    obtain ⟨content, hcontent⟩ := hread _ named
    cases hcontent.symm.trans refused
  | collision directory same =>
    have hnames : ws.arguments ≠ [] := by
      rintro hnone
      simp [hnone] at same
    have hjobs := hpaths.resolve_left hnames
    refine (rejects_putCode directory ?_ world).bind
    rw [← hjobs, List.map_map] at same
    exact same

end DtoSchema.Command
