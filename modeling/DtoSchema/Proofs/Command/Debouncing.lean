import Mathlib
import DtoSchema.Command.Watch

/-!
# A watch loses no change and converts nothing else

A watch goes from state to state by events and by ticks, and a log is kept of what it notices and
converts.  A tick goes through the pending files in any order.  The pending files can be read off
the log: a file is pending exactly if the latest thing that the log says about it is a change, and
then it is pending since that change (`Follows`).  Everything else follows from this.  Since a file
leaves the pending ones when it is converted, there is a change between two conversions of it
(`exists_noticed_between`), so a burst of changes is answered once.
-/

namespace DtoSchema.Command.Watch

/-! ### Steps and logs -/

/-- What a watch notices and does. -/
inductive Entry where
  /-- An event was delivered. -/
  | noticed (event : Event)
  /-- The clock ticked. -/
  | ticked (now : ℕ)
  /-- The conversion of a file began. -/
  | converted (request : Request)

/-- A step of a watch, with what it adds to the log. -/
inductive Step : Watch → List Entry → Watch → Prop where
  /-- An event is delivered. -/
  | notice (w : Watch) (e : Event) : Step w [.noticed e] (w.notice e)
  /-- The clock ticks, and the watch goes through the pending files in some order. -/
  | tick (w : Watch) (now : ℕ) (files : List (Text × ℕ)) (h : files.Perm w.pending) :
      Step w (.ticked now :: (sweep now files w).1.map .converted) (sweep now files w).2

/-- Some steps of a watch, with the log of them. -/
inductive Run (start : Watch) : List Entry → Watch → Prop where
  /-- No step. -/
  | nil : Run start [] start
  /-- One more step. -/
  | snoc {log entries : List Entry} {w w' : Watch} (h : Run start log w)
      (step : Step w entries w') :
      Run start (log ++ entries) w'

/-! ### What the log says about a file -/

/-- The event is a change of the content of a watched file. -/
def concerns (w : Watch) (p : Text) (e : Event) : Bool :=
  Path.clean e.path == p && decide (p ∈ w.targets) && e.change.touchesContent

lemma concerns_iff {w : Watch} {p : Text} {e : Event} :
    w.concerns p e ↔ Path.clean e.path = p ∧ p ∈ w.targets ∧ e.change.touchesContent := by
  simp [concerns, and_assoc]

/-- The entry is about a file: a change of it, or its conversion. -/
def Entry.isAbout (w : Watch) (p : Text) : Entry → Bool
  | noticed e => w.concerns p e
  | ticked _ => false
  | converted r => r.path == p

/-- The latest event of the file in the log is at a time. -/
def IsLatest (w : Watch) (p : Text) (t : ℕ) (log : List Entry) : Prop :=
  ∃ before e after, log = before ++ .noticed e :: after ∧ w.concerns p e ∧ e.time = t ∧
    ∀ e', .noticed e' ∈ after → ¬ w.concerns p e'

/-- The latest event of the file in the log is at a time, and the file was not converted since. -/
def Awaits (w : Watch) (p : Text) (t : ℕ) (log : List Entry) : Prop :=
  ∃ before e after, log = before ++ .noticed e :: after ∧ w.concerns p e ∧ e.time = t ∧
    ∀ x ∈ after, ¬ x.isAbout w p

variable {w₀ w w' : Watch} {p : Text} {t now : ℕ} {log l l' : List Entry}

lemma Awaits.isLatest (h : Awaits w p t log) : IsLatest w p t log := by
  obtain ⟨before, e, after, hlog, he, ht, hafter⟩ := h
  exact ⟨before, e, after, hlog, he, ht, fun e' he' => hafter _ he'⟩

/-- An element that is not in the second of two parts stands in the first one. -/
lemma exists_of_append_cons {α : Type*} {x : α} {a b c d : List α} (h : a ++ x :: b = c ++ d)
    (hx : x ∉ d) : ∃ b', c = a ++ x :: b' ∧ b = b' ++ d := by
  rcases List.append_eq_append_iff.mp h with ⟨m, rfl, hm⟩ | ⟨m, rfl, rfl⟩
  · cases m with
    | nil =>
      rw [List.nil_append] at hm
      exact absurd (hm ▸ List.mem_cons_self) hx
    | cons y m =>
      obtain ⟨rfl, rfl⟩ := List.cons.inj hm
      exact ⟨m, rfl, rfl⟩
  · exact absurd (List.mem_append_right m List.mem_cons_self) hx

/-- An element stands in the first or in the second of two parts. -/
lemma append_cons_eq_append {α : Type*} {x : α} {a b c d : List α} (h : a ++ x :: b = c ++ d) :
    (∃ b', c = a ++ x :: b' ∧ b = b' ++ d) ∨ ∃ a', d = a' ++ x :: b ∧ a = c ++ a' := by
  rcases List.append_eq_append_iff.mp h with ⟨m, rfl, hm⟩ | ⟨m, rfl, rfl⟩
  · cases m with
    | nil => exact .inr ⟨[], by simpa using hm.symm, by simp⟩
    | cons y m =>
      obtain ⟨rfl, rfl⟩ := List.cons.inj hm
      exact .inl ⟨m, rfl, rfl⟩
  · exact .inr ⟨m, rfl, rfl⟩

/-- What is awaited after two parts of a log is awaited after the second one, or it is awaited after
the first one and the second one says nothing about the file. -/
lemma awaits_append :
    Awaits w p t (l ++ l') ↔ Awaits w p t l' ∨ (Awaits w p t l ∧ ∀ x ∈ l', ¬ x.isAbout w p) := by
  constructor
  · rintro ⟨before, e, after, hlog, he, ht, hafter⟩
    rcases append_cons_eq_append hlog.symm with ⟨after', rfl, rfl⟩ | ⟨before', rfl, rfl⟩
    · refine .inr ⟨⟨before, e, after', rfl, he, ht, fun x hx => ?_⟩, fun x hx => ?_⟩
      · exact hafter x (List.mem_append_left _ hx)
      · exact hafter x (List.mem_append_right _ hx)
    · exact .inl ⟨before', e, after, rfl, he, ht, hafter⟩
  · rintro (⟨before, e, after, rfl, he, ht, hafter⟩ |
      ⟨⟨before, e, after, rfl, he, ht, hafter⟩, hl'⟩)
    · exact ⟨l ++ before, e, after, by simp, he, ht, hafter⟩
    · refine ⟨before, e, after ++ l', by simp, he, ht, fun x hx => ?_⟩
      rcases List.mem_append.mp hx with hx | hx
      · exact hafter x hx
      · exact hl' x hx

/-- After a change of the file this change is awaited. -/
lemma awaits_noticed {e : Event} : Awaits w p t [.noticed e] ↔ w.concerns p e ∧ e.time = t := by
  constructor
  · rintro ⟨before, e', after, hlog, he, ht, -⟩
    have hmem : Entry.noticed e' ∈ [Entry.noticed e] := hlog ▸ by simp
    obtain rfl : e' = e := by simpa using hmem
    exact ⟨he, ht⟩
  · rintro ⟨he, ht⟩
    exact ⟨[], e, [], rfl, he, ht, by simp⟩

/-- Ticks and conversions alone let nothing be awaited. -/
lemma not_awaits_of_forall (h : ∀ e, .noticed e ∉ l) : ¬ Awaits w p t l := by
  rintro ⟨before, e, after, rfl, -⟩
  exact h e (by simp)

/-- When a log ends in a part with an event of the file, the latest event is in this part. -/
lemma IsLatest.of_append {e : Event} (h : IsLatest w p t (l ++ .noticed e :: l'))
    (he : w.concerns p e) : IsLatest w p t (.noticed e :: l') := by
  obtain ⟨before, e', after, hlog, he', ht, hafter⟩ := h
  rcases append_cons_eq_append hlog.symm with ⟨after', rfl, rfl⟩ | ⟨before', hrest, rfl⟩
  · exact absurd he (hafter e (by simp))
  · exact ⟨before', e', after, hrest, he', ht, hafter⟩

/-- A log with an event of the file has a latest one. -/
lemma exists_isLatest {e : Event} (he : w.concerns p e) (l : List Entry) :
    ∃ t, IsLatest w p t (.noticed e :: l) := by
  induction l using List.reverseRecOn with
  | nil => exact ⟨e.time, [], e, [], rfl, he, rfl, by simp⟩
  | append_singleton l x ih =>
    by_cases hx : ∃ e', x = .noticed e' ∧ w.concerns p e'
    · obtain ⟨e', rfl, he'⟩ := hx
      exact ⟨e'.time, .noticed e :: l, e', [], by simp, he', rfl, by simp⟩
    · obtain ⟨t, before, e', after, hl, he', ht, hafter⟩ := ih
      refine ⟨t, before, e', after ++ [x], ?_, he', ht, ?_⟩
      · rw [← List.cons_append, hl, List.append_assoc, List.cons_append]
      intro e'' hmem
      rcases List.mem_append.mp hmem with hmem | hmem
      · exact hafter e'' hmem
      · exact fun he'' => hx ⟨e'', (List.mem_singleton.mp hmem).symm, he''⟩

/-- The latest event is awaited if the file was not converted. -/
lemma IsLatest.awaits (h : IsLatest w p t l) (hl : ∀ r, .converted r ∈ l → r.path ≠ p) :
    Awaits w p t l := by
  obtain ⟨before, e, after, rfl, he, ht, hafter⟩ := h
  refine ⟨before, e, after, rfl, he, ht, fun x hx => ?_⟩
  cases x with
  | noticed e' => exact hafter e' hx
  | ticked now => simp [Entry.isAbout]
  | converted r => simpa [Entry.isAbout] using hl r (by simp [hx])

/-! ### What a tick does -/

section Sweep

variable {file : Text × ℕ} {files : List (Text × ℕ)}

lemma sweep_cons_of_isDue (h : w.isDue now file) :
    sweep now (file :: files) w =
      (⟨file.1, w.forget file.1⟩ :: (sweep now files (w.forget file.1)).1,
        (sweep now files (w.forget file.1)).2) := by
  rw [sweep, if_pos h]

lemma sweep_cons_of_not_isDue (h : ¬ w.isDue now file) :
    sweep now (file :: files) w = sweep now files w := by
  rw [sweep, if_neg h]

/-- A tick asks for the files that have been quiet for long enough. -/
lemma map_path_sweep (now : ℕ) (files : List (Text × ℕ)) (w : Watch) :
    (sweep now files w).1.map (·.path) = (files.filter (w.isDue now)).map (·.1) := by
  induction files generalizing w with
  | nil => rfl
  | cons file files ih =>
    by_cases hdue : w.isDue now file
    · rw [sweep_cons_of_isDue hdue, List.filter_cons_of_pos hdue, List.map_cons, List.map_cons, ih]
      rfl
    · rw [sweep_cons_of_not_isDue hdue, List.filter_cons_of_neg hdue, ih]

/-- After a tick the files that were asked for are no longer pending, and nothing else changes. -/
lemma sweep_snd (now : ℕ) (files : List (Text × ℕ)) (w : Watch) :
    (sweep now files w).2 = { w with
      pending := w.pending.filter fun file => file.1 ∉ (sweep now files w).1.map (·.path) } := by
  induction files generalizing w with
  | nil => simp [sweep]
  | cons file files ih =>
    by_cases hdue : w.isDue now file
    · rw [sweep_cons_of_isDue hdue, ih]
      simp only [forget, List.filter_filter]
      congr 2
      funext other
      by_cases hother : other.1 = file.1 <;> simp [hother]
    · rw [sweep_cons_of_not_isDue hdue]
      exact ih w

/-- A file is asked for with the watch as it was, except for the pending files, and it is no longer
pending when it is read. -/
lemma of_mem_sweep {r : Request} (hr : r ∈ (sweep now files w).1) :
    r.watch = { w with pending := r.watch.pending } ∧ r.path ∉ r.watch.pending.map (·.1) := by
  induction files generalizing w with
  | nil => simp [sweep] at hr
  | cons file files ih =>
    by_cases hdue : w.isDue now file
    · rw [sweep_cons_of_isDue hdue, List.mem_cons] at hr
      rcases hr with rfl | hr
      · exact ⟨rfl, by simp [forget]⟩
      · exact ⟨(ih hr).1.trans rfl, (ih hr).2⟩
    · rw [sweep_cons_of_not_isDue hdue] at hr
      exact ih hr

end Sweep

/-! ### Pending files and the log -/

/-- The pending files are those for which a change is awaited. -/
structure Follows (w₀ : Watch) (log : List Entry) (w : Watch) : Prop where
  /-- Only the pending files change. -/
  same : w = { w₀ with pending := w.pending }
  /-- A file is pending once. -/
  nodup : (w.pending.map (·.1)).Nodup
  /-- A file is pending since its latest change, if it was not converted after that. -/
  mem_pending : ∀ p t, (p, t) ∈ w.pending ↔ Awaits w₀ p t log

namespace Follows

lemma begin (h : w₀.pending = []) : Follows w₀ [] w₀ where
  same := rfl
  nodup := by simp [h]
  mem_pending := fun p t => by
    simp only [h, List.not_mem_nil, false_iff]
    exact not_awaits_of_forall (by simp)

/-- An event is delivered. -/
lemma notice (h : Follows w₀ log w) (e : Event) :
    Follows w₀ (log ++ [.noticed e]) (w.notice e) := by
  have htargets : w.targets = w₀.targets := by rw [h.same]
  by_cases he : Path.clean e.path ∈ w.targets ∧ e.change.touchesContent
  · have hconcerns : ∀ p, w₀.concerns p e = decide (Path.clean e.path = p) := by
      intro p
      rw [Bool.eq_iff_iff, decide_eq_true_eq, concerns_iff, and_iff_left_iff_imp]
      rintro rfl
      exact ⟨htargets ▸ he.1, he.2⟩
    simp only [Watch.notice, if_pos he]
    refine ⟨?_, ?_, fun p t => ?_⟩
    · rw [h.same]
    · rw [List.map_append, List.nodup_append]
      refine ⟨h.nodup.sublist (List.filter_sublist.map _), by simp, ?_⟩
      intro a ha b hb
      simp only [List.mem_map, List.mem_filter] at ha
      obtain ⟨file, ⟨-, hne⟩, rfl⟩ := ha
      simp only [List.map_cons, List.map_nil, List.mem_singleton] at hb
      rw [hb]
      simpa using hne
    · rw [awaits_append, awaits_noticed, ← h.mem_pending, hconcerns]
      by_cases hp : Path.clean e.path = p
      · simpa [hp, Entry.isAbout, hconcerns] using eq_comm
      · simp [hp, Entry.isAbout, hconcerns, Ne.symm hp]
  · -- the event is about no watched file, or is no change of its content
    have hconcerns : ∀ p, ¬ w₀.concerns p e := by
      intro p hp
      obtain ⟨rfl, hmem, htouches⟩ := concerns_iff.mp hp
      exact he ⟨htargets ▸ hmem, htouches⟩
    simp only [Watch.notice, if_neg he]
    refine ⟨h.same, h.nodup, fun p t => ?_⟩
    rw [awaits_append, awaits_noticed, ← h.mem_pending]
    simp [Entry.isAbout, hconcerns]

/-- The clock ticks. -/
lemma tick (h : Follows w₀ log w) (now : ℕ) (files : List (Text × ℕ)) :
    Follows w₀ (log ++ .ticked now :: (sweep now files w).1.map .converted)
      (sweep now files w).2 := by
  rw [sweep_snd]
  refine ⟨?_, h.nodup.sublist (List.filter_sublist.map _), fun p t => ?_⟩
  · rw [h.same]
  · have hnone : ¬ Awaits w₀ p t (.ticked now :: (sweep now files w).1.map .converted) :=
      not_awaits_of_forall (by simp)
    simp [awaits_append, hnone, ← h.mem_pending, Entry.isAbout]

/-- A step. -/
lemma step {entries : List Entry} (h : Follows w₀ log w) (hstep : Step w entries w') :
    Follows w₀ (log ++ entries) w' := by
  cases hstep with
  | notice e => exact h.notice e
  | tick now files hfiles => exact h.tick now files

/-- The pending files are those for which a change is awaited, whatever happens. -/
lemma of_run (hw₀ : w₀.pending = []) (h : Run w₀ log w) : Follows w₀ log w := by
  induction h with
  | nil => exact begin hw₀
  | snoc _ hstep ih => exact ih.step hstep

/-- A file that a tick asks for has been quiet for long enough. -/
lemma exists_awaits_of_mem_sweep (h : Follows w₀ log w) {files : List (Text × ℕ)}
    (hfiles : files.Perm w.pending) {r : Request} (hr : r ∈ (sweep now files w).1) :
    ∃ t, Awaits w₀ r.path t log ∧ w₀.quiet + t ≤ now := by
  have hpath : r.path ∈ (files.filter (w.isDue now)).map (·.1) :=
    map_path_sweep now files w ▸ List.mem_map_of_mem hr
  obtain ⟨⟨p, t⟩, hfile, hp⟩ := List.mem_map.mp hpath
  obtain ⟨hmem, hdue⟩ := List.mem_filter.mp hfile
  refine ⟨t, ?_, ?_⟩
  · rw [← hp]
    exact (h.mem_pending p t).mp (hfiles.mem_iff.mp hmem)
  · rw [isDue, decide_eq_true_eq] at hdue
    rw [h.same] at hdue
    exact hdue

/-- A tick asks for each file once. -/
lemma nodup_sweep (h : Follows w₀ log w) {files : List (Text × ℕ)} (hfiles : files.Perm w.pending) :
    ((sweep now files w).1.map (·.path)).Nodup := by
  rw [map_path_sweep]
  have hnodup : (files.map (·.1)).Nodup := (hfiles.map _).nodup_iff.mpr h.nodup
  exact hnodup.sublist (List.filter_sublist.map _)

/-- A tick asks for a file that has been quiet for long enough. -/
lemma mem_sweep_of_awaits (h : Follows w₀ log w) {files : List (Text × ℕ)}
    (hfiles : files.Perm w.pending) (ht : Awaits w₀ p t log) (hdue : w₀.quiet + t ≤ now) :
    p ∈ (sweep now files w).1.map (·.path) := by
  rw [map_path_sweep]
  refine List.mem_map.mpr ⟨(p, t), List.mem_filter.mpr ⟨?_, ?_⟩, rfl⟩
  · exact hfiles.mem_iff.mpr ((h.mem_pending p t).mpr ht)
  · rw [isDue, decide_eq_true_eq, h.same]
    exact hdue

end Follows

/-! ### Conversions -/

/-- A conversion among those of a tick. -/
lemma exists_of_map_converted {requests : List Request} {r : Request} {before after : List Entry}
    (h : .ticked now :: requests.map .converted = before ++ .converted r :: after) :
    ∃ others others', requests = others ++ r :: others' ∧
      before = .ticked now :: others.map .converted ∧ after = others'.map .converted := by
  cases before with
  | nil => simp at h
  | cons x before =>
    obtain ⟨rfl, hrest⟩ := List.cons.inj h
    obtain ⟨others, rest, rfl, rfl, hr⟩ := List.map_eq_append_iff.mp hrest
    obtain ⟨r', others', rfl, hr', rfl⟩ := List.map_eq_cons_iff.mp hr
    obtain rfl : r' = r := by simpa using hr'
    exact ⟨others, others', rfl, rfl, rfl⟩

/-- What the log says before a conversion: the clock has ticked, only other files were converted
since, and the latest event of the file is old enough and was not answered. -/
lemma Run.before_converted (hw₀ : w₀.pending = []) (h : Run w₀ log w) {r : Request}
    {before after : List Entry} (hlog : log = before ++ .converted r :: after) :
    r.path ∉ r.watch.pending.map (·.1) ∧
    ∃ earlier now others t, before = earlier ++ .ticked now :: List.map .converted others ∧
      r.path ∉ others.map (·.path) ∧ Awaits w₀ r.path t earlier ∧ w₀.quiet + t ≤ now := by
  induction h generalizing after with
  | nil => simp at hlog
  | @snoc log entries w w' h hstep ih =>
    rcases append_cons_eq_append hlog.symm with ⟨after', hlog', -⟩ | ⟨before', hentries, rfl⟩
    · exact ih hlog'
    · -- the conversion belongs to the last step, which is a tick
      have hmem : .converted r ∈ entries := hentries ▸ by simp
      cases hstep with
      | notice e => simp at hmem
      | tick now files hfiles =>
        have hfollows := Follows.of_run hw₀ h
        obtain ⟨others, others', hrequests, rfl, -⟩ := exists_of_map_converted hentries
        have hr : r ∈ (sweep now files w).1 := by simp [hrequests]
        obtain ⟨t, ht, hdue⟩ := hfollows.exists_awaits_of_mem_sweep hfiles hr
        refine ⟨(of_mem_sweep hr).2, log, now, others, t, rfl, ?_, ht, hdue⟩
        have hnodup : ((sweep now files w).1.map (·.path)).Nodup := hfollows.nodup_sweep hfiles
        rw [hrequests, List.map_append, List.map_cons, List.nodup_append] at hnodup
        exact fun hmem => hnodup.2.2 _ hmem _ List.mem_cons_self rfl

/-- A tick in the log: the watch before it and the order in which it went through the files. -/
lemma Run.exists_sweep (h : Run w₀ log w) {before after : List Entry}
    (hlog : log = before ++ .ticked now :: after) :
    ∃ w₁ files rest, Run w₀ before w₁ ∧ files.Perm w₁.pending ∧
      after = (sweep now files w₁).1.map .converted ++ rest := by
  induction h generalizing after with
  | nil => simp at hlog
  | @snoc log entries w w' h hstep ih =>
    rcases append_cons_eq_append hlog.symm with ⟨after', hlog', rfl⟩ | ⟨before', hentries, rfl⟩
    · obtain ⟨w₁, files, rest, hrun, hfiles, rfl⟩ := ih hlog'
      exact ⟨w₁, files, rest ++ entries, hrun, hfiles, by simp⟩
    · have hmem : .ticked now ∈ entries := hentries ▸ by simp
      cases hstep with
      | notice e => simp at hmem
      | tick now' files hfiles =>
        cases before' with
        | nil =>
          simp only [List.nil_append, List.cons.injEq, Entry.ticked.injEq] at hentries
          obtain ⟨rfl, rfl⟩ := hentries
          exact ⟨w, files, [], by simpa using h, hfiles, by simp⟩
        | cons x before' =>
          -- a tick comes before the conversions that belong to it
          have hsecond : .ticked now ∈ (sweep now' files w).1.map Entry.converted := by
            simp only [List.cons_append, List.cons.injEq] at hentries
            exact hentries.2 ▸ by simp
          simp at hsecond

/-- There is a change of a file between two conversions of it. -/
lemma Run.exists_noticed_between (hw₀ : w₀.pending = []) (h : Run w₀ log w) {r r' : Request}
    {before between after : List Entry}
    (hlog : log = before ++ .converted r :: between ++ .converted r' :: after)
    (hpath : r.path = r'.path) : ∃ e, .noticed e ∈ between ∧ w₀.concerns r'.path e := by
  obtain ⟨-, earlier, now, others, t, hbefore, hothers, ht, -⟩ := h.before_converted hw₀ hlog
  -- the first conversion does not belong to the tick of the second one
  have hr : .converted r ∉ Entry.ticked now :: others.map .converted := by
    intro hmem
    have hmem' : r ∈ others := by simpa using hmem
    exact hothers (hpath ▸ List.mem_map_of_mem hmem')
  obtain ⟨between', rfl, rfl⟩ := exists_of_append_cons hbefore hr
  rcases awaits_append.mp ht with ht | ⟨-, hnone⟩
  · obtain ⟨b, e, a, hlist, he, -⟩ := ht
    have hmem : .noticed e ∈ Entry.converted r :: between' := hlist ▸ by simp
    exact ⟨e, List.mem_append_left _ (by simpa using hmem), he⟩
  · exact absurd (by simp [Entry.isAbout, hpath]) (hnone _ List.mem_cons_self)

/-- While no tick finds the file quiet for long enough, it is not converted. -/
lemma Run.not_converted_of_busy (hw₀ : w₀.pending = []) (h : Run w₀ log w) {e : Event}
    {before burst after : List Entry} (hlog : log = before ++ .noticed e :: (burst ++ after))
    (he : w₀.concerns p e)
    (hbusy : ∀ b a now t, burst = b ++ .ticked now :: a → IsLatest w₀ p t (.noticed e :: b) →
      now < w₀.quiet + t) :
    ∀ r, .converted r ∈ burst → r.path ≠ p := by
  rintro r hr rfl
  obtain ⟨b, a, rfl⟩ := List.append_of_mem hr
  have hlog' : log = (before ++ .noticed e :: b) ++ .converted r :: (a ++ after) := by simp [hlog]
  obtain ⟨-, earlier, now, others, t, hbefore, -, ht, hdue⟩ := h.before_converted hw₀ hlog'
  -- the tick of the conversion stands in the burst
  obtain ⟨b', rfl, rfl⟩ := exists_of_append_cons hbefore (by simp)
  have hearly := hbusy b' (others.map .converted ++ .converted r :: a) now t (by simp)
    (ht.isLatest.of_append he)
  omega

/-- A burst of changes is answered once, at the first tick that finds the file quiet for long
enough. -/
lemma Run.converted_of_quiet (hw₀ : w₀.pending = []) (h : Run w₀ log w) {e : Event}
    {before burst after : List Entry}
    (hlog : log = before ++ .noticed e :: (burst ++ .ticked now :: after)) (he : w₀.concerns p e)
    (hburst : ∀ r, .converted r ∈ burst → r.path ≠ p)
    (ht : IsLatest w₀ p t (.noticed e :: burst)) (hdue : w₀.quiet + t ≤ now)
    (hafter : ∀ e', .noticed e' ∈ after → ¬ w₀.concerns p e') :
    ∃ others r rest, after = List.map .converted others ++ .converted r :: rest ∧ r.path = p ∧
      p ∉ others.map (·.path) ∧ ∀ r', .converted r' ∈ rest → r'.path ≠ p := by
  have htick : log = (before ++ .noticed e :: burst) ++ .ticked now :: after := by simp [hlog]
  obtain ⟨w₁, files, rest, hrun, hfiles, rfl⟩ := h.exists_sweep htick
  have hfollows := Follows.of_run hw₀ hrun
  have hawaits : Awaits w₀ p t (before ++ .noticed e :: burst) :=
    awaits_append.mpr (.inl (ht.awaits (by simpa using hburst)))
  obtain ⟨r, hr, rfl⟩ := List.mem_map.mp (hfollows.mem_sweep_of_awaits hfiles hawaits hdue)
  obtain ⟨others, others', hrequests⟩ := List.append_of_mem hr
  have hnodup : ((sweep now files w₁).1.map (·.path)).Nodup := hfollows.nodup_sweep hfiles
  rw [hrequests, List.map_append, List.map_cons, List.nodup_append] at hnodup
  refine ⟨others, r, others'.map .converted ++ rest, by simp [hrequests], rfl,
    fun hmem => hnodup.2.2 _ hmem _ List.mem_cons_self rfl, fun r' hr' hpath => ?_⟩
  -- a second conversion would need another change
  obtain ⟨between, last, hlast⟩ := List.append_of_mem hr'
  have hlog' : log = (before ++ .noticed e :: burst ++ .ticked now :: others.map .converted) ++
      .converted r :: between ++ .converted r' :: last := by
    rw [hlog, hrequests, List.map_append, List.map_cons, List.append_assoc, List.cons_append, hlast]
    simp
  obtain ⟨e', hmem, he'⟩ := h.exists_noticed_between hw₀ hlog' hpath.symm
  refine hafter e' ?_ (hpath ▸ he')
  rw [hrequests, List.map_append, List.map_cons, List.append_assoc, List.cons_append, hlast]
  simp [hmem]

/-! ### Events that do not matter -/

/-- The entry is not an event that is about no watched file or is no change of a content. -/
def Entry.matters (w : Watch) : Entry → Bool
  | noticed e => decide (Path.clean e.path ∈ w.targets) && e.change.touchesContent
  | ticked _ | converted _ => true

/-- Without the events that do not matter everything else stays as it is. -/
lemma Run.filter_matters (hw₀ : w₀.pending = []) (h : Run w₀ log w) :
    Run w₀ (log.filter (·.matters w₀)) w := by
  induction h with
  | nil => exact .nil
  | @snoc log entries w w' h hstep ih =>
    rw [List.filter_append]
    cases hstep with
    | notice e =>
      have htargets : w.targets = w₀.targets := by rw [(Follows.of_run hw₀ h).same]
      by_cases he : Path.clean e.path ∈ w.targets ∧ e.change.touchesContent
      · have hmatters : (Entry.noticed e).matters w₀ := by simpa [Entry.matters, htargets] using he
        rw [List.filter_cons_of_pos hmatters, List.filter_nil]
        exact ih.snoc (.notice w e)
      · have hmatters : ¬ (Entry.noticed e).matters w₀ := by
          simpa [Entry.matters, htargets] using he
        rw [List.filter_cons_of_neg hmatters, List.filter_nil, List.append_nil, Watch.notice,
          if_neg he]
        exact ih
    | tick now files hfiles =>
      have hall : (Entry.ticked now :: (sweep now files w).1.map .converted).filter
          (·.matters w₀) = .ticked now :: (sweep now files w).1.map .converted := by
        simp [List.filter_eq_self, Entry.matters]
      rw [hall]
      exact ih.snoc (.tick w now files hfiles)

/-! ### Every run -/

/-- A watch loses no change and converts nothing else.  Let a watch with no pending files go through
any events and ticks, where a tick goes through the pending files in any order.

* If a change of a watched file was noticed and the file was not converted since, it is pending.
* A file is converted only at a tick.  Its latest change is then old enough, and it was not
  converted since that change; and it is no longer pending when it is read.
* Events that are about no watched file or are no change of a content play no part: without them the
  log and the watch are the same.
* Changes of one file with no tick among them that finds it quiet for long enough are answered by
  exactly one conversion, at the first later tick that does find it so. -/
theorem changes_answered {w₀ w : Watch} {log : List Entry} (hw₀ : w₀.pending = [])
    (h : Run w₀ log w) :
    (∀ (p : Text) (before : List Entry) (e : Event) (after : List Entry),
      log = before ++ .noticed e :: after → w₀.concerns p e →
      (∀ r : Request, Entry.converted r ∈ after → r.path ≠ p) → p ∈ w.pending.map (·.1)) ∧
    (∀ (before : List Entry) (r : Request) (after : List Entry),
      log = before ++ .converted r :: after →
      r.path ∉ r.watch.pending.map (·.1) ∧
      ∃ (earlier : List Entry) (now : ℕ) (others : List Request) (t : ℕ),
        before = earlier ++ .ticked now :: others.map Entry.converted ∧
        Awaits w₀ r.path t earlier ∧ w₀.quiet + t ≤ now) ∧
    Run w₀ (log.filter (·.matters w₀)) w ∧
    (∀ (p : Text) (before : List Entry) (e : Event) (burst : List Entry) (now : ℕ)
        (after : List Entry) (t : ℕ),
      log = before ++ .noticed e :: (burst ++ .ticked now :: after) → w₀.concerns p e →
      (∀ (b a : List Entry) (now t : ℕ), burst = b ++ .ticked now :: a →
        IsLatest w₀ p t (.noticed e :: b) → now < w₀.quiet + t) →
      IsLatest w₀ p t (.noticed e :: burst) → w₀.quiet + t ≤ now →
      (∀ e' : Event, Entry.noticed e' ∈ after → ¬ w₀.concerns p e') →
      (∀ r : Request, Entry.converted r ∈ burst → r.path ≠ p) ∧
      ∃ (others : List Request) (r : Request) (rest : List Entry),
        after = others.map Entry.converted ++ .converted r :: rest ∧ r.path = p ∧
        p ∉ others.map (·.path) ∧ ∀ r' : Request, Entry.converted r' ∈ rest → r'.path ≠ p) := by
  refine ⟨?_, ?_, h.filter_matters hw₀, ?_⟩
  · rintro p before e after rfl he hafter
    obtain ⟨t, ht⟩ := exists_isLatest he after
    have hawaits : Awaits w₀ p t (before ++ .noticed e :: after) :=
      awaits_append.mpr (.inl (ht.awaits (by simpa using hafter)))
    exact List.mem_map_of_mem (((Follows.of_run hw₀ h).mem_pending p t).mpr hawaits)
  · intro before r after hlog
    obtain ⟨hpending, earlier, now, others, t, hbefore, -, ht, hdue⟩ := h.before_converted hw₀ hlog
    exact ⟨hpending, earlier, now, others, t, hbefore, ht, hdue⟩
  · intro p before e burst now after t hlog he hbusy ht hdue hafter
    have hburst := h.not_converted_of_busy hw₀ hlog he hbusy
    exact ⟨hburst, h.converted_of_quiet hw₀ hlog he hburst ht hdue hafter⟩

/-- A file is created and written again, a tick comes too early after each of the two changes, and
the next one converts it. -/
theorem changes_answered_burst :
    let p : Text := "/a.kt"
    let w : Watch := { manner := {}, output := "out", quiet := 20, targets := [p] }
    let created : Event := ⟨p, .created, 5⟩
    let written : Event := ⟨"/./a.kt", .written, 12⟩
    let burst : List Entry := [.ticked 24, .noticed written, .ticked 31]
    let after : List Entry := [.converted ⟨p, w⟩]
    Run w (.noticed created :: (burst ++ .ticked 32 :: after)) w ∧
      (∀ r, .converted r ∈ burst → r.path ≠ p) ∧
      ∃ others r rest, after = List.map .converted others ++ .converted r :: rest ∧ r.path = p ∧
        p ∉ others.map (·.path) ∧ ∀ r', .converted r' ∈ rest → r'.path ≠ p := by
  intro p w created written burst after
  let w₁ : Watch := { w with pending := [(p, 5)] }
  let w₂ : Watch := { w with pending := [(p, 12)] }
  have hclean : Path.clean p = p := by decide
  have hclean' : Path.clean "/./a.kt" = p := by decide
  have hcreated : w.notice created = w₁ := by
    simp [Watch.notice, created, hclean, w, w₁, Change.touchesContent]
  have hwritten : w₁.notice written = w₂ := by
    simp [Watch.notice, written, hclean', w, w₁, w₂, Change.touchesContent]
  have hsweep : sweep 24 [(p, 5)] w₁ = ([], w₁) := by simp [sweep, isDue, w₁, w]
  have hsweep' : sweep 31 [(p, 12)] w₂ = ([], w₂) := by simp [sweep, isDue, w₂, w]
  have hsweep'' : sweep 32 [(p, 12)] w₂ = ([⟨p, w⟩], w) := by simp [sweep, isDue, forget, w₂, w]
  have h₁ : Run w [.noticed created] w₁ := hcreated ▸ Run.nil.snoc (.notice w created)
  have h₂ : Run w [.noticed created, .ticked 24] w₁ := by
    simpa [hsweep] using h₁.snoc (.tick w₁ 24 [(p, 5)] (.refl _))
  have h₃ : Run w [.noticed created, .ticked 24, .noticed written] w₂ := by
    simpa [hwritten] using h₂.snoc (.notice w₁ written)
  have h₄ : Run w [.noticed created, .ticked 24, .noticed written, .ticked 31] w₂ := by
    simpa [hsweep'] using h₃.snoc (.tick w₂ 31 [(p, 12)] (.refl _))
  have h : Run w (.noticed created :: (burst ++ .ticked 32 :: after)) w := by
    simpa [hsweep'', burst, after] using h₄.snoc (.tick w₂ 32 [(p, 12)] (.refl _))
  have hconcerns : w.concerns p created := by decide
  have hconcerns' : w.concerns p written := by decide
  have htime : ∀ e t, IsLatest w p t [.noticed e] → e.time = t := by
    rintro e t ⟨b, e', a, hlist, -, rfl, -⟩
    have hmem : .noticed e' ∈ [Entry.noticed e] := hlist ▸ by simp
    obtain rfl : e' = e := by simpa using hmem
    rfl
  refine ⟨h, (changes_answered rfl h).2.2.2 p [] created burst 32 after 12 rfl hconcerns ?_ ?_
    (by decide) (by simp [after])⟩
  · rintro (_ | ⟨x, _ | ⟨y, _ | ⟨z, b⟩⟩⟩) a now t hburst ht
    · obtain rfl : 24 = now := by simpa [burst] using (List.cons.inj hburst).1
      have hfive : 5 = t := htime created t ht
      exact hfive ▸ by decide
    · simp [burst] at hburst
    · simp only [burst, List.cons_append, List.nil_append, List.cons.injEq, Entry.ticked.injEq]
        at hburst
      obtain ⟨rfl, rfl, rfl, -⟩ := hburst
      have htwelve : 12 = t := htime written t
        (ht.of_append (l := [.noticed created, .ticked 24]) hconcerns')
      exact htwelve ▸ by decide
    · simp [burst] at hburst
  · exact ⟨[.noticed created, .ticked 24], written, [.ticked 31], rfl, hconcerns', rfl, by simp⟩

end DtoSchema.Command.Watch
