import DtoSchema.Proofs.File.Path

/-!
# What operations on a file tree leave alone

A path is followed through directories only.  So a tree that keeps what another one has leads every
path that could be read to the same file (`Keeps.read`), and making directories keeps everything.
Writing a file changes one place: the path that was written leads to the new content
(`read_write_self`), and a path that led to a file at another place still does (`read_write_of_ne`).
-/

namespace DtoSchema.Tree

open Text

variable {t t' t'' : Tree} {ns ms place place' : List Text} {path content c : Text} {n : FileNode}

/-! ### Places -/

/-- The root is a directory. -/
@[simp] lemma get?_nil (t : Tree) : t.get? [] = some .directory := rfl

/-- What was put at a place is there. -/
lemma get?_put_self (h : ns ≠ []) : (t.put ns n).get? ns = some n := by
  simp [get?, put, h]

/-- Other places stay as they are. -/
lemma get?_put_of_ne (h : ms ≠ ns) : (t.put ns n).get? ms = t.get? ms := by
  have hlookup : ∀ nodes : List (List Text × FileNode),
      (nodes.filter (·.1 != ns)).lookup ms = nodes.lookup ms := by
    intro nodes
    induction nodes with
    | nil => rfl
    | cons node nodes ih =>
      obtain ⟨k, m⟩ := node
      by_cases hk : k = ns
      · subst hk
        rw [List.filter_cons_of_neg (by simp), ih, List.lookup_cons, beq_false_of_ne h]
      · rw [List.filter_cons_of_pos (by simpa using hk), List.lookup_cons, List.lookup_cons, ih]
  unfold get? put
  split
  · rfl
  · simp only
    rw [List.lookup_cons, beq_false_of_ne h, hlookup]

/-! ### Following a path -/

/-- A path is followed through directories, so it is followed to the same place where all of these
are directories too. -/
lemma follow_of_directories
    (hdirs : ∀ ms, t.get? ms = some .directory → t'.get? ms = some .directory)
    (h : t.follow place ns = .ok place') : t'.follow place ns = .ok place' := by
  induction ns generalizing place with
  | nil => exact h
  | cons n ns ih =>
    rw [follow] at h ⊢
    split at h
    case h_3 hplace =>
      rw [hdirs _ hplace]
      simp only
      split at h
      case isTrue hn => rw [if_pos hn]; exact ih h
      case isFalse hn =>
        rw [if_neg hn]
        split at h
        case isTrue hp => rw [if_pos hp]; exact ih h
        case isFalse hp => rw [if_neg hp]; exact ih h
    all_goals cases h

/-- A path that ends in a proper name leads to a place that ends in this name. -/
lemma getLast?_of_follow {name : Text} (hname : Path.IsProper name)
    (h : t.follow place (ns ++ [name]) = .ok place') : place'.getLast? = some name := by
  induction ns generalizing place with
  | nil =>
    rw [List.nil_append, follow] at h
    split at h
    case h_3 =>
      rw [if_neg hname.ne_here, if_neg hname.ne_parent, follow] at h
      cases h
      simp
    all_goals cases h
  | cons n ns ih =>
    rw [List.cons_append, follow] at h
    split at h
    case h_3 =>
      split at h
      case isTrue => exact ih h
      case isFalse =>
        split at h
        case isTrue => exact ih h
        case isFalse => exact ih h
    all_goals cases h

/-- The same directories and the same working directory lead a path to the same place. -/
lemma locate_of_directories (hworking : t'.working = t.working)
    (hdirs : ∀ ms, t.get? ms = some .directory → t'.get? ms = some .directory)
    (h : t.locate path = .ok place) : t'.locate path = .ok place := by
  unfold locate at h ⊢
  split at h
  case isTrue => cases h
  case isFalse hpath =>
    rw [if_neg hpath, hworking]
    exact follow_of_directories hdirs h

/-- The path of a file below a directory leads to a place that ends in the name of the file. -/
lemma getLast?_of_locate_append {dir name : Text} (hname : Path.IsProper name)
    (h : t.locate (Path.append dir name) = .ok place) : place.getLast? = some name := by
  obtain ⟨⟨ns, hns⟩, hlast, hne⟩ := Path.names_append dir hname
  simp only [locate, if_neg hne, if_neg hlast, List.append_nil, hns] at h
  exact getLast?_of_follow hname h

/-! ### Reading -/

/-- A file is read at the place where its path leads. -/
lemma read_eq_ok_iff :
    t.read path = .ok content ↔
      ∃ ns, t.locate path = .ok ns ∧ t.get? ns = some (.file content) := by
  unfold read stat
  constructor
  · intro h
    cases hlocate : t.locate path with
    | error r => simp [hlocate] at h
    | ok ns =>
      simp only [hlocate] at h
      refine ⟨ns, rfl, ?_⟩
      cases hget : t.get? ns with
      | none => simp [hget] at h
      | some n =>
        cases n with
        | directory => simp [hget] at h
        | file c => simpa [hget] using h
  · rintro ⟨ns, hlocate, hget⟩
    simp [hlocate, hget]

/-- A path that can be read has a name. -/
lemma names_ne_nil_of_read (h : t.read path = .ok content) : Path.names path ≠ [] := by
  intro hnames
  obtain ⟨ns, hlocate, hget⟩ := read_eq_ok_iff.mp h
  have hne : path ≠ [] := by
    rintro rfl
    cases hlocate
  have habsolute := Path.isAbsolute_of_names_eq_nil hne hnames
  -- the path leads to the root
  have hroot : ns = [] := by
    simp only [locate, if_neg hne, habsolute, if_true, hnames, List.nil_append] at hlocate
    split at hlocate <;> simpa [follow, eq_comm] using hlocate
  simp [hroot] at hget

/-! ### Trees that keep what there is -/

/-- The second tree has all that the first one has. -/
structure Keeps (t t' : Tree) : Prop where
  /-- The working directory is the same. -/
  working : t'.working = t.working
  /-- What is at a place stays there. -/
  get? : ∀ ns n, t.get? ns = some n → t'.get? ns = some n

lemma Keeps.refl (t : Tree) : Keeps t t := ⟨rfl, fun _ _ h => h⟩

lemma Keeps.trans (h : Keeps t t') (h' : Keeps t' t'') : Keeps t t'' :=
  ⟨h'.working.trans h.working, fun ns n hn => h'.get? ns n (h.get? ns n hn)⟩

/-- What can be read stays. -/
lemma Keeps.read (h : Keeps t t') (hread : t.read path = .ok content) :
    t'.read path = .ok content := by
  obtain ⟨ns, hlocate, hget⟩ := read_eq_ok_iff.mp hread
  exact read_eq_ok_iff.mpr
    ⟨ns, locate_of_directories h.working (fun ms => h.get? ms _) hlocate, h.get? ns _ hget⟩

/-- Putting something at a free place keeps the rest. -/
lemma keeps_put (h : t.get? ns = none) : Keeps t (t.put ns n) where
  working := rfl
  get? := by
    intro ms m hm
    have hne : ms ≠ ns := by
      rintro rfl
      simp [h] at hm
    rw [get?_put_of_ne hne, hm]

/-- Making a directory keeps the rest. -/
lemma keeps_makeDirectory (h : t.makeDirectory path = .ok t') : Keeps t t' := by
  unfold makeDirectory at h
  split at h
  case h_1 => cases h
  case h_2 ns _ =>
    split at h
    case h_2 hnone _ =>
      cases h
      exact keeps_put hnone
    all_goals cases h

/-- What was done one after the other has both been done. -/
lemma exists_of_bind_eq_ok {ε α β : Type} {x : Except ε α} {f : α → Except ε β} {b : β}
    (h : (x >>= f) = .ok b) : ∃ a, x = .ok a ∧ f a = .ok b := by
  cases x with
  | error e => cases h
  | ok a => exact ⟨a, rfl, h⟩

lemma keeps_ensureDirectory (h : t.ensureDirectory path = .ok t') : Keeps t t' := by
  unfold ensureDirectory at h
  split at h
  case h_1 hmade =>
    cases h
    exact keeps_makeDirectory hmade
  case h_2 =>
    split at h
    case h_1 =>
      cases h
      exact .refl t
    case h_2 => cases h

/-- Making directories keeps the rest. -/
lemma keeps_makeDirectoriesWithin {fuel : ℕ} (h : makeDirectoriesWithin fuel t path = .ok t') :
    Keeps t t' := by
  induction fuel generalizing t t' path with
  | zero => cases h
  | succ fuel ih =>
    rw [makeDirectoriesWithin] at h
    split at h
    case h_1 =>
      cases h
      exact .refl t
    case h_2 => cases h
    case h_3 =>
      simp only at h
      split at h
      case h_1 =>
        obtain ⟨t₁, hparents, hmake⟩ := exists_of_bind_eq_ok h
        exact (ih hparents).trans (keeps_ensureDirectory hmake)
      case h_2 => exact keeps_ensureDirectory h

lemma keeps_makeDirectories (h : t.makeDirectories path = .ok t') : Keeps t t' :=
  keeps_makeDirectoriesWithin h

/-! ### Writing -/

/-- A file is written at the place where its path leads, which is no directory. -/
lemma write_eq_ok (h : t.write path content = .ok t') :
    ∃ ns, t.locate path = .ok ns ∧ t.get? ns ≠ some .directory ∧
      t' = t.put ns (.file content) := by
  unfold write at h
  split at h
  case h_1 => cases h
  case h_2 ns hlocate =>
    refine ⟨ns, hlocate, ?_⟩
    split at h
    case h_2 hget => cases h; simp [hget]
    case h_3 hget _ => cases h; simp [hget]
    all_goals cases h

/-- Writing makes no directory and removes none. -/
lemma directory_of_write (h : t.get? ns ≠ some .directory) (ms : List Text)
    (hms : t.get? ms = some .directory) : (t.put ns n).get? ms = some .directory := by
  have hne : ms ≠ ns := by
    rintro rfl
    exact h hms
  rw [get?_put_of_ne hne, hms]

/-- What was written can be read. -/
lemma read_write_self (h : t.write path content = .ok t') : t'.read path = .ok content := by
  obtain ⟨ns, hlocate, hget, rfl⟩ := write_eq_ok h
  have hne : ns ≠ [] := by
    rintro rfl
    exact hget rfl
  have hplace : (t.put ns (.file content)).locate path = .ok ns :=
    locate_of_directories (t := t) rfl (directory_of_write hget) hlocate
  exact read_eq_ok_iff.mpr ⟨ns, hplace, get?_put_self hne⟩

/-- What can be read at another place stays. -/
lemma read_write_of_ne {other : Text} (h : t.write path content = .ok t')
    (hne : t.locate other ≠ t.locate path) (hread : t.read other = .ok c) :
    t'.read other = .ok c := by
  obtain ⟨ns, hlocate, hget, rfl⟩ := write_eq_ok h
  obtain ⟨ms, hlocate', hget'⟩ := read_eq_ok_iff.mp hread
  have hplaces : ms ≠ ns := by
    rintro rfl
    exact hne (hlocate'.trans hlocate.symm)
  have hplace : (t.put ns (.file content)).locate other = .ok ms :=
    locate_of_directories (t := t) rfl (directory_of_write hget) hlocate'
  refine read_eq_ok_iff.mpr ⟨ms, hplace, ?_⟩
  rw [get?_put_of_ne hplaces, hget']

end DtoSchema.Tree
