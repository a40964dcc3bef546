import DtoSchema.Proofs.File.Tree

/-!
# Files in a directory

The path of a file below a directory is cleaned before it is followed: a name and the name for the
parent behind it are left out.  Where the path of the directory can be followed, this makes no
difference (`follow_simplify`), so the file is at the place of the directory, with its own name
behind (`locate_append`).  A directory that was made is there (`isDirectoryAt_makeDirectories`), and
making it changes no file (`get?_makeDirectories`).
-/

namespace DtoSchema

open Text

/-! ### Paths -/

namespace Path

/-- A relative path is clean to a relative path. -/
lemma isAbsolute_clean_of_not {p : Text} (h : isAbsolute p = false) :
    isAbsolute (clean p) = false := by
  unfold clean
  simp only [h, Bool.false_eq_true, if_false]
  cases hns : simplify false (names p) with
  | nil => decide
  | cons n ns =>
    -- the path starts as its first name does
    have hname : IsName n := isName_of_mem_simplify (hns ▸ List.mem_cons_self)
    cases n with
    | nil => exact absurd rfl hname.ne_nil
    | cons b n =>
      have hb : b ≠ slash := fun heq => hname.noSlash (by simp [heq])
      cases ns <;> simpa [join, isAbsolute] using hb

/-- The path of a file below a directory starts where that of the directory does, and has its
simplified names and the name of the file. -/
lemma isAbsolute_and_names_append {dir n : Text} (hdir : dir ≠ []) (hn : IsProper n) :
    isAbsolute (append dir n) = isAbsolute dir ∧
      names (append dir n) = simplify (isAbsolute dir) (names dir) ++ [n] := by
  have happend : append dir n = clean (dir ++ "/" ++ n) := by
    simp [append, hdir, hn.ne_nil]
  have hnames : names (dir ++ "/" ++ n) = names dir ++ [n] := by
    rw [names_append_slash, names_eq_singleton hn.toIsName]
  have habsolute : isAbsolute (dir ++ "/" ++ n) = isAbsolute dir := by
    cases dir with
    | nil => exact absurd rfl hdir
    | cons b dir => rfl
  have hsimplify : simplify (isAbsolute (dir ++ "/" ++ n)) (names (dir ++ "/" ++ n)) =
      simplify (isAbsolute dir) (names dir) ++ [n] := by
    rw [habsolute, hnames, simplify_concat _ _ hn]
  rw [happend]
  constructor
  · cases hd : isAbsolute dir with
    | false => exact isAbsolute_clean_of_not (habsolute.trans hd)
    | true => exact isAbsolute_clean (habsolute.trans hd)
  · rw [names_clean (.inr (by rw [hsimplify]; simp)), hsimplify]

/-- A slash behind a path adds no name. -/
lemma names_concat_slash (p : Text) : names (p ++ [slash]) = names p := by
  rw [names, pieces_append_separator, List.filter_append]
  simp [names, pieces]

/-- Slashes behind a path add no name. -/
lemma names_dropSlashes (p : Text) : names (dropWhileEnd (· == slash) p) = names p := by
  induction p using List.reverseRecOn with
  | nil => rfl
  | append_singleton p b ih =>
    by_cases hb : b = slash
    · have hdrop : dropWhileEnd (· == slash) (p ++ [b]) = dropWhileEnd (· == slash) p := by
        simp [dropWhileEnd, hb]
      rw [hdrop, ih, hb, names_concat_slash]
    · simp [dropWhileEnd, hb]

/-- Without the slashes behind it a path starts where it did, if something is left of it. -/
lemma isAbsolute_dropSlashes {p : Text} (h : dropWhileEnd (· == slash) p ≠ []) :
    isAbsolute (dropWhileEnd (· == slash) p) = isAbsolute p := by
  have hsplit : p = dropWhileEnd (· == slash) p ++ (p.reverse.takeWhile (· == slash)).reverse := by
    rw [dropWhileEnd, ← List.reverse_append, List.takeWhile_append_dropWhile, List.reverse_reverse]
  rw [isAbsolute, isAbsolute]
  conv_rhs => rw [hsplit, List.head?_append_of_ne_nil _ h]

end Path

/-! ### Following names -/

namespace Tree

variable {t t' : Tree} {ns ms place place' start : List Text} {path content : Text}

/-- Names are followed one after the other. -/
lemma follow_append :
    t.follow place (ns ++ ms) = (t.follow place ns).bind (t.follow · ms) := by
  induction ns generalizing place with
  | nil => rfl
  | cons n ns ih =>
    rw [List.cons_append, follow, follow]
    split
    · rfl
    · rfl
    · split_ifs <;> exact ih

lemma follow_here (h : t.get? place = some .directory) : t.follow place ["."] = .ok place := by
  simp [follow, h]

lemma follow_parent (h : t.get? place = some .directory) :
    t.follow place [".."] = .ok place.dropLast := by
  have hne : utf8 ".." ≠ utf8 "." := by decide
  simp [follow, h, hne]

lemma follow_proper {n : Text} (hhere : n ≠ ".") (hparent : n ≠ "..")
    (h : t.get? place = some .directory) : t.follow place [n] = .ok (place ++ [n]) := by
  simp [follow, h, hhere, hparent]

/-- A first name leads on from a directory. -/
lemma exists_follow_of_cons {n : Text} (h : t.follow place (n :: ns) = .ok place') :
    t.get? place = some .directory ∧
      ∃ next, t.follow place [n] = .ok next ∧ t.follow next ns = .ok place' := by
  rw [← List.singleton_append, follow_append] at h
  cases hnext : t.follow place [n] with
  | error r => rw [hnext] at h; cases h
  | ok next =>
    rw [hnext] at h
    refine ⟨?_, next, rfl, h⟩
    rw [follow] at hnext
    split at hnext
    case h_3 hget => exact hget
    all_goals cases hnext

/-- One more simplified name leads where the name itself leads.  The names so far stand in reverse
order; the name for the directory itself is not among them. -/
lemma follow_simplifyStep {absolute : Bool} (habsolute : absolute → start = []) {done : List Text}
    (hdone : utf8 "." ∉ done) {n : Text} {next : List Text}
    (hplace : t.follow start done.reverse = .ok place) (hnext : t.follow place [n] = .ok next) :
    t.follow start (Path.simplifyStep absolute done n).reverse = .ok next ∧
      utf8 "." ∉ Path.simplifyStep absolute done n := by
  obtain ⟨hdir, -⟩ := exists_follow_of_cons hnext
  have hpush : t.follow start (n :: done).reverse = .ok next := by
    rw [List.reverse_cons, follow_append, hplace]
    exact hnext
  unfold Path.simplifyStep
  by_cases hhere : n = "."
  · subst hhere
    rw [follow_here hdir] at hnext
    cases hnext
    rw [if_pos rfl]
    exact ⟨hplace, hdone⟩
  · have hkept : utf8 "." ∉ n :: done := by simp [Ne.symm hhere, hdone]
    rw [if_neg hhere]
    by_cases hparent : n = ".."
    · subst hparent
      rw [if_pos rfl]
      have hup := hnext
      rw [follow_parent hdir] at hup
      cases hup
      cases done with
      | nil =>
        cases habs : absolute with
        | true =>
          -- the parent of the root is the root
          obtain rfl := habsolute habs
          cases hplace
          exact ⟨rfl, hdone⟩
        | false => exact ⟨hpush, hkept⟩
      | cons last before =>
        simp only
        split
        · exact ⟨hpush, hkept⟩
        · next hlast =>
          -- the last name is taken back
          rw [List.reverse_cons, follow_append] at hplace
          cases hbefore : t.follow start before.reverse with
          | error r => rw [hbefore] at hplace; cases hplace
          | ok q =>
            rw [hbefore] at hplace
            have hq : t.follow q [last] = .ok place := hplace
            obtain ⟨hqdir, -⟩ := exists_follow_of_cons hq
            have hlasthere : last ≠ "." := fun heq => hdone (by simp [heq])
            rw [follow_proper hlasthere hlast hqdir] at hq
            cases hq
            simp only [List.dropLast_concat, true_and]
            exact fun hmem => hdone (List.mem_cons_of_mem last hmem)
    · rw [if_neg hparent]
      exact ⟨hpush, hkept⟩

/-- Simplified names lead where the names lead. -/
lemma follow_simplify {absolute : Bool} (habsolute : absolute → start = [])
    (h : t.follow start ns = .ok place) :
    t.follow start (Path.simplify absolute ns) = .ok place := by
  suffices hfold : ∀ (done : List Text) (p : List Text), utf8 "." ∉ done →
      t.follow start done.reverse = .ok p → t.follow p ns = .ok place →
        t.follow start (ns.foldl (Path.simplifyStep absolute) done).reverse = .ok place from
    hfold [] start (by simp) rfl h
  clear h
  induction ns with
  | nil =>
    intro done p _ hp hplace
    cases hplace
    exact hp
  | cons n ns ih =>
    intro done p hdone hp hplace
    obtain ⟨-, next, hnext, hrest⟩ := exists_follow_of_cons hplace
    obtain ⟨hstep, hkept⟩ := follow_simplifyStep habsolute hdone hp hnext
    exact ih _ next hkept hstep hrest

/-! ### Directories -/

/-- The path leads to a directory at the place. -/
structure IsDirectoryAt (t : Tree) (path : Text) (place : List Text) : Prop where
  locate : t.locate path = .ok place
  get? : t.get? place = some .directory

/-- Where a path to follow starts. -/
def startOf (t : Tree) (path : Text) : List Text := if Path.isAbsolute path then [] else t.working

lemma locate_eq_follow (h : path ≠ []) :
    t.locate path = t.follow (t.startOf path)
      (Path.names path ++ if path.getLast? = some Path.slash then [utf8 "."] else []) := if_neg h

/-- The names of a path to a directory lead there. -/
lemma IsDirectoryAt.follow_names (h : t.IsDirectoryAt path place) :
    path ≠ [] ∧ t.follow (t.startOf path) (Path.names path) = .ok place := by
  have hlocate := h.locate
  have hne : path ≠ [] := by
    rintro rfl
    cases hlocate
  refine ⟨hne, ?_⟩
  rw [locate_eq_follow hne] at hlocate
  split at hlocate
  case isFalse => simpa using hlocate
  case isTrue =>
    rw [follow_append] at hlocate
    cases hnames : t.follow (t.startOf path) (Path.names path) with
    | error r => rw [hnames] at hlocate; cases hlocate
    | ok p =>
      rw [hnames] at hlocate
      have hp : t.follow p ["."] = .ok place := hlocate
      obtain ⟨hdir, -⟩ := exists_follow_of_cons hp
      rw [follow_here hdir] at hp
      exact hp

/-- Names that lead to a directory are those of a path to it. -/
lemma isDirectoryAt_of_follow (hne : path ≠ [])
    (h : t.follow (t.startOf path) (Path.names path) = .ok place)
    (hdir : t.get? place = some .directory) : t.IsDirectoryAt path place := by
  refine ⟨?_, hdir⟩
  rw [locate_eq_follow hne]
  split
  · rw [follow_append, h]
    exact follow_here hdir
  · rw [List.append_nil, h]

/-- A file below a directory is at the place of the directory, with its name behind. -/
lemma IsDirectoryAt.locate_append (h : t.IsDirectoryAt path place) {n : Text}
    (hn : Path.IsProper n) : t.locate (Path.append path n) = .ok (place ++ [n]) := by
  obtain ⟨hne, hfollow⟩ := h.follow_names
  obtain ⟨habsolute, hnames⟩ := Path.isAbsolute_and_names_append hne hn
  obtain ⟨-, hlast, happend⟩ := Path.names_append path hn
  have hroot : Path.isAbsolute path → t.startOf path = [] := fun habs => by simp [startOf, habs]
  have hstart : t.startOf (Path.append path n) = t.startOf path := by
    rw [startOf, habsolute, startOf]
  rw [locate_eq_follow happend, if_neg hlast, List.append_nil, hstart, hnames, follow_append,
    follow_simplify hroot hfollow]
  exact follow_proper hn.ne_here hn.ne_parent h.get?

lemma stat_eq_directory_iff :
    t.stat path = .ok .directory ↔ ∃ place, t.IsDirectoryAt path place := by
  unfold stat
  constructor
  · intro h
    split at h
    case h_1 => cases h
    case h_2 ns hlocate =>
      split at h
      case h_1 n hget =>
        cases h
        exact ⟨ns, hlocate, hget⟩
      case h_2 => cases h
  · rintro ⟨place, hlocate, hget⟩
    simp [hlocate, hget]

/-- A directory that was made is there, also under a path with slashes behind it. -/
lemma isDirectoryAt_makeDirectory (h : t.makeDirectory path = .ok t') :
    ∃ place, t'.IsDirectoryAt path place := by
  have hkeeps := keeps_makeDirectory h
  unfold makeDirectory at h
  split at h
  case h_1 => cases h
  case h_2 place hlocate =>
    split at h
    case h_2 hnone _ =>
      cases h
      have hne : place ≠ [] := by
        rintro rfl
        cases hnone
      have hmade : (t.put place .directory).get? place = some .directory := get?_put_self hne
      have hlocate' := locate_of_directories hkeeps.working (fun ms => hkeeps.get? ms _) hlocate
      obtain ⟨hstripped, hfollow⟩ := (IsDirectoryAt.mk hlocate' hmade).follow_names
      have hpath : path ≠ [] := by
        rintro rfl
        exact hstripped rfl
      refine ⟨place, isDirectoryAt_of_follow hpath ?_ hmade⟩
      rwa [startOf, Path.isAbsolute_dropSlashes hstripped, Path.names_dropSlashes] at hfollow
    all_goals cases h

lemma isDirectoryAt_ensureDirectory (h : t.ensureDirectory path = .ok t') :
    ∃ place, t'.IsDirectoryAt path place := by
  unfold ensureDirectory at h
  split at h
  case h_1 hmade =>
    cases h
    exact isDirectoryAt_makeDirectory hmade
  case h_2 =>
    split at h
    case h_1 hstat =>
      cases h
      exact stat_eq_directory_iff.mp hstat
    case h_2 => cases h

/-- A directory that was made with those that it lies in is there. -/
lemma isDirectoryAt_makeDirectories (h : t.makeDirectories path = .ok t') :
    ∃ place, t'.IsDirectoryAt path place := by
  unfold makeDirectories at h
  rw [makeDirectoriesWithin] at h
  split at h
  case h_1 hstat =>
    cases h
    exact stat_eq_directory_iff.mp hstat
  case h_2 => cases h
  case h_3 =>
    simp only at h
    split at h
    case h_1 =>
      obtain ⟨t₁, -, hmake⟩ := exists_of_bind_eq_ok h
      exact isDirectoryAt_ensureDirectory hmake
    case h_2 => exact isDirectoryAt_ensureDirectory h

/-- Making directories is putting directories at free places, one after the other. -/
lemma makeDirectories_induction {R : Tree → Tree → Prop} (refl : ∀ t, R t t)
    (trans : ∀ {t₁ t₂ t₃}, R t₁ t₂ → R t₂ t₃ → R t₁ t₃)
    (put : ∀ {t ns}, t.get? ns = none → R t (t.put ns .directory))
    (h : t.makeDirectories path = .ok t') : R t t' := by
  have hmake : ∀ {t t' : Tree} {path : Text}, t.makeDirectory path = .ok t' → R t t' := by
    intro t t' path h
    unfold makeDirectory at h
    split at h
    case h_1 => cases h
    case h_2 =>
      split at h
      case h_2 hnone _ =>
        cases h
        exact put hnone
      all_goals cases h
  have hensure : ∀ {t t' : Tree} {path : Text}, t.ensureDirectory path = .ok t' → R t t' := by
    intro t t' path h
    unfold ensureDirectory at h
    split at h
    case h_1 hmade =>
      cases h
      exact hmake hmade
    case h_2 =>
      split at h
      case h_1 =>
        cases h
        exact refl t
      case h_2 => cases h
  unfold makeDirectories at h
  generalize path.length + 1 = fuel at h
  induction fuel generalizing t t' path with
  | zero => cases h
  | succ fuel ih =>
    rw [makeDirectoriesWithin] at h
    split at h
    case h_1 =>
      cases h
      exact refl t
    case h_2 => cases h
    case h_3 =>
      simp only at h
      split at h
      case h_1 =>
        obtain ⟨t₁, hparents, hmade⟩ := exists_of_bind_eq_ok h
        exact trans (ih hparents) (hensure hmade)
      case h_2 => exact hensure h

/-- Making directories changes no file and makes none. -/
lemma get?_makeDirectories (h : t.makeDirectories path = .ok t') (ns : List Text) (c : Text) :
    t'.get? ns = some (.file c) ↔ t.get? ns = some (.file c) := by
  refine makeDirectories_induction
    (R := fun t t' => t'.get? ns = some (.file c) ↔ t.get? ns = some (.file c))
    (fun _ => Iff.rfl) (fun h h' => h'.trans h) ?_ h
  intro t ms hnone
  by_cases hns : ns = ms
  · subst hns
    have hne : ns ≠ [] := by
      rintro rfl
      cases hnone
    simp [get?_put_self hne, hnone]
  · rw [get?_put_of_ne hns]

/-! ### Files -/

/-- A file can be written in a directory unless there is a directory of its name, and then it is
there. -/
lemma IsDirectoryAt.write_append (h : t.IsDirectoryAt path place) {n : Text}
    (hn : Path.IsProper n) (content : Text) :
    t.write (Path.append path n) content =
      if t.get? (place ++ [n]) = some .directory then
        .error ⟨"open", Path.append path n, .isDirectory⟩
      else .ok (t.put (place ++ [n]) (.file content)) := by
  rw [write, h.locate_append hn]
  simp only [List.dropLast_concat, h.get?]
  cases hget : t.get? (place ++ [n]) with
  | none => simp
  | some node => cases node <;> simp

/-- A file in a directory is read under its name. -/
lemma IsDirectoryAt.read_append (h : t.IsDirectoryAt path place) {n content : Text}
    (hn : Path.IsProper n) (hget : t.get? (place ++ [n]) = some (.file content)) :
    t.read (Path.append path n) = .ok content := by
  rw [read, stat, h.locate_append hn]
  simp only [hget]

/-- A file that is put below a directory leaves it where it is. -/
lemma IsDirectoryAt.put (h : t.IsDirectoryAt path place) {n : Text}
    (hget : t.get? (place ++ [n]) ≠ some .directory) :
    (t.put (place ++ [n]) (.file content)).IsDirectoryAt path place where
  locate := locate_of_directories (t := t) rfl (directory_of_write hget) h.locate
  get? := directory_of_write hget _ h.get?

end Tree

end DtoSchema
