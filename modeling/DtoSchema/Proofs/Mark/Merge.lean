import Mathlib
import DtoSchema.Mark.Constraints

/-!
# Merging constraints

What the annotations of a field say is collected one annotation after the other.  Each of them says
something on its own (`Constraints.single`), and what was known before stays: the constraints of a
list of annotations are the contributions of its members, merged from left to right
(`foldl_add_eq_merge`).  In a merge a value that is set is kept, and the markers add up.

The name of an annotation decides on its role, and the role on the one value that it sets or the
marker that it switches on (`apply_eq_merge`).  So annotations with different names contribute to
different values, and their order only shows in the record of what was written
(`merge_single_comm`).  A value is kept once it is set (`IsKept`), so it comes from the first
annotation that gives one.
-/

namespace DtoSchema.Constraints

open Text

/-! ### Merging -/

/-- What two sets of constraints say together; where both give a value, the first one counts. -/
def merge (c d : Constraints) : Constraints where
  nullable := c.nullable || d.nullable
  notNull := c.notNull || d.notNull
  size := c.size.or d.size
  min := c.min.or d.min
  max := c.max.or d.max
  pattern := firstText c.pattern d.pattern
  rename := firstText c.rename d.rename
  email := c.email || d.email
  notBlank := c.notBlank || d.notBlank
  positive := c.positive || d.positive
  negative := c.negative || d.negative
  decimalMin := c.decimalMin.or d.decimalMin
  decimalMax := c.decimalMax.or d.decimalMax
  raw := c.raw ++ d.raw

/-- What one annotation says. -/
def single (a : Mark) : Constraints := add {} a

lemma firstText_nil_left (s : Text) : firstText [] s = s := rfl

lemma firstText_nil_right (s : Text) : firstText s [] = s := by
  cases s <;> rfl

lemma firstText_assoc (s t u : Text) :
    firstText (firstText s t) u = firstText s (firstText t u) := by
  cases s <;> rfl

lemma merge_assoc (c d e : Constraints) : (c.merge d).merge e = c.merge (d.merge e) := by
  simp [merge, Bool.or_assoc, Option.or_assoc, firstText_assoc]

lemma empty_merge (c : Constraints) : merge {} c = c := by
  simp [merge, firstText_nil_left]

/-! ### Roles -/

/-- What an annotation can say something about. -/
inductive Role where
  | nullable
  | notNull
  | size
  | min
  | max
  | pattern
  | rename
  | email
  | notBlank
  | positive
  | negative
  | decimalMin
  | decimalMax
  deriving DecidableEq

namespace Role

/-- The names of annotations and what they stand for. -/
def names : List (Text × Role) :=
  [(utf8 "Nullable", nullable), (utf8 "NotNull", notNull), (utf8 "Nonnull", notNull),
    (utf8 "Size", size), (utf8 "Min", min), (utf8 "Max", max), (utf8 "Pattern", pattern),
    (utf8 "JsonProperty", rename), (utf8 "Email", email), (utf8 "NotBlank", notBlank),
    (utf8 "NotEmpty", notBlank), (utf8 "Positive", positive), (utf8 "Negative", negative),
    (utf8 "DecimalMin", decimalMin), (utf8 "DecimalMax", decimalMax)]

/-- What an annotation of this role says. -/
def contribution (a : Mark) : Role → Constraints
  | nullable => { nullable := true }
  | notNull => { notNull := true }
  | size => { size := sizeOf? a }
  | min => { min := integerOf? a }
  | max => { max := integerOf? a }
  | pattern => { pattern := patternOf a }
  | rename => { rename := renameOf a }
  | email => { email := true }
  | notBlank => { notBlank := true }
  | positive => { positive := true }
  | negative => { negative := true }
  | decimalMin => { decimalMin := decimalOf? a }
  | decimalMax => { decimalMax := decimalOf? a }

/-- The role of an annotation; one with a target has none. -/
def of? (a : Mark) : Option Role :=
  if a.target.isEmpty then names.lookup a.simpleName else none

end Role

/-- An annotation without a target adds what its role says. -/
lemma apply_eq_merge (c : Constraints) (a : Mark) :
    c.apply a = (Role.names.lookup a.simpleName).elim c fun r => c.merge (r.contribution a) := by
  have hstep : ∀ (k : Text) (r : Role) (l : List (Text × Role)),
      (List.lookup a.simpleName ((k, r) :: l)).elim c (fun r => c.merge (r.contribution a)) =
        if a.simpleName = k then c.merge (r.contribution a)
        else (List.lookup a.simpleName l).elim c fun r => c.merge (r.contribution a) := by
    intro k r l
    by_cases h : a.simpleName = k
    · rw [if_pos h, List.lookup_cons, beq_iff_eq.mpr h]
      rfl
    · rw [if_neg h, List.lookup_cons, beq_eq_false_iff_ne.mpr h]
  -- both sides ask for the same names in the same order
  simp only [apply, Role.names, hstep, ite_or]
  repeat' refine ite_congr rfl (fun _ => ?_) (fun _ => ?_)
  all_goals simp [merge, Role.contribution, firstText_nil_right]

/-- What an annotation says, apart from the record of how it was written. -/
def said (a : Mark) : Constraints := (Role.of? a).elim {} (Role.contribution a)

lemma merge_empty (c : Constraints) : c.merge {} = c := by
  simp [merge, firstText_nil_right]

lemma add_eq_merge_said (c : Constraints) (a : Mark) :
    c.add a = (c.merge { raw := [a.text] }).merge (said a) := by
  have hraw : { c with raw := c.raw ++ [a.text] } = c.merge { raw := [a.text] } := by
    simp [merge, firstText_nil_right]
  rw [add, hraw, said, Role.of?]
  by_cases ha : a.target.isEmpty
  · rw [if_pos ha, if_pos ha, apply_eq_merge]
    cases Role.names.lookup a.simpleName with
    | none => exact (merge_empty _).symm
    | some r => rfl
  · rw [if_neg ha, if_neg ha]
    exact (merge_empty _).symm

lemma single_eq_merge (a : Mark) : single a = merge { raw := [a.text] } (said a) := by
  rw [single, add_eq_merge_said, empty_merge]

/-- An annotation adds what it says on its own. -/
lemma add_eq_merge (c : Constraints) (a : Mark) : c.add a = c.merge (single a) := by
  rw [add_eq_merge_said, single_eq_merge, merge_assoc]

/-- The constraints of a list of annotations are the merge of what its members say. -/
lemma foldl_add_eq_merge (marks : List Mark) (c : Constraints) :
    marks.foldl add c = (marks.map single).foldl merge c := by
  induction marks generalizing c with
  | nil => rfl
  | cons a marks ih => rw [List.foldl_cons, ih, add_eq_merge, List.map_cons, List.foldl_cons]

lemma raw_single (a : Mark) : (single a).raw = [a.text] := by
  rw [single_eq_merge, said]
  cases Role.of? a with
  | none => rfl
  | some r => cases r <;> rfl

lemma raw_foldl_merge (marks : List Mark) (c : Constraints) :
    ((marks.map single).foldl merge c).raw = c.raw ++ marks.map (·.text) := by
  induction marks generalizing c with
  | nil => simp
  | cons a marks ih =>
    rw [List.map_cons, List.foldl_cons, ih, merge, raw_single, List.append_assoc,
      List.singleton_append, List.map_cons]

/-! ### The value that a role sets -/

/-- The constraints set no value but the one of the role. -/
structure Contributes (role : Option Role) (c : Constraints) : Prop where
  size : c.size = none ∨ role = some .size
  min : c.min = none ∨ role = some .min
  max : c.max = none ∨ role = some .max
  pattern : c.pattern = [] ∨ role = some .pattern
  rename : c.rename = [] ∨ role = some .rename
  decimalMin : c.decimalMin = none ∨ role = some .decimalMin
  decimalMax : c.decimalMax = none ∨ role = some .decimalMax

lemma contributes_single (a : Mark) : Contributes (Role.of? a) (single a) := by
  rw [single_eq_merge, said]
  cases Role.of? a with
  | none => constructor <;> exact Or.inl rfl
  | some r => cases r <;> constructor <;> simp [merge, Role.contribution, firstText_nil_left]

/-- The role switches a marker on. -/
def Role.isMarker : Role → Bool
  | nullable | notNull | email | notBlank | positive | negative => true
  | _ => false

lemma mem_names_of_of? {a : Mark} {r : Role} (h : Role.of? a = some r) :
    (a.simpleName, r) ∈ Role.names := by
  unfold Role.of? at h
  split at h
  · obtain ⟨l, l', heq, -⟩ := List.lookup_eq_some_iff.mp h
    simp [heq]
  · simp at h

/-- Only markers have more than one name. -/
lemma simpleName_eq_of_role {a b : Mark} {r : Role} (hr : r.isMarker = false)
    (ha : Role.of? a = some r) (hb : Role.of? b = some r) : a.simpleName = b.simpleName := by
  have hnames : ∀ p ∈ Role.names, ∀ p' ∈ Role.names,
      p.2 = p'.2 → p.2.isMarker = false → p.1 = p'.1 := by decide
  exact hnames _ (mem_names_of_of? ha) _ (mem_names_of_of? hb) rfl hr

/-! ### The first value counts -/

/-- The text, unless it is empty. -/
def text? (s : Text) : Option Text := if s.isEmpty then none else some s

@[simp] lemma text?_nil : text? [] = none := rfl

lemma text?_firstText (s t : Text) : text? (firstText s t) = (text? s).or (text? t) := by
  cases s <;> simp [text?, firstText]

lemma text?_eq_some_iff {s t : Text} : text? s = some t ↔ s = t ∧ t ≠ [] := by
  cases s with
  | nil => simp +contextual [text?, eq_comm]
  | cons b s =>
    simp only [text?, List.isEmpty_cons, Bool.false_eq_true, if_false, Option.some.injEq]
    exact ⟨fun h => ⟨h, by simp [← h]⟩, fun h => h.1⟩

/-- The value is set by annotations of one role, and the first one that sets it counts. -/
structure IsKept {α : Type} (r : Role) (value : Constraints → Option α) : Prop where
  raw : ∀ texts, value { raw := texts } = none
  merge : ∀ c d, value (c.merge d) = (value c).or (value d)
  role : ∀ a, value (single a) = none ∨ Role.of? a = some r

lemma isKept_pattern : IsKept .pattern fun c => text? c.pattern where
  raw _ := rfl
  merge c d := text?_firstText c.pattern d.pattern
  role a := (contributes_single a).pattern.imp_left fun hnil => by rw [hnil, text?_nil]

lemma isKept_rename : IsKept .rename fun c => text? c.rename where
  raw _ := rfl
  merge c d := text?_firstText c.rename d.rename
  role a := (contributes_single a).rename.imp_left fun hnil => by rw [hnil, text?_nil]

lemma isKept_decimalMin : IsKept .decimalMin decimalMin where
  raw _ := rfl
  merge _ _ := rfl
  role a := (contributes_single a).decimalMin

lemma isKept_decimalMax : IsKept .decimalMax decimalMax where
  raw _ := rfl
  merge _ _ := rfl
  role a := (contributes_single a).decimalMax

namespace IsKept

variable {α : Type} {r : Role} {value : Constraints → Option α} (h : IsKept r value)

include h

lemma single_eq {a : Mark} (ha : Role.of? a = some r) :
    value (single a) = value (r.contribution a) := by
  rw [single_eq_merge, said, ha, Option.elim_some, h.merge, h.raw, Option.none_or]

/-- A value that is kept once it is set comes from the first annotation that sets it. -/
lemma foldl_add (marks : List Mark) :
    value (marks.foldl add {}) = marks.findSome? fun a => value (single a) := by
  have hfold : ∀ c, value (marks.foldl add c) =
      (value c).or (marks.findSome? fun a => value (single a)) := by
    induction marks with
    | nil => simp
    | cons a marks ih =>
      intro c
      rw [List.foldl_cons, ih, add_eq_merge, h.merge, Option.or_assoc, List.findSome?_cons]
      cases value (single a) <;> rfl
  rw [hfold, h.raw [], Option.none_or]

/-- A value that is set comes from an annotation of its role. -/
lemma exists_contributor {marks : List Mark} {x : α} (hx : value (marks.foldl add {}) = some x) :
    ∃ a ∈ marks, Role.of? a = some r ∧ value (r.contribution a) = some x := by
  rw [h.foldl_add] at hx
  obtain ⟨a, ha, hset⟩ := List.exists_of_findSome?_eq_some hx
  have hr : Role.of? a = some r := (h.role a).resolve_left fun hnone => by simp [hnone] at hset
  exact ⟨a, ha, hr, h.single_eq hr ▸ hset⟩

end IsKept

/-! ### Order -/

/-- The constraints without the record of what was written. -/
def withoutRaw (c : Constraints) : Constraints := { c with raw := [] }

/-- Annotations of different names can be merged in either order. -/
lemma merge_single_comm {a b : Mark} (h : a.simpleName ≠ b.simpleName) :
    ((single a).merge (single b)).withoutRaw = ((single b).merge (single a)).withoutRaw := by
  have hvalue : ∀ {α : Type} {x y : Option α} {r : Role}, r.isMarker = false →
      x = none ∨ Role.of? a = some r → y = none ∨ Role.of? b = some r → x.or y = y.or x := by
    rintro α x y r hr (rfl | ha) (rfl | hb)
    · rfl
    · simp
    · simp
    · exact absurd (simpleName_eq_of_role hr ha hb) h
  have htext : ∀ {x y : Text} {r : Role}, r.isMarker = false →
      x = [] ∨ Role.of? a = some r → y = [] ∨ Role.of? b = some r →
        firstText x y = firstText y x := by
    rintro x y r hr (rfl | ha) (rfl | hb)
    · rfl
    · rw [firstText_nil_left, firstText_nil_right]
    · rw [firstText_nil_left, firstText_nil_right]
    · exact absurd (simpleName_eq_of_role hr ha hb) h
  have ha := contributes_single a
  have hb := contributes_single b
  simp only [withoutRaw, merge, mk.injEq, and_true]
  exact ⟨Bool.or_comm .., Bool.or_comm .., hvalue rfl ha.size hb.size, hvalue rfl ha.min hb.min,
    hvalue rfl ha.max hb.max, htext rfl ha.pattern hb.pattern, htext rfl ha.rename hb.rename,
    Bool.or_comm .., Bool.or_comm .., Bool.or_comm .., Bool.or_comm ..,
    hvalue rfl ha.decimalMin hb.decimalMin, hvalue rfl ha.decimalMax hb.decimalMax⟩

lemma withoutRaw_merge (c d : Constraints) :
    (c.merge d).withoutRaw = (c.withoutRaw.merge d.withoutRaw).withoutRaw := rfl

/-- The order of annotations with different names shows in the record only. -/
lemma withoutRaw_foldl_of_perm {marks marks' : List Mark} (hperm : marks.Perm marks')
    (hnames : (marks.map Mark.simpleName).Nodup) (c : Constraints) :
    (marks.foldl add c).withoutRaw = (marks'.foldl add c).withoutRaw := by
  have hfold : ∀ (marks : List Mark) (c : Constraints), (marks.foldl add c).withoutRaw =
      marks.foldl (fun d a => (d.merge (single a)).withoutRaw) c.withoutRaw := by
    intro marks
    induction marks with
    | nil => intro c; rfl
    | cons a marks ih =>
      intro c
      rw [List.foldl_cons, ih, add_eq_merge, List.foldl_cons]
      rfl
  rw [hfold, hfold]
  refine hperm.foldl_eq' (fun a ha b hb d => ?_) _
  by_cases hname : a.simpleName = b.simpleName
  · rw [List.inj_on_of_nodup_map hnames ha hb hname]
  · have hcomm := merge_single_comm hname
    calc ((d.merge (single a)).withoutRaw.merge (single b)).withoutRaw
        = ((d.merge (single a)).merge (single b)).withoutRaw := rfl
      _ = (d.merge ((single a).merge (single b))).withoutRaw := by rw [merge_assoc]
      _ = (d.merge ((single b).merge (single a))).withoutRaw := by
        rw [withoutRaw_merge, hcomm, ← withoutRaw_merge]
      _ = ((d.merge (single b)).merge (single a)).withoutRaw := by rw [merge_assoc]

end DtoSchema.Constraints
