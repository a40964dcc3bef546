import Mathlib
import DtoSchema.Schema.Mapping

/-!
# One level of the mapping of a type

The mapping of a type looks at one level of it at a time: it takes the text apart, maps the
arguments with one level less, and builds its answer from theirs.  `Parts` is what a type is taken
apart into, and `Resolver.mapWithin_succ` says what one level does in terms of it.

Everything that holds of the mapping of every text is derived from this one equation.
`Resolver.mapWithin_induction` is the induction over the levels for what an answer is like,
`Resolver.halted_mapWithin_iff` says when the limit is passed, and `Resolver.mapWithin_eq_of_le` that
an answer that was not stopped does not depend on the limit.
-/

namespace DtoSchema.Schema

open Text Source

/-! ### Parts of a type -/

/-- What a type that is no array is made of. -/
inductive Parts where
  /-- A name, or anything that is no collection. -/
  | name (s : Text)
  /-- A collection with one argument. -/
  | list (member : Text)
  /-- A collection with a key and a value. -/
  | map (key value : Text)

namespace Parts

/-- The parts of a type that is no array. -/
def ofText (s : Text) : Parts :=
  match splitGeneric? s with
  | none => name s
  | some (head, inner) =>
    if collectionName head ∈ listNames then list inner
    else if collectionName head ∈ mapNames then
      match splitTopLevel (ascii ',') inner with
      | [key, value] => map (trim key) (trim value)
      | _ => name s
    else name s

/-- The arguments of a collection. -/
def arguments : Parts → List Text
  | name _ => []
  | list member => [member]
  | map key value => [key, value]

end Parts

/-- What an array is mapped to, from what its members are mapped to. -/
def Mapped.array (m : Mapped) : Mapped := { m with expr := .array m.expr }

/-- What parts are mapped to, given the mapping of their arguments. -/
def Parts.mapped (r : Resolver) (argument : Text → Mapped) : Parts → Mapped
  | name s => r.leaf s
  | list member => (argument member).array
  | map key value => mapRecord key (argument key) (argument value)

/-- The parts of a type under its wrappers and bracket pairs. -/
def partsOf (s : Text) : Parts := .ofText (splitArray (unwrap s)).1

/-- The bracket pairs of a type under its wrappers. -/
def pairsOf (s : Text) : ℕ := (splitArray (unwrap s)).2

namespace Resolver

variable {r : Resolver} {root : Text}

/-- A type that is no array is mapped by its parts. -/
lemma base_eq_mapped (r : Resolver) (argument : Text → Mapped) (s : Text) :
    r.base argument s = (Parts.ofText s).mapped r argument := by
  unfold Resolver.base Parts.ofText
  cases splitGeneric? s with
  | none => rfl
  | some generic =>
    obtain ⟨head, inner⟩ := generic
    by_cases hlist : collectionName head ∈ listNames
    · simp only [hlist, if_true]
      rfl
    · by_cases hmap : collectionName head ∈ mapNames
      · simp only [hlist, hmap, if_true, if_false]
        -- two arguments make a map, any other number of them a name
        rcases splitTopLevel (ascii ',') inner with _ | ⟨key, _ | ⟨value, _ | ⟨_, _⟩⟩⟩ <;> rfl
      · simp only [hlist, hmap, if_false]
        rfl

/-- Arrays of arrays, as answers and as expressions. -/
lemma iterate_array (n : ℕ) (m : Mapped) :
    Mapped.array^[n] m = { m with expr := m.expr.arrays n } := by
  induction n with
  | zero => rfl
  | succ n ih => rw [Function.iterate_succ_apply', ih]; rfl

/-- One level of the mapping: the parts are mapped with one level less, and each bracket pair makes
an array. -/
lemma mapWithin_succ (r : Resolver) (root : Text) (allowance : ℕ) (s : Text) :
    r.mapWithin root (allowance + 1) s =
      Mapped.array^[pairsOf s] ((partsOf s).mapped r (r.mapWithin root allowance)) := by
  rw [iterate_array]
  simp only [Resolver.mapWithin, base_eq_mapped, partsOf, pairsOf]

/-! ### Induction over the levels -/

/-- What a list of pairs gives for a key is the second half of one of them. -/
lemma mem_of_lookup {α : Type} {pairs : List (Text × α)} {key : Text} {value : α}
    (h : pairs.lookup key = some value) : (key, value) ∈ pairs := by
  obtain ⟨before, after, rfl, -⟩ := List.lookup_eq_some_iff.mp h
  simp

/-- What holds of the answers for declared enumerations, overrides, built-in types, dates, declared
classes and unknown names holds of what every name is mapped to. -/
lemma leaf_induction (r : Resolver) {P : Mapped → Prop}
    (enumRef : ∀ name, r.table.hasEnum name → P ⟨.enumRef name, [], false⟩)
    (verbatim : ∀ name text, (name, text) ∈ r.overrides → P ⟨.verbatim text, [], false⟩)
    (scalar : ∀ p ∈ scalars, P ⟨p.2, [], false⟩) (date : P ⟨.string, [], false⟩)
    (classRef : ∀ name, r.table.hasClass name → P ⟨.classRef name, [], false⟩)
    (unknown : ∀ name suggestions, P ⟨.unknown, [unknownType name suggestions], false⟩)
    (s : Text) : P (r.leaf s) := by
  unfold Resolver.leaf
  by_cases henum : r.table.hasEnum (simpleName s)
  · simpa [henum] using enumRef _ henum
  simp only [henum, if_false, Bool.false_eq_true]
  cases hoverride : r.override? s (simpleName s) with
  | some text =>
    rcases Option.or_eq_some_iff.mp hoverride with hwritten | ⟨-, hsimple⟩
    · exact verbatim _ text (mem_of_lookup hwritten)
    · exact verbatim _ text (mem_of_lookup hsimple)
  | none =>
    cases hscalar : scalars.lookup (simpleName s) with
    | some e => exact scalar _ (mem_of_lookup hscalar)
    | none =>
      by_cases hdate : isDate s (simpleName s)
      · simpa [hdate] using date
      by_cases hclass : r.table.hasClass (simpleName s)
      · simpa [hdate, hclass] using classRef _ hclass
      · simpa [hdate, hclass] using unknown s _

/-- What holds of the answer that the limit was passed and of the answers for names, and is kept by
arrays and records, holds of what every type is mapped to. -/
theorem mapWithin_induction {P : Mapped → Prop} (deep : P ⟨.unknown, [tooDeep root], true⟩)
    (leaf : ∀ s, P (r.leaf s)) (array : ∀ m, P m → P m.array)
    (record : ∀ text key value, P key → P value → P (mapRecord text key value))
    (allowance : ℕ) (s : Text) : P (r.mapWithin root allowance s) := by
  induction allowance generalizing s with
  | zero => exact deep
  | succ allowance ih =>
    have harrays : ∀ n m, P m → P (Mapped.array^[n] m) := by
      intro n m hm
      induction n with
      | zero => exact hm
      | succ n ihn =>
        rw [Function.iterate_succ_apply']
        exact array _ ihn
    rw [mapWithin_succ]
    apply harrays
    cases partsOf s with
    | name t => exact leaf t
    | list member => exact array _ (ih member)
    | map key value => exact record key _ _ (ih key) (ih value)

/-! ### Passing the limit -/

/-- Arrays are stopped with their members. -/
lemma halted_iterate_array (n : ℕ) (m : Mapped) : (Mapped.array^[n] m).halted = m.halted := by
  rw [iterate_array]

/-- A name does not pass the limit. -/
lemma halted_leaf (r : Resolver) (s : Text) : (r.leaf s).halted = false :=
  r.leaf_induction (P := fun m => m.halted = false) (fun _ _ => rfl) (fun _ _ _ => rfl)
    (fun _ _ => rfl) rfl (fun _ _ => rfl) (fun _ _ => rfl) s

end Resolver

/-- A record is stopped with its key or its value. -/
lemma halted_mapRecord (text : Text) (key value : Mapped) :
    (mapRecord text key value).halted = (key.halted || value.halted) := by
  unfold mapRecord
  cases hkey : key.halted with
  | true => rfl
  | false =>
    cases hvalue : value.halted with
    | true => by_cases htext : key.expr.kind.isTextual <;> simp [htext]
    | false => by_cases htext : key.expr.kind.isTextual <;> simp [htext]

/-- The type has `n` levels: a chain of types starts with it, each of them an argument of the one
before. -/
inductive Nests : ℕ → Text → Prop
  /-- Every type has no level. -/
  | zero (s : Text) : Nests 0 s
  /-- A type has one level more than one of its arguments. -/
  | succ {n : ℕ} {s t : Text} : t ∈ (partsOf s).arguments → Nests n t → Nests (n + 1) s

/-- A type has a level if and only if one of its arguments has the levels below it. -/
lemma nests_succ_iff {n : ℕ} {s : Text} :
    Nests (n + 1) s ↔ ∃ t ∈ (partsOf s).arguments, Nests n t := by
  constructor
  · intro h
    cases h with
    | succ hmem ht => exact ⟨_, hmem, ht⟩
  · rintro ⟨t, hmem, ht⟩
    exact .succ hmem ht

namespace Resolver

/-- The mapping is stopped if and only if the type has as many levels as the mapping was allowed to
look at, wherever in it they are. -/
theorem halted_mapWithin_iff (r : Resolver) (root : Text) (allowance : ℕ) (s : Text) :
    (r.mapWithin root allowance s).halted ↔ Nests allowance s := by
  induction allowance generalizing s with
  | zero => exact ⟨fun _ => .zero s, fun _ => rfl⟩
  | succ allowance ih =>
    rw [mapWithin_succ, halted_iterate_array, nests_succ_iff]
    cases partsOf s with
    | name t => simp [Parts.mapped, Parts.arguments, halted_leaf]
    | list member => simp [Parts.mapped, Parts.arguments, Mapped.array, ih]
    | map key value => simp [Parts.mapped, Parts.arguments, halted_mapRecord, ih]

/-- An answer that was not stopped is also that of the mapping with one level more, whatever name
an error would give the type. -/
lemma mapWithin_succ_eq (r : Resolver) (root root' : Text) (allowance : ℕ) (s : Text)
    (h : (r.mapWithin root allowance s).halted = false) :
    r.mapWithin root' (allowance + 1) s = r.mapWithin root allowance s := by
  induction allowance generalizing s with
  | zero => simp [Resolver.mapWithin] at h
  | succ allowance ih =>
    rw [mapWithin_succ, halted_iterate_array] at h
    rw [mapWithin_succ, mapWithin_succ r root allowance]
    congr 1
    cases hparts : partsOf s with
    | name t => rfl
    | list member =>
      rw [hparts] at h
      simp only [Parts.mapped]
      rw [ih member h]
    | map key value =>
      simp only [hparts, Parts.mapped, halted_mapRecord, Bool.or_eq_false_iff] at h
      simp only [Parts.mapped]
      rw [ih key h.1, ih value h.2]

/-- An answer that was not stopped does not depend on the limit. -/
theorem mapWithin_eq_of_le (r : Resolver) (root : Text) (s : Text) {allowance more : ℕ}
    (hle : allowance ≤ more) (h : (r.mapWithin root allowance s).halted = false) :
    r.mapWithin root more s = r.mapWithin root allowance s := by
  induction more, hle using Nat.le_induction with
  | base => rfl
  | succ more _ ih => rw [mapWithin_succ_eq r root root more s (by rw [ih, h]), ih]

end Resolver

end DtoSchema.Schema
