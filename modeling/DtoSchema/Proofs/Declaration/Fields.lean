import DtoSchema.Dialect
import DtoSchema.Proofs.Declaration.Merging

/-!
# Where the fields of a class come from

A field of a class is declared by a statement of its body or by a parameter of its constructor.
This module says once for each dialect what such a field is made of: a name that was read as an
identifier, a type without white space around it, and an optionality that regards the annotations
(`Java.exists_of_mem_statementFields`, `Kotlin.exists_of_property?`).  Merging drops fields and never
changes one, so what holds of all declared fields holds of the fields of all classes
(`Dialect.keeps_classes`).
-/

namespace DtoSchema

open Text Source

namespace Declaration

/-- What stands at the start of a text is nothing or an identifier. -/
lemma isIdent_leadingIdent {s : Text} (h : leadingIdent s ≠ []) : isIdent (leadingIdent s) := by
  unfold leadingIdent at h ⊢
  cases hs : skipGaps s with
  | nil => simp [hs, identAt] at h
  | cons b t =>
    by_cases hb : isIdentStart b
    · simp [identAt, hb, isIdent]
    · simp [hs, identAt, hb] at h

/-! ### Statements of the Java dialect -/

namespace Java

lemma of_typeAndName? {s type name : Text} {pairs : ℕ}
    (h : typeAndName? s = some (type, name, pairs)) : isIdent name ∧ ∃ u, type = trim u := by
  simp only [typeAndName?, Option.ite_none_right_eq_some, Option.some.injEq, Prod.mk.injEq] at h
  obtain ⟨⟨hname, -⟩, htype, rfl, -⟩ := h
  exact ⟨hname, _, htype.symm⟩

lemma isIdent_of_nameAndPairs? {s name : Text} {pairs : ℕ}
    (h : nameAndPairs? s = some (name, pairs)) : isIdent name := by
  simp only [nameAndPairs?, Option.ite_none_right_eq_some, Option.some.injEq, Prod.mk.injEq] at h
  obtain ⟨hname, rfl, -⟩ := h
  exact hname

/-- The fields of a statement share its annotations and its type, from which their optionality is
read; each has a name and bracket pairs of its own. -/
lemma exists_of_mem_statementFields {s : Text} {f : Field} (h : f ∈ statementFields s) :
    ∃ (marks : Text) (type name : Text) (pairs : ℕ), isIdent name ∧ (∃ u, type = trim u) ∧
      f = .declare name (arrayOf type pairs)
        ((Constraints.ofJava marks).nullable || isOptionalType type) (.ofJava marks) := by
  unfold statementFields at h
  split at h
  · simp at h
  · next marks rest _ =>
    split at h
    · simp at h
    · split at h
      · simp at h
      · next first more _ =>
        split at h
        · simp at h
        · next type name pairs hfirst =>
          obtain ⟨hname, htrim⟩ := of_typeAndName? hfirst
          rcases List.mem_cons.mp h with rfl | hmore
          · exact ⟨marks, type, name, pairs, hname, htrim, rfl⟩
          · obtain ⟨⟨name', pairs'⟩, hmem, rfl⟩ := List.mem_map.mp hmore
            obtain ⟨part, -, hpart⟩ := List.mem_filterMap.mp hmem
            exact ⟨marks, type, name', pairs', isIdent_of_nameAndPairs? hpart, htrim, rfl⟩

/-- What holds of all declared fields holds of the fields of all classes. -/
lemma keeps_classes {P : Field → Prop} (h : ∀ s, ∀ f ∈ statementFields s, P f) (s : Text) :
    ∀ c ∈ classes s, c.Keeps P := by
  refine keeps_coalesce fun c hc => ?_
  obtain ⟨o, -, hat⟩ := List.mem_filterMap.mp hc
  unfold classAt? at hat
  split at hat
  · simp at hat
  · obtain ⟨body, -, rfl⟩ := Option.map_eq_some_iff.mp hat
    refine (keeps_dedupFields (fun f hf => ?_) o.value).fields
    obtain ⟨statement, -, hmem⟩ := List.mem_flatMap.mp hf
    exact h statement f hmem

end Java

/-! ### Properties of the Kotlin dialect -/

namespace Kotlin

/-- A property may be missing if a question mark stands behind its type, or by its annotations. -/
lemma exists_of_property? {s : Text} {f : Field} (h : property? s = some f) :
    ∃ (marks : Text) (type name : Text) (questioned : Bool), isIdent name ∧
      f = .declare name type (questioned || (Constraints.ofKotlin marks).nullable)
        (.ofKotlin marks) := by
  simp only [property?, Option.bind_eq_bind, Option.bind_eq_some_iff] at h
  obtain ⟨⟨marks, rest⟩, -, _, -, _, hguard, type, -, _, -, hfield⟩ := h
  have hname := isIdent_leadingIdent ((Option.guard_eq_some' _).mp hguard)
  split at hfield
  · split at hfield
    · exact ⟨marks, _, _, true, hname, (Option.some.inj hfield).symm⟩
    · exact ⟨marks, _, _, false, hname, (Option.some.inj hfield).symm⟩
  · simp at hfield

lemma property_of_mem_propertiesFrom {pending : Text} {ss : List Text} {f : Field}
    (h : f ∈ propertiesFrom pending ss) : ∃ s, property? s = some f := by
  induction ss generalizing pending with
  | nil => simp [propertiesFrom] at h
  | cons s ss ih =>
    rw [propertiesFrom] at h
    split at h
    · exact ih h
    · split at h
      · exact ih h
      · rcases List.mem_append.mp h with hmem | hrest
        · exact ⟨_, Option.mem_toList.mp hmem⟩
        · exact ih hrest

/-- What holds of all declared properties holds of the fields of all classes: they are the
properties among the parameters and those of the body, and either may be missing. -/
lemma keeps_classes {P : Field → Prop} (h : ∀ s f, property? s = some f → P f) (s : Text) :
    ∀ c ∈ classes s, c.Keeps P := by
  refine keeps_coalesce fun c hc => ?_
  obtain ⟨o, -, hat⟩ := List.mem_filterMap.mp hc
  simp only [classAt?, Option.ite_none_left_eq_some, Option.some.injEq] at hat
  obtain ⟨-, rfl⟩ := hat
  refine (keeps_dedupFields (fun f hf => ?_) o.value).fields
  rcases List.mem_append.mp hf with hparam | hmember
  · obtain ⟨part, -, hproperty⟩ := List.mem_filterMap.mp hparam
    exact h part f hproperty
  · cases hbody : body? ((primaryConstructor? o.after).getD ([], o.after)).2 with
    | none => simp [hbody] at hmember
    | some body =>
      rw [hbody] at hmember
      obtain ⟨part, hproperty⟩ := property_of_mem_propertiesFrom hmember
      exact h part f hproperty

end Kotlin

end Declaration

/-- What holds of all fields that a dialect declares holds of the fields of all classes of a source
in that dialect. -/
lemma Dialect.keeps_classes (dialect : Dialect) {P : Field → Prop}
    (hjava : dialect ≠ .kotlin → ∀ s, ∀ f ∈ Declaration.Java.statementFields s, P f)
    (hkotlin : dialect = .kotlin → ∀ s f, Declaration.Kotlin.property? s = some f → P f)
    (s : Text) : ∀ c ∈ dialect.classes s, c.Keeps P := by
  cases dialect with
  | kotlin => exact Declaration.Kotlin.keeps_classes (hkotlin rfl) s
  | java => exact Declaration.Java.keeps_classes (hjava (by simp)) s
  | unknown => exact Declaration.Java.keeps_classes (hjava (by simp)) s

end DtoSchema
