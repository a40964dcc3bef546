import DtoSchema.Dialect
import DtoSchema.Proofs.Declaration.Merging
import DtoSchema.Proofs.Text.Trimming

/-!
# Names of declarations

Whatever a source looks like, the names of the classes and enumerations that are read from it are
identifiers: a header is recognised together with its name, and merging invents no names.
-/

namespace DtoSchema.Declaration

open Text Source

/-! ### Occurrences -/

/-- What an occurrence holds was recognised at its place. -/
lemma exists_pattern_of_mem_occurrencesFrom {α : Type}
    {pattern : Option UInt8 → Text → Option (α × ℕ)} {o : Occurrence α} {before s : Text} {k : ℕ}
    (h : o ∈ occurrencesFrom pattern before k s) :
    ∃ prev, pattern prev o.rest = some (o.value, o.width) := by
  induction s generalizing before k with
  | nil => simp [occurrencesFrom] at h
  | cons b s ih =>
    cases k with
    | succ k => exact ih h
    | zero =>
      rw [occurrencesFrom] at h
      cases hat : pattern before.head? (b :: s) with
      | none =>
        rw [hat] at h
        exact ih h
      | some found =>
        obtain ⟨value, width⟩ := found
        rw [hat] at h
        rcases List.mem_cons.mp h with rfl | hrest
        · exact ⟨_, hat⟩
        · exact ih hrest

/-- A recognised header has a name of the given classes of bytes. -/
lemma exists_name_of_header? {keywords : List Text} {start part : UInt8 → Bool}
    {prev : Option UInt8} {s name : Text} {width : ℕ}
    (h : header? keywords start part prev s = some (name, width)) :
    ∃ b rest, name = b :: rest ∧ start b ∧ rest.all part := by
  unfold header? at h
  by_cases hat : atBoundary prev s
  · rw [if_pos hat] at h
    obtain ⟨rest, -, hname⟩ := Option.bind_eq_some_iff.mp h
    obtain ⟨found, hfound, heq⟩ := Option.map_eq_some_iff.mp hname
    obtain ⟨rfl, -⟩ := Prod.mk.inj heq
    unfold nameAfterGaps? at hfound
    split at hfound
    · next b t _ =>
      by_cases hb : start b
      · rw [if_pos hb] at hfound
        cases hfound
        exact ⟨b, t.takeWhile part, rfl, hb, List.all_takeWhile⟩
      · simp [hb] at hfound
    · simp at hfound
  · simp [hat] at h

/-- The classes of bytes give identifiers only. -/
def AreIdentBytes (start part : UInt8 → Bool) : Prop :=
  (∀ b, start b = true → isIdentStart b = true) ∧ ∀ b, part b = true → isIdentPart b = true

/-- The headers that are found in a text name identifiers. -/
lemma isIdent_of_mem_occurrences {keywords : List Text} {start part : UInt8 → Bool}
    (hbytes : AreIdentBytes start part) {o : Occurrence Text} {s : Text}
    (h : o ∈ occurrences (header? keywords start part) s) : isIdent o.value := by
  obtain ⟨prev, hat⟩ := exists_pattern_of_mem_occurrencesFrom h
  obtain ⟨b, rest, hname, hb, hrest⟩ := exists_name_of_header? hat
  rw [hname]
  simp only [isIdent, Bool.and_eq_true, List.all_eq_true] at hrest ⊢
  exact ⟨hbytes.1 b hb, fun c hc => hbytes.2 c (hrest c hc)⟩

/-- The classes of bytes of the Java dialect. -/
lemma areIdentBytes_ident : AreIdentBytes isIdentStart isIdentPart :=
  ⟨fun _ h => h, fun _ h => h⟩

/-- The classes of bytes of the Kotlin dialect. -/
lemma areIdentBytes_word : AreIdentBytes Kotlin.isNameStart isWord := by
  refine ⟨fun b hb => ?_, fun _ => isIdentPart_of_isWord⟩
  simp only [Kotlin.isNameStart, isIdentStart, Bool.or_eq_true] at hb ⊢
  tauto

/-! ### Enumerations -/

/-- An enumeration is named by its header. -/
lemma isIdent_of_mem_enums {keywords : List Text} {start part : UInt8 → Bool}
    (hbytes : AreIdentBytes start part) {e : EnumDecl} {s : Text}
    (h : e ∈ enums (header? keywords start part) s) : isIdent e.name := by
  obtain ⟨o, ho, he⟩ := List.mem_filterMap.mp h
  have hname : e.name = o.value := by
    split at he
    · simp at he
    · split at he
      · simp at he
      · simp at he
      · simp only [Option.some.injEq] at he
        rw [← he]
  rw [hname]
  exact isIdent_of_mem_occurrences hbytes ho

/-! ### Classes -/

/-- The classes of the headers that are found in a text are named by their headers. -/
lemma isIdent_of_mem_coalesce {keywords : List Text} {start part : UInt8 → Bool}
    (hbytes : AreIdentBytes start part) {classAt? : Occurrence Text → Option ClassDecl}
    (hclass : ∀ o c, classAt? o = some c → c.name = o.value) {d : ClassDecl} {s : Text}
    (h : d ∈ coalesce ((occurrences (header? keywords start part) s).filterMap classAt?)) :
    isIdent d.name := by
  obtain ⟨c, hc, hname⟩ := exists_name_of_mem_coalesce h
  obtain ⟨o, ho, hat⟩ := List.mem_filterMap.mp hc
  rw [hname, hclass o c hat]
  exact isIdent_of_mem_occurrences hbytes ho

/-- A class of the Java dialect has the name of its header. -/
lemma Java.name_of_classAt? {o : Occurrence Text} {c : ClassDecl}
    (h : Java.classAt? o = some c) : c.name = o.value := by
  unfold Java.classAt? at h
  split at h
  · simp at h
  · obtain ⟨body, -, rfl⟩ := Option.map_eq_some_iff.mp h
    rfl

/-- A class of the Kotlin dialect has the name of its header. -/
lemma Kotlin.name_of_classAt? {o : Occurrence Text} {c : ClassDecl}
    (h : Kotlin.classAt? o = some c) : c.name = o.value := by
  simp only [Kotlin.classAt?, Option.ite_none_left_eq_some, Option.some.injEq] at h
  rw [← h.2]

end DtoSchema.Declaration

namespace DtoSchema.Dialect

open Source Declaration

/-- The enumerations of a source are named by identifiers. -/
theorem isIdent_of_mem_enums (dialect : Dialect) {s : Text} {e : EnumDecl}
    (h : e ∈ dialect.enums s) : isIdent e.name := by
  cases dialect with
  | kotlin => exact Declaration.isIdent_of_mem_enums areIdentBytes_word h
  | java => exact Declaration.isIdent_of_mem_enums areIdentBytes_ident h
  | unknown => exact Declaration.isIdent_of_mem_enums areIdentBytes_ident h

/-- The classes of a source are named by identifiers. -/
theorem isIdent_of_mem_classes (dialect : Dialect) {s : Text} {c : ClassDecl}
    (h : c ∈ dialect.classes s) : isIdent c.name := by
  cases dialect with
  | kotlin => exact isIdent_of_mem_coalesce areIdentBytes_word (fun _ _ => Kotlin.name_of_classAt?) h
  | java => exact isIdent_of_mem_coalesce areIdentBytes_ident (fun _ _ => Java.name_of_classAt?) h
  | unknown =>
    exact isIdent_of_mem_coalesce areIdentBytes_ident (fun _ _ => Java.name_of_classAt?) h

end DtoSchema.Dialect
