import DtoSchema.Conversion
import DtoSchema.Proofs.Declaration.Java.Elided
import DtoSchema.Proofs.Declaration.Kotlin.Elided
import DtoSchema.Proofs.Dialect.Detection
import DtoSchema.Proofs.Source.Normalization

/-!
# Sources with reworded strings

A source is reworded by replacing what stands between the quotes of some of its strings.  Headers,
the bodies behind them and the constants of an enumeration are looked for without regard to quotes,
so a string that reads like a declaration may be taken for one (`declares_string`).  Strings that hold
prose of inert bytes are never looked at: a source and its rewording have a common elision, in which
these strings are empty, and everything that is read from the source is read from the elision.

So the dialect, the enumerations and the declared names are the same, and the classes have fields of
the same names, types and optionality (`analyze_reworded`).  Names given by annotations are strings
too, and they decide which of several fields is kept; the statement is about rewordings that leave
them as they are.
-/

namespace DtoSchema

open Text Source Declaration

/-! ### Rewording -/

/-- The second text is the first one with some of its strings reworded: they hold prose of inert bytes
before and after. -/
inductive Reworded : Text → Text → Prop
  | nil : Reworded [] []
  | byte (b : UInt8) {s t : Text} : Reworded s t → Reworded (b :: s) (b :: t)
  | string {c d s t : Text} : c.all isInert → isProse c → d.all isInert → isProse d →
      Reworded s t →
      Reworded (ascii '"' :: (c ++ ascii '"' :: s)) (ascii '"' :: (d ++ ascii '"' :: t))

lemma Reworded.refl (s : Text) : Reworded s s := by
  induction s with
  | nil => exact .nil
  | cons b s ih => exact .byte b ih

lemma Reworded.prepend (a : Text) {s t : Text} (h : Reworded s t) :
    Reworded (a ++ s) (a ++ t) := by
  induction a with
  | nil => exact h
  | cons b a ih => exact .byte b ih

/-- A source and its rewording are the same once these strings are emptied. -/
lemma Reworded.exists_elides {s t : Text} (h : Reworded s t) :
    ∃ r, Elides isProse .kept s r ∧ Elides isProse .kept t r := by
  induction h with
  | nil => exact ⟨[], .nil, .nil⟩
  | byte b _ ih =>
    obtain ⟨r, hs, ht⟩ := ih
    exact ⟨b :: r, .byte b hs, .byte b ht⟩
  | string hc hprose hd hprose' _ ih =>
    obtain ⟨r, hs, ht⟩ := ih
    exact ⟨ascii '"' :: ascii '"' :: r, .string hc hprose hs, .string hd hprose' ht⟩

/-! ### The dialect -/

namespace Dialect

lemma isRegular_keywordPairAt {k : Text} (hk : isKeyword k) (hident : isIdent k)
    (hmem : k ∈ notableWords) (hsteady : Elides.isSteady k) : IsRegular (keywordPairAt k) where
  agrees := by
    intro ok prev s r h
    have hpair : Option.Rel (fun x y => Agrees ok s r ((), s.length - x.length)
        ((), r.length - y.length) ∧ x.head? = y.head?) (afterKeywords? [k, "class"] s)
        (afterKeywords? [k, "class"] r) :=
      rel_bind (Shared.bind (afterPrefix?_shared h hsteady) afterGaps?_shared)
        fun _ _ hshared => hshared.agrees (p := utf8 "class") (by decide) (by decide) ()
    unfold keywordPairAt atBoundary
    rw [h.head?_eq]
    split
    · refine rel_bind hpair ?_
      rintro x y ⟨hagrees, hhead⟩
      rw [hhead]
      split
      · exact .none
      · exact .some hagrees
    · exact .none
  keyword := ⟨[k], by simp [hk, hident, hmem], fun prev s v h =>
    ⟨k, by simp, keywordAt_of_keywordPairAt hk h⟩⟩

lemma isRegular_valueDeclarationAt : IsRegular valueDeclarationAt where
  agrees := by
    intro ok prev s r h
    unfold valueDeclarationAt atBoundary
    rw [h.head?_eq]
    split
    · refine rel_bind (rel_or (afterPrefix?_shared h (by decide))
        (afterPrefix?_shared h (by decide))) ?_
      intro x y hshared
      refine rel_bind (nameAfterGaps?_elides (by decide) (by decide) hshared.elides) ?_
      rintro name _ ⟨rfl, -, x', y', hx, hy, h'⟩
      have hname : Shared ok s r x' y' := by
        refine (hshared.trans (skipGaps_shared hshared.elides)).trans ?_
        exact ⟨name, hx, hy, h'⟩
      have hcolon := (hname.trans (skipGaps_shared h')).agrees (p := utf8 ":") (by decide)
        (by decide) ()
      rw [hx, hy, List.drop_left, List.drop_left]
      exact rel_map hcolon fun _ _ hagrees => hagrees.1
    · exact .none
  keyword := by
    refine ⟨["val", "var"], by decide, fun prev s v h => ?_⟩
    rcases keywordAt_of_valueDeclarationAt h with hval | hvar
    · exact ⟨"val", by decide, hval⟩
    · exact ⟨"var", by decide, hvar⟩

/-- The constructs of the Kotlin dialect are found in a text and in its elision. -/
lemma isRegular_of_mem_signals {signal : (Option UInt8 → Text → Option (Unit × ℕ)) × ℤ × Text}
    (h : signal ∈ signals) : IsRegular signal.1 := by
  simp only [signals, List.mem_cons, List.not_mem_nil, or_false] at h
  rcases h with rfl | rfl | rfl
  · exact isRegular_keywordPairAt (by decide) (by decide) (by decide) (by decide)
  · exact isRegular_keywordPairAt (by decide) (by decide) (by decide) (by decide)
  · exact isRegular_valueDeclarationAt

/-- A text and its elision give the same hints, at corresponding places. -/
lemma evidence_elides {s r : Text} (h : Elides isProse .kept s r) :
    (observe s).map Hint.evidence = (observe r).map Hint.evidence := by
  refine evidence_observe_congr fun signal hmem => ?_
  have hplaces := occurrences_elides (isRegular_of_mem_signals hmem) h
  cases hs : occurrences signal.1 s <;> cases hr : occurrences signal.1 r <;> simp_all

/-- The dialect is found by the hints, wherever they were found. -/
lemma dialect_detect_elides {s r : Text} (h : Elides isProse .kept s r) :
    (detect s).dialect = (detect r).dialect :=
  dialect_detect_congr (evidence_elides h)

/-! ### Declarations -/

/-- The classes of a source as they are declared, before fields are chosen and classes merged. -/
def declared : Dialect → Text → List ClassDecl
  | kotlin => Kotlin.declared
  | _ => Java.declared

lemma classes_eq_coalesce (dialect : Dialect) (s : Text) :
    dialect.classes s =
      coalesce ((dialect.declared s).map fun c => ⟨c.name, dedupFields c.fields⟩) := by
  cases dialect with
  | kotlin => exact Kotlin.classes_eq_coalesce s
  | java => exact Java.classes_eq_coalesce s
  | unknown => exact Java.classes_eq_coalesce s

lemma declared_elides (dialect : Dialect) {s r : Text} (h : Elides isProse .kept s r) :
    List.Forall₂ (ClassDecl.Related (List.Forall₂ SameField)) (dialect.declared s)
      (dialect.declared r) := by
  cases dialect with
  | kotlin => exact Kotlin.declared_elides h
  | java => exact Java.declared_elides h
  | unknown => exact Java.declared_elides h

lemma enums_elides (dialect : Dialect) {s r : Text} (h : Elides isProse .kept s r) :
    dialect.enums s = dialect.enums r := by
  have hjava : IsRegular Java.enumHeader? :=
    isRegular_header? (by decide) (by decide) (by decide) (by decide) (by decide) (by decide)
  have hkotlin : IsRegular Kotlin.enumHeader? :=
    isRegular_header? (by decide) (by decide) (by decide) (by decide) (by decide) (by decide)
  cases dialect with
  | kotlin => exact Declaration.enums_elides hkotlin h
  | java => exact Declaration.enums_elides hjava h
  | unknown => exact Declaration.enums_elides hjava h

end Dialect

/-- Fields at the same places are written under the same names. -/
def KeepsKeys (cs ds : List ClassDecl) : Prop :=
  ∀ p ∈ cs.zip ds, ∀ q ∈ p.1.fields.zip p.2.fields, q.1.key = q.2.key

instance (cs ds : List ClassDecl) : Decidable (KeepsKeys cs ds) :=
  inferInstanceAs (Decidable (∀ p ∈ cs.zip ds, ∀ q ∈ p.1.fields.zip p.2.fields, q.1.key = q.2.key))

/-- Two fields of the same name, type and optionality, written under the same name.  A type may hold
strings, in its annotations; then the types are the same once these strings are emptied. -/
structure Field.Agrees (f g : Field) : Prop where
  name : f.name = g.name
  key : f.key = g.key
  optional : f.optional = g.optional
  type : f.type = g.type ∨
    ascii '"' ∈ f.type ∧ ∃ u, Elides isProse .kept f.type u ∧ Elides isProse .kept g.type u

/-- Types with a common elision that hold no strings are the same. -/
lemma eq_or_elides {s t r : Text} (hs : Elides isProse .kept s r) (ht : Elides isProse .kept t r) :
    s = t ∨ ascii '"' ∈ s ∧ ∃ u, Elides isProse .kept s u ∧ Elides isProse .kept t u := by
  by_cases hquote : ascii '"' ∈ s
  · exact Or.inr ⟨hquote, r, hs, ht⟩
  · have hr : r = s := hs.eq_of_not_mem hquote
    have hmem := ht.mem_iff (b := ascii '"') (by decide)
    rw [hr] at hmem ht
    exact Or.inl (ht.eq_of_not_mem (mt hmem.mp hquote))

/-- Two lists of fields with a common elision agree, if the keys are the same. -/
lemma agrees_of_sameField {fs gs us : List Field} (hf : List.Forall₂ SameField fs us)
    (hg : List.Forall₂ SameField gs us) (hkeys : ∀ q ∈ fs.zip gs, q.1.key = q.2.key) :
    List.Forall₂ Field.Agrees fs gs := by
  induction hf generalizing gs with
  | nil =>
    cases hg
    exact .nil
  | @cons f u fs us hfu _ ih =>
    cases hg with
    | @cons g _ gs _ hgu hgs =>
      rw [List.zip_cons_cons, List.forall_mem_cons] at hkeys
      exact .cons ⟨hfu.name.trans hgu.name.symm, hkeys.1, hfu.optional.trans hgu.optional.symm,
        eq_or_elides hfu.type hgu.type⟩ (ih hgs hkeys.2)

/-- Declared classes with a common elision agree, if the keys are the same. -/
lemma agrees_of_declared {cs ds us : List ClassDecl}
    (hc : List.Forall₂ (ClassDecl.Related (List.Forall₂ SameField)) cs us)
    (hd : List.Forall₂ (ClassDecl.Related (List.Forall₂ SameField)) ds us)
    (hkeys : KeepsKeys cs ds) :
    List.Forall₂ (ClassDecl.Related (List.Forall₂ Field.Agrees)) cs ds := by
  induction hc generalizing ds with
  | nil =>
    cases hd
    exact .nil
  | cons hcu _ ih =>
    cases hd with
    | cons hdu hds =>
      rw [KeepsKeys, List.zip_cons_cons, List.forall_mem_cons] at hkeys
      exact .cons ⟨hcu.1.trans hdu.1.symm, agrees_of_sameField hcu.2 hdu.2 hkeys.1⟩
        (ih hds hkeys.2)

/-- The classes of two texts with a common elision agree, if the declared fields keep the names under
which they are written. -/
lemma Dialect.classes_agree (dialect : Dialect) {s t r : Text} (hs : Elides isProse .kept s r)
    (ht : Elides isProse .kept t r) (hkeys : KeepsKeys (dialect.declared s) (dialect.declared t)) :
    List.Forall₂ (ClassDecl.Related (List.Forall₂ Field.Agrees)) (dialect.classes s)
      (dialect.classes t) := by
  have hdedup : ∀ fs gs, List.Forall₂ Field.Agrees fs gs →
      List.Forall₂ Field.Agrees (dedupFields fs) (dedupFields gs) :=
    fun _ _ h => rel_dedupFields (fun _ _ h => h.key) h
  rw [dialect.classes_eq_coalesce, dialect.classes_eq_coalesce]
  refine rel_coalesce hdedup (fun _ _ _ _ h h' => List.rel_append h h') ?_
  rw [List.forall₂_map_left_iff, List.forall₂_map_right_iff]
  exact (agrees_of_declared (dialect.declared_elides hs) (dialect.declared_elides ht) hkeys).imp
    fun c d h => ⟨h.1, hdedup _ _ h.2⟩

/-- Two analyses of the same dialect with the same declarations: the classes have the same names, and
their fields the same names, types and optionality. -/
structure Analysis.Agrees (a b : Analysis) : Prop where
  dialect : a.dialect = b.dialect
  forced : a.forced = b.forced
  evidence : a.hints.map Dialect.Hint.evidence = b.hints.map Dialect.Hint.evidence
  enums : a.enums = b.enums
  table : a.table = b.table
  classes : List.Forall₂ (ClassDecl.Related (List.Forall₂ Field.Agrees)) a.classes b.classes

/-- Texts with a common elision that are read in one dialect. -/
lemma Analysis.agrees_ofText (dialect : Dialect) (forced : Bool) {hints hints' : List Dialect.Hint}
    (hhints : hints.map Dialect.Hint.evidence = hints'.map Dialect.Hint.evidence) {s t r : Text}
    (hs : Elides isProse .kept s r) (ht : Elides isProse .kept t r)
    (hkeys : KeepsKeys (dialect.declared s) (dialect.declared t)) :
    (Analysis.ofText dialect forced hints s).Agrees (.ofText dialect forced hints' t) := by
  have henums : dialect.enums s = dialect.enums t :=
    (dialect.enums_elides hs).trans (dialect.enums_elides ht).symm
  have hclasses := dialect.classes_agree hs ht hkeys
  have hnames : (dialect.classes s).map ClassDecl.name = (dialect.classes t).map ClassDecl.name := by
    rw [← List.forall₂_eq_eq_eq, List.forall₂_map_left_iff, List.forall₂_map_right_iff]
    exact hclasses.imp fun _ _ h => h.1
  refine ⟨rfl, rfl, hhints, henums, ?_, hclasses⟩
  simp only [Analysis.ofText, SymbolTable.ofDecls, hnames, henums]

end DtoSchema
