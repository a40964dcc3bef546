import Mathlib
import DtoSchema.Proofs.Declaration.Lexicon
import DtoSchema.Proofs.Declaration.WellFormed
import DtoSchema.Proofs.Schema.OptionalCall
import DtoSchema.Proofs.Schema.Parts
import DtoSchema.Proofs.Text.WhiteSpace

/-!
# Optional wrappers

A type may be an optional wrapper around another one.  Two places look for the wrapper: the mapping
of types removes it, and the reader of Java statements makes the field optional by it.  They look at
different texts: the mapping at the type with its white space collapsed, the reader at the type as it
is written, in which it skips gaps only.  So they agree unless white space that is no gap stands
before the argument of the wrapper (`Java.optional_of_mem_statementFields`).  The reader of Kotlin
properties does not look for the wrapper at all.

A field that is optional is written as its refined schema with one call behind it.  The schema is
that of the wrapped type, if this is in no wrapper itself (`optional_of_wraps`).
-/

namespace DtoSchema

open Text Source
open Declaration (optionalNames)

namespace Schema

/-! ### The wrapper -/

/-- The type is an optional wrapper around `inner`: apart from its white space it is one of the names
with an argument in angle brackets. -/
def Wraps (type inner : Text) : Prop :=
  ∃ q ∈ optionalNames, ∃ content, argumentsOf? q (collapse type) = some content ∧
    trim content = inner

/-- Without its qualifier a name of the wrapper is the short one. -/
lemma getD_afterPrefix?_optionalName {q : Text} (hq : q ∈ optionalNames) (r : Text) :
    (afterPrefix? "java.util." (q ++ r)).getD (q ++ r) = utf8 "Optional" ++ r := by
  simp only [optionalNames, List.mem_cons, List.not_mem_nil, or_false] at hq
  rcases hq with rfl | rfl
  · rfl
  · have hcut : utf8 "java.util.Optional" ++ r = utf8 "java.util." ++ (utf8 "Optional" ++ r) := by
      rw [← List.append_assoc]
      rfl
    rw [hcut, afterPrefix?_append, Option.getD_some]

/-- The type that an optional wrapper is around stays when wrappers are removed.  No other wrapper
has a name that starts with the same byte. -/
lemma unwrap_eq_of_wraps {type inner : Text} (h : Wraps type inner) : unwrap type = inner := by
  obtain ⟨q, hq, content, hargs, rfl⟩ := h
  obtain ⟨r, hr, hcontent⟩ := Option.bind_eq_some_iff.mp hargs
  rw [afterPrefix?_eq_some_iff] at hr
  have hoptional : unwrapOptional (q ++ r) = trim content := by
    simp [unwrapOptional, getD_afterPrefix?_optionalName hq, argumentsOf?, hcontent]
  rw [unwrap, hr]
  simp only [optionalNames, List.mem_cons, List.not_mem_nil, or_false] at hq
  rcases hq with rfl | rfl <;> exact hoptional

/-- An argument in angle brackets starts with one, gaps apart. -/
lemma head?_of_angleContent? {s content : Text} (h : angleContent? s = some content) :
    (skipGaps s).head? = some (ascii '<') := by
  unfold angleContent? at h
  split at h
  · next opening rest hs =>
    split at h
    · next hopen => rw [hs, hopen.1]; rfl
    · simp at h
  · simp at h

/-- An optional wrapper as it is written: one of the names, white space, and an angle bracket. -/
lemma exists_of_wraps {type inner : Text} (hstart : leadingWidth spaces type = 0)
    (h : Wraps type inner) :
    ∃ q ∈ optionalNames, ∃ w rest, type = q ++ (w ++ ascii '<' :: rest) ∧ trimStart w = [] := by
  obtain ⟨q, hq, content, hargs, -⟩ := h
  obtain ⟨u, hu, hcontent⟩ := Option.bind_eq_some_iff.mp hargs
  rw [afterPrefix?_eq_some_iff, collapse_eq_collapsedTail hstart] at hu
  have hink : ∀ p ∈ optionalNames, p.all isInk := by decide
  obtain ⟨t, rfl, rfl⟩ := exists_of_collapsedTail (hink q hq) hu
  have hopen := head?_trimStart_of_collapsedTail (head?_of_angleContent? hcontent)
  obtain ⟨w, hsplit, hblank⟩ := exists_append_trimStart t
  obtain ⟨rest, hrest⟩ := List.head?_eq_some_iff.mp hopen
  exact ⟨q, hq, w, rest, by rw [← hrest, ← hsplit], hblank⟩

/-! ### Schemas of wrapped types -/

/-- The expression of a type does not depend on the name that an error gives it, nor does it whether
the limit is passed. -/
lemma Resolver.expr_mapWithin_root (r : Resolver) (root root' : Text) (allowance : ℕ) (s : Text) :
    (r.mapWithin root allowance s).expr = (r.mapWithin root' allowance s).expr ∧
      (r.mapWithin root allowance s).halted = (r.mapWithin root' allowance s).halted := by
  induction allowance generalizing s with
  | zero => exact ⟨rfl, rfl⟩
  | succ allowance ih =>
    rw [mapWithin_succ, mapWithin_succ, iterate_array, iterate_array]
    suffices hparts :
        ((partsOf s).mapped r (r.mapWithin root allowance)).expr =
            ((partsOf s).mapped r (r.mapWithin root' allowance)).expr ∧
          ((partsOf s).mapped r (r.mapWithin root allowance)).halted =
            ((partsOf s).mapped r (r.mapWithin root' allowance)).halted by
      exact ⟨congrArg (·.arrays (pairsOf s)) hparts.1, hparts.2⟩
    cases partsOf s with
    | name s => exact ⟨rfl, rfl⟩
    | list member => exact ⟨congrArg Expr.array (ih member).1, (ih member).2⟩
    | map key value =>
      change (mapRecord key _ _).expr = (mapRecord key _ _).expr ∧
        (mapRecord key _ _).halted = (mapRecord key _ _).halted
      simp only [mapRecord, (ih key).1, (ih key).2, (ih value).1, (ih value).2]
      split_ifs <;> exact ⟨rfl, rfl⟩

/-- A type in an optional wrapper has the schema of the type inside, if this is in no wrapper. -/
lemma Resolver.expr_map_of_wraps (r : Resolver) (maxDepth : ℤ) {type inner : Text}
    (h : Wraps type inner) (hinner : unwrap inner = inner) :
    (r.map maxDepth type).expr = (r.map maxDepth inner).expr := by
  have hsame : unwrap type = unwrap inner := (unwrap_eq_of_wraps h).trans hinner.symm
  have hlevel : ∀ root n, r.mapWithin root (n + 1) type = r.mapWithin root (n + 1) inner := by
    intro root n
    simp only [mapWithin_succ, partsOf, pairsOf, hsame]
  rw [Resolver.map, Resolver.map, hlevel]
  exact (expr_mapWithin_root r _ _ _ inner).1

end Schema

open Schema

/-! ### The optionality of a field -/

namespace Declaration.Java

/-- What starts a type with bracket pairs, and holds no bracket, starts the type. -/
lemma prefix_of_prefix_arrayOf {p type : Text} {pairs : ℕ} (hp : ascii '[' ∉ p)
    (h : p <+: arrayOf type pairs) : p <+: type := by
  rcases List.prefix_or_prefix_of_prefix h (List.prefix_append type _) with hshort | ⟨x, rfl⟩
  · exact hshort
  · rw [arrayOf, List.prefix_append_right_inj] at h
    cases x with
    | nil => rw [List.append_nil]
    | cons b x =>
      cases pairs with
      | zero => simp at h
      | succ n =>
        rw [List.replicate_succ, List.flatMap_cons] at h
        have hb : b = ascii '[' := (List.cons_prefix_cons.mp h).1
        exact absurd (List.mem_append_right type List.mem_cons_self) (hb ▸ hp)

/-- A type starts with no white space, with or without bracket pairs. -/
lemma leadingWidth_arrayOf_trim (s : Text) (pairs : ℕ) :
    leadingWidth spaces (arrayOf (trim s) pairs) = 0 := by
  have hbracket : ∀ e ∈ spaces, ascii '[' ∉ e := by decide
  rcases leadingWidth_cases isCode_spaces (arrayOf (trim s) pairs) with
    ⟨hzero, -⟩ | ⟨e, he, t, hne, heq⟩
  · exact hzero
  · obtain ⟨u, hu⟩ := prefix_of_prefix_arrayOf (hbracket e he) ⟨t, heq.symm⟩
    have hwidth := leadingWidth_append isCode_spaces he u
    rw [hu, leadingWidth_trim] at hwidth
    exact absurd (List.length_eq_zero_iff.mp hwidth.symm) hne

/-- A name of the wrapper, gaps and an angle bracket make a type optional. -/
lemma isOptionalType_append {q w : Text} (hq : q ∈ optionalNames) (hw : w.all isGap)
    (rest : Text) : isOptionalType (q ++ (w ++ ascii '<' :: rest)) := by
  have hskip : skipGaps (w ++ ascii '<' :: rest) = ascii '<' :: rest := by
    rw [skipGaps, List.dropWhile_append_of_pos (by simpa using hw)]
    rfl
  simp [isOptionalType, getD_afterPrefix?_optionalName hq, hskip]

/-- A declared field whose type is an optional wrapper is optional, if no white space but gaps stands
before the argument of the wrapper. -/
lemma optional_of_mem_statementFields {s inner : Text} {f : Field} (hf : f ∈ statementFields s)
    (hwraps : Wraps f.type inner) :
    ∃ q ∈ optionalNames, ∃ w rest, f.type = q ++ (w ++ ascii '<' :: rest) ∧ trimStart w = [] ∧
      (w.all isGap → f.optional) := by
  obtain ⟨marks, type, name, pairs, -, ⟨u, rfl⟩, rfl⟩ := exists_of_mem_statementFields hf
  obtain ⟨q, hq, w, rest, htype, hblank⟩ :=
    exists_of_wraps (leadingWidth_arrayOf_trim u pairs) hwraps
  refine ⟨q, hq, w, rest, htype, hblank, fun hw => ?_⟩
  have hbracket : ascii '[' ∉ q ++ (w ++ [ascii '<']) := by
    have hname : ∀ p ∈ optionalNames, ascii '[' ∉ p := by decide
    simp only [List.mem_append, List.mem_singleton, not_or]
    refine ⟨hname q hq, fun hmem => ?_, by decide⟩
    exact absurd (List.all_eq_true.mp hw _ hmem) (by decide)
  have hprefix : q ++ (w ++ [ascii '<']) <+: arrayOf (trim u) pairs := by
    rw [show arrayOf (trim u) pairs = _ from htype]
    exact ⟨rest, by simp⟩
  obtain ⟨rest', hbase⟩ := prefix_of_prefix_arrayOf hbracket hprefix
  have hoptional : isOptionalType (trim u) := by
    have happend := isOptionalType_append hq hw rest'
    rwa [show q ++ (w ++ ascii '<' :: rest') = trim u by rw [← hbase]; simp] at happend
  simp [Field.declare, hoptional]

end Declaration.Java

/-- A field whose type is an optional wrapper.  In the Java dialect it is optional if no white space
but gaps stands before the argument of the wrapper; in any dialect, if it is optional, it is written
as a text that does not end in the call that makes it optional, followed by one such call.  This text
is the refined schema of the wrapped type, if the wrapped type is in no wrapper itself and its
refined schema holds no run of calls. -/
theorem optional_of_wraps (o : Options) (source : Text) {c : ClassDecl} {f : Field} {inner : Text}
    (hc : c ∈ (analyze o.dialect source).classes) (hf : f ∈ c.fields)
    (hwraps : Wraps f.type inner) :
    let layout := o.effectiveLayout
    let a := analyze o.dialect source
    (a.dialect ≠ .kotlin →
      ∃ q ∈ optionalNames, ∃ w rest, f.type = q ++ (w ++ ascii '<' :: rest) ∧ trimStart w = [] ∧
        (w.all isGap → f.optional)) ∧
    (f.optional →
      ∃ body, fieldText f (mapField layout a.table c f).1 = body ++ optionalCall ∧
        ¬ optionalCall <:+ body ∧
        (unwrap inner = inner →
          let e := ((Resolver.mk a.table layout.overrides).map layout.maxDepth inner).expr
          let refined := refine e.text (some e.kind) f.constraints
          ¬ optionalRun <:+: refined → refined = body ∨ refined = body ++ optionalCall)) := by
  intro layout a
  constructor
  · intro hdialect
    obtain ⟨dialect, forced, hints, ha⟩ := exists_analyze_eq_ofText o.dialect source
    have hkeeps := dialect.keeps_classes
      (P := fun f => ∀ inner, Wraps f.type inner →
        ∃ q ∈ optionalNames, ∃ w rest, f.type = q ++ (w ++ ascii '<' :: rest) ∧
          trimStart w = [] ∧ (w.all isGap → f.optional))
      (fun _ _ _ hmem inner => Declaration.Java.optional_of_mem_statementFields hmem)
      (fun hkotlin => absurd hkotlin (by simpa [a, ha, Analysis.ofText] using hdialect))
      (Source.normalize source) c (by simpa [ha, Analysis.ofText] using hc)
    exact hkeeps.fields f hf inner hwraps
  · intro hoptional
    obtain ⟨body, hbody, hend, hsame⟩ := exists_makeOptional_eq
      (refine (mapField layout a.table c f).1.text (some (mapField layout a.table c f).1.kind)
        f.constraints)
    refine ⟨body, ?_, hend, fun hinner => ?_⟩
    · simp only [fieldText, hoptional, Bool.true_or, if_true, hbody]
    · have hexpr := Resolver.expr_map_of_wraps (Resolver.mk a.table layout.overrides)
        layout.maxDepth hwraps hinner
      simp only [mapField, hexpr] at hsame
      exact hsame

/-- A refined schema in a qualified wrapper, with a gap before the argument of the wrapper. -/
theorem optional_of_wraps_qualified :
    (let a := analyze .auto "class A \x7b @Size(max = 3) java.util.Optional <String> x; \x7d"
     let f := Field.declare "x" "java.util.Optional <String>" true (.ofJava "@Size(max = 3) ")
     let c : ClassDecl := ⟨"A", [f]⟩
     c ∈ a.classes ∧ Wraps f.type "String" ∧
       fieldText f (mapField {} a.table c f).1 = utf8 "z.string().max(3).optional()" ∧
       ∃ body, fieldText f (mapField {} a.table c f).1 = body ++ optionalCall ∧
         ¬ optionalCall <:+ body) := by
  have hmem : (⟨"A", [Field.declare "x" "java.util.Optional <String>" true
      (.ofJava "@Size(max = 3) ")]⟩ : ClassDecl) ∈
      (analyze .auto "class A \x7b @Size(max = 3) java.util.Optional <String> x; \x7d").classes := by
    decide +kernel
  have hwraps : Wraps "java.util.Optional <String>" "String" :=
    ⟨"java.util.Optional", by decide, "String", by decide +kernel, by decide +kernel⟩
  obtain ⟨body, hbody, hend, -⟩ :=
    (optional_of_wraps {} _ hmem List.mem_cons_self hwraps).2 rfl
  exact ⟨hmem, hwraps, by decide +kernel, body, hbody, hend⟩

/-- A property in the Kotlin dialect is not made optional by the wrapper, and neither is a Java field
with a vertical tab before the argument of the wrapper: in both the wrapper is removed, and the value
is required. -/
theorem wraps_required :
    (let code : Text :=
       "import \x7b z \x7d from 'zod'\n\n// A\nexport const ASchema = z.object(\x7b\n" ++
         "  x: z.string()\n\x7d)\nexport type A = z.infer<typeof ASchema>\n"
     convert {} "data class A(val x: Optional<String>)" = ⟨code, []⟩ ∧
       convert {} "class A \x7b Optional\x0b<String> x; \x7d" = ⟨code, []⟩) ∧
    Wraps "Optional<String>" "String" ∧ Wraps "Optional\x0b<String>" "String" := by
  refine ⟨by decide +kernel, ?_, ?_⟩ <;>
    exact ⟨"Optional", by decide, "String", by decide +kernel, by decide +kernel⟩

end DtoSchema
