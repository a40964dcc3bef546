import DtoSchema.Conversion
import DtoSchema.Proofs.Declaration.Names
import DtoSchema.Proofs.Schema.Parts
import DtoSchema.Proofs.Text.Trimming

/-!
# References in the code

A field may refer to the schema of a declared enumeration, which is evaluated where it stands, or to
that of a declared class, which is evaluated later.  `Derives` is the grammar of the expressions of
fields; what may be referred to directly and what lazily are its parameters.

Without overrides every type is mapped to an expression of this grammar
(`Resolver.refersTo_mapWithin`), and the code holds the blocks of all enumerations in front of those
of all classes (`exists_codeOf_eq`).  So a reference is never evaluated before its declaration,
whatever the declarations of a source refer to.
-/

namespace DtoSchema.Schema

open Text Source

/-! ### The grammar of expressions -/

/-- The text is an expression whose outermost constructor is of the given kind.  It refers directly
to the schemas of names in `direct` only, and lazily to those of names in `deferred` only. -/
inductive Derives (direct deferred : Text → Prop) : Text → Kind → Prop
  /-- A text. -/
  | string : Derives direct deferred "z.string()" .string
  /-- A text of one character. -/
  | character : Derives direct deferred "z.string().length(1)" .string
  /-- A number. -/
  | number : Derives direct deferred "z.number()" .number
  /-- A whole number. -/
  | integer : Derives direct deferred "z.number().int()" .number
  /-- A truth value. -/
  | boolean : Derives direct deferred "z.boolean()" .boolean
  /-- Anything. -/
  | unknown : Derives direct deferred "z.unknown()" .unknown
  /-- An array. -/
  | array {e : Text} {k : Kind} :
      Derives direct deferred e k → Derives direct deferred ("z.array(" ++ e ++ ")") .array
  /-- A record with text keys. -/
  | record {e : Text} {k : Kind} : Derives direct deferred e k →
      Derives direct deferred ("z.record(z.string(), " ++ e ++ ")") .record
  /-- A reference to an enumeration. -/
  | enumRef {n : Text} :
      isIdent n → direct n → Derives direct deferred (n ++ "Schema") .enum
  /-- A reference to a class. -/
  | classRef {n : Text} : isIdent n → deferred n →
      Derives direct deferred ("z.lazy(() => " ++ n ++ "Schema)") .lazy

/-! ### Expressions of types -/

namespace Expr

/-- The expression refers to enumerations in `direct` and to classes in `deferred` only, and nothing
in it was given as a text. -/
def RefersTo (direct deferred : Text → Prop) : Expr → Prop
  | array member => member.RefersTo direct deferred
  | record value => value.RefersTo direct deferred
  | enumRef name => direct name
  | classRef name => deferred name
  | verbatim _ => False
  | _ => True

/-- More names may be referred to by an expression. -/
lemma RefersTo.mono {direct deferred direct' deferred' : Text → Prop} {e : Expr}
    (h : e.RefersTo direct deferred) (hdirect : ∀ n, direct n → direct' n)
    (hdeferred : ∀ n, deferred n → deferred' n) : e.RefersTo direct' deferred' := by
  induction e with
  | array member ih => exact ih h
  | record value ih => exact ih h
  | enumRef name => exact hdirect name h
  | classRef name => exact hdeferred name h
  | verbatim text => exact h
  | _ => trivial

/-- The text of an expression is derivable, with the kind of the expression. -/
lemma RefersTo.derives {direct deferred : Text → Prop} {e : Expr} (h : e.RefersTo direct deferred)
    (hdirect : ∀ n, direct n → isIdent n) (hdeferred : ∀ n, deferred n → isIdent n) :
    Derives direct deferred e.text e.kind := by
  induction e with
  | unknown => exact .unknown
  | string => exact .string
  | character => exact .character
  | number => exact .number
  | integer => exact .integer
  | boolean => exact .boolean
  | array member ih => exact .array (ih h)
  | record value ih => exact .record (ih h)
  | enumRef name => exact .enumRef (hdirect name h) h
  | classRef name => exact .classRef (hdeferred name h) h
  | verbatim text => exact h.elim

end Expr

/-- The built-in types refer to nothing. -/
lemma refersTo_scalars {direct deferred : Text → Prop} :
    ∀ p ∈ scalars, p.2.RefersTo direct deferred := by
  simp [scalars, Expr.RefersTo]

/-- Without overrides every type is mapped to an expression that refers to declared names only. -/
theorem Resolver.refersTo_mapWithin {r : Resolver} (h : r.overrides = []) (root : Text)
    (allowance : ℕ) (s : Text) :
    (r.mapWithin root allowance s).expr.RefersTo (· ∈ r.table.enums) (· ∈ r.table.classes) := by
  let P : Mapped → Prop := fun m => m.expr.RefersTo (· ∈ r.table.enums) (· ∈ r.table.classes)
  refine mapWithin_induction (P := P) trivial ?_ (fun _ hm => hm) ?_ allowance s
  · refine leaf_induction r (P := P) ?_ ?_ refersTo_scalars trivial ?_ (fun _ _ => trivial)
    · intro name hname
      simpa [SymbolTable.hasEnum, P, Expr.RefersTo] using hname
    · intro name text hmem
      simp [h] at hmem
    · intro name hname
      simpa [SymbolTable.hasClass, P, Expr.RefersTo] using hname
  · intro text key value _ hvalue
    -- whatever becomes of the key, the value of the record is anything or that of the type
    unfold mapRecord
    split
    · trivial
    · split
      · exact hvalue
      · split <;> trivial

/-! ### The order of the code -/

/-- Behind the texts in front of it, and in front of those behind it, a joined text is found. -/
lemma exists_join_eq (sep : Text) (before : List Text) (t : Text) (after : List Text) :
    ∃ head tail, join sep (before ++ t :: after) = head ++ t ++ tail ∧
      ∀ u ∈ before, u <:+: head := by
  induction before with
  | nil =>
    cases after with
    | nil => exact ⟨[], [], by simp [join], by simp⟩
    | cons u after => exact ⟨[], sep ++ join sep (u :: after), by simp [join_cons_cons], by simp⟩
  | cons v before ih =>
    obtain ⟨head, tail, heq, hbefore⟩ := ih
    have hjoin : join sep (v :: (before ++ t :: after)) =
        v ++ sep ++ join sep (before ++ t :: after) := by
      cases before with
      | nil => exact join_cons_cons sep v t after
      | cons w before => exact join_cons_cons sep v w (before ++ t :: after)
    refine ⟨v ++ sep ++ head, tail, by simp [hjoin, heq], ?_⟩
    intro u hu
    rcases List.mem_cons.mp hu with rfl | hmem
    · exact ⟨[], sep ++ head, by simp⟩
    · exact (hbefore u hmem).trans (List.suffix_append _ _).isInfix

/-- The code holds the block of a class behind the blocks of all enumerations. -/
lemma exists_codeOf_eq (layout : Layout) (table : SymbolTable) (enums : List EnumDecl)
    {classes : List ClassDecl} {c : ClassDecl} (hc : c ∈ classes) :
    ∃ head tail,
      generate layout table enums classes =
        head ++ blockText layout (classBlock layout table c) ++ tail ∧
      ∀ e ∈ enums, blockText layout (enumBlock e) <:+: head := by
  obtain ⟨before, after, rfl⟩ := List.append_of_mem hc
  generalize hheader : (if layout.header.isEmpty then [] else [layout.header ++ "\n"]) = header
  obtain ⟨head, tail, heq, hbefore⟩ := exists_join_eq "\n"
    (header ++ (enums.map enumBlock ++ before.map (classBlock layout table)).map (blockText layout))
    (blockText layout (classBlock layout table c))
    ((after.map (classBlock layout table)).map (blockText layout))
  refine ⟨head, tail, ?_, fun e he => hbefore _ ?_⟩
  · rw [← heq, generate, codeOf, hheader, blocks]
    simp
  · simp only [List.mem_append, List.mem_map]
    exact Or.inr ⟨enumBlock e, Or.inl ⟨e, he, rfl⟩, rfl⟩

end DtoSchema.Schema

namespace DtoSchema

open Text Source Schema

/-- The names of a source are identifiers. -/
lemma isIdent_of_analyze (choice : Dialect.Choice) (source : Text) :
    (∀ e ∈ (analyze choice source).enums, isIdent e.name) ∧
      ∀ c ∈ (analyze choice source).classes, isIdent c.name := by
  unfold analyze
  cases choice.forced? with
  | some dialect =>
    exact ⟨fun _ h => dialect.isIdent_of_mem_enums h, fun _ h => dialect.isIdent_of_mem_classes h⟩
  | none =>
    exact ⟨fun _ h => Dialect.isIdent_of_mem_enums _ h,
      fun _ h => Dialect.isIdent_of_mem_classes _ h⟩

/-- The table of a source holds the names that it declares. -/
lemma table_analyze (choice : Dialect.Choice) (source : Text) :
    (analyze choice source).table =
      .ofDecls (analyze choice source).classes (analyze choice source).enums := by
  unfold analyze
  cases choice.forced? <;> rfl

end DtoSchema
