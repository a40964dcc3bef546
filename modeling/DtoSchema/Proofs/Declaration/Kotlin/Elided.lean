import DtoSchema.Proofs.Declaration.ElidedHeaders
import DtoSchema.Declaration.Kotlin

/-!
# Fields of the Kotlin dialect in texts with emptied strings

The parameters and the body of a class and of its elision declare the same properties
(`parameterFields_elides`, `bodyFields_elides`).

Blocks in a body are blanked before it is cut into statements, so runs of spaces of different lengths
stand in a body and in its elision.  They stand behind braces only, and a declared type ends before a
brace; so the types are the same nevertheless (`typeSpan_elides`).
-/

namespace DtoSchema.Declaration.Kotlin

open Text Source

variable {ok : Text → Bool} {m : Spacing} {s r : Text}

/-! ### The end of a declared type -/

lemma delegateAt_eq (s : Text) : delegateAt s =
    (s.head?.any isGap && (afterPrefix? "by" (skipGaps s)).any (·.head?.any isGap)) := by
  cases h : afterPrefix? "by" (skipGaps s) <;> simp [delegateAt, h]

lemma accessorAt_eq (name : Text) (prev : Option UInt8) (s : Text) : accessorAt name prev s =
    (atBoundary prev s &&
      (afterPrefix? name s).any fun u => (skipGaps u).head? == some (ascii '(')) := by
  cases h : afterPrefix? name s <;> simp [accessorAt, h]

lemma typeEndsAt_elides (h : Elides ok m s r) (prev : Option UInt8) :
    typeEndsAt prev s = typeEndsAt prev r := by
  have hdelegate : delegateAt s = delegateAt r := by
    rw [delegateAt_eq, delegateAt_eq, h.head?_eq]
    congr 1
    exact any_eq_of_rel (h.skipGaps.afterPrefix? (by decide)) fun _ _ h => by rw [h.head?_eq]
  have haccessor : ∀ name, Elides.isSteady name → accessorAt name prev s = accessorAt name prev r := by
    intro name hname
    rw [accessorAt_eq, accessorAt_eq, atBoundary, atBoundary, h.head?_eq]
    congr 1
    exact any_eq_of_rel (h.afterPrefix? hname) fun _ _ h => by rw [h.skipGaps.head?_eq]
  rw [typeEndsAt, typeEndsAt, hdelegate, h.head?_eq, haccessor "get" (by decide),
    haccessor "set" (by decide)]

/-- There is no delegate in a string that holds prose. -/
lemma delegateAt_string {c t : Text} {prev : Option UInt8}
    (hby : Skips "by" prev c (ascii '"' :: t)) (hne : c ≠ []) :
    delegateAt (c ++ ascii '"' :: t) = false := by
  have hquote : isGap (ascii '"') = false := by decide
  induction c generalizing prev with
  | nil => exact absurd rfl hne
  | cons b c ih =>
    by_cases hb : isGap b
    · -- what follows the gap is the closing quote, another gap or a byte where no keyword stands
      have hskip : skipGaps (b :: (c ++ ascii '"' :: t)) = skipGaps (c ++ ascii '"' :: t) := by
        simp [skipGaps, hb]
      rw [List.cons_append, delegateAt_eq, hskip, List.head?_cons, Option.any_some, hb, Bool.true_and]
      cases c with
      | nil =>
        have hstay : skipGaps (ascii '"' :: t) = ascii '"' :: t := by simp [skipGaps, hquote]
        rw [List.nil_append, hstay]
        rfl
      | cons d c =>
        have hrest := ih hby.2 (by simp)
        rw [delegateAt_eq, List.cons_append, List.head?_cons, Option.any_some] at hrest
        by_cases hd : isGap d
        · rwa [hd, Bool.true_and] at hrest
        · have hstay : skipGaps (d :: (c ++ ascii '"' :: t)) = d :: (c ++ ascii '"' :: t) := by
            simp [skipGaps, hd]
          have hkeyword := hby.2.1
          rw [keywordAt, Option.any_some, isWord_of_isGap hb, Bool.not_false, Bool.true_and]
            at hkeyword
          rwa [List.cons_append, hstay]
    · rw [List.cons_append, delegateAt_eq]
      simp [hb]

/-- There is no accessor in a string. -/
lemma accessorAt_string {name : Text} (hname : ascii '"' ∉ name) {c : Text} (hc : c.all isInert)
    (prev : Option UInt8) (t : Text) : accessorAt name prev (c ++ ascii '"' :: t) = false := by
  rw [accessorAt_eq]
  cases h : afterPrefix? name (c ++ ascii '"' :: t) with
  | none => simp
  | some u =>
    rw [afterPrefix?_eq_some_iff] at h
    -- the name ends before the closing quote
    obtain ⟨d, rfl, rfl⟩ : ∃ d, c = name ++ d ∧ u = d ++ ascii '"' :: t := by
      rcases List.append_eq_append_iff.mp h with ⟨e, hname', he⟩ | ⟨d, hc', hu⟩
      · cases e with
        | nil => exact ⟨[], by simpa using hname'.symm, by simpa using he.symm⟩
        | cons b e =>
          obtain ⟨rfl, -⟩ := List.cons.inj he
          simp [hname'] at hname
      · exact ⟨d, hc', hu⟩
    rw [List.all_append, Bool.and_eq_true] at hc
    simp [head?_skipGaps_string hc.2 t]

/-- A declared type does not end in a string. -/
lemma typeSpan_string {c : Text} (hc : c.all isInert) {prev : Option UInt8} {t : Text}
    (hby : Skips "by" prev c (ascii '"' :: t)) :
    typeSpan prev (c ++ ascii '"' :: t) = c ++ ascii '"' :: typeSpan (some (ascii '"')) t := by
  induction c generalizing prev with
  | nil =>
    have hends : typeEndsAt prev (ascii '"' :: t) = false := by
      have haccessor : ∀ name : Text, ascii '"' ∉ name →
          accessorAt name prev (ascii '"' :: t) = false := fun name hname =>
        accessorAt_string hname (c := []) rfl prev t
      have hgap : isGap (ascii '"') = false := by decide
      have hbrace : ascii '"' ≠ ascii '\x7b' := by decide
      rw [typeEndsAt, haccessor "get" (by decide), haccessor "set" (by decide), delegateAt_eq]
      simp [hgap, hbrace]
    rw [List.nil_append, typeSpan, hends, if_neg (by simp), List.nil_append]
  | cons b c ih =>
    have hends : typeEndsAt prev (b :: c ++ ascii '"' :: t) = false := by
      have hbrace : b ≠ ascii '\x7b' := by
        rintro rfl
        simp only [List.all_cons, Bool.and_eq_true] at hc
        exact absurd hc.1 (by decide)
      rw [typeEndsAt, delegateAt_string hby (by simp), accessorAt_string (by decide) hc,
        accessorAt_string (by decide) hc]
      simpa using hbrace
    simp only [List.all_cons, Bool.and_eq_true] at hc
    rw [List.cons_append] at hends ⊢
    rw [typeSpan, hends, if_neg (by simp), ih hc.2 hby.2, List.cons_append]

/-- The declared types at the starts of a text and its elision.  They end before a brace, so no run
of spaces in them is shortened. -/
theorem typeSpan_elides (h : Elides isProse .outside s r) (prev : Option UInt8) :
    Elides isProse .kept (typeSpan prev s) (typeSpan prev r) := by
  generalize hm : Spacing.outside = m at h
  induction h generalizing prev with
  | nil => exact .nil
  | @byte m b s r h ih =>
    subst hm
    have hends := typeEndsAt_elides (.byte b h) prev
    rw [typeSpan, typeSpan, ← hends]
    split
    · exact .nil
    · next hgo =>
      have hb : b ≠ ascii '\x7b' := by
        rintro rfl
        simp [typeEndsAt] at hgo
      exact .byte b (ih (some b) (if_neg hb).symm)
  | @string m c s r hc hok _ ih =>
    subst hm
    have hspan : ∀ {c : Text}, isProse c → c.all isInert → ∀ t : Text,
        typeSpan prev (ascii '"' :: (c ++ ascii '"' :: t)) =
          ascii '"' :: (c ++ ascii '"' :: typeSpan (some (ascii '"')) t) := by
      intro c hok hc t
      have hquote : typeSpan prev (ascii '"' :: (c ++ ascii '"' :: t)) =
          ascii '"' :: typeSpan (some (ascii '"')) (c ++ ascii '"' :: t) :=
        typeSpan_string (c := []) rfl trivial
      have hby : Skips "by" (some (ascii '"')) c (ascii '"' :: t) :=
        skips_of_isProse (by decide) (by decide) (by decide) (.of_isProse hok) hc _
          (show isWord (ascii '"') = false by decide)
      rw [hquote, typeSpan_string hc hby]
    have hempty := hspan (c := []) rfl rfl r
    simp only [List.nil_append] at hempty
    rw [hspan hok hc, hempty]
    exact .string hc hok (ih _ rfl)
  | blanks => simp at hm

lemma typeText_elides (h : Elides isProse .outside s r) :
    Elides isProse .kept (typeText s) (typeText r) :=
  (typeSpan_elides (h.beforeTopLevel (by decide)) none).trim

/-! ### Properties -/

lemma head?_trim (s : Text) : (trim s).head?.any isGap = false := by
  have hhead := head?_trimStart s
  rw [trim]
  cases hs : trimStart s with
  | nil => rfl
  | cons b t =>
    rw [hs] at hhead
    rw [trimEnd_cons]
    split
    · rfl
    · exact hhead

/-- The texts behind the identifiers at the starts of a text and its elision. -/
lemma drop_leadingIdent_elides (h : Elides ok m s r) (hs : s.head?.any isGap = false) :
    Elides ok m.most (s.drop (leadingIdent s).length) (r.drop (leadingIdent r).length) := by
  have hstay : skipGaps s = s := by
    cases s with
    | nil => rfl
    | cons b s => simpa [skipGaps] using hs
  rw [← h.leadingIdent_eq, leadingIdent, hstay]
  obtain ⟨t, ht, hword⟩ := exists_identAt s
  generalize identAt s = w at ht hword
  subst ht
  obtain ⟨u, rfl, h'⟩ := h.of_append (isSteady_of_isIdentPart hword)
  rw [List.drop_left, List.drop_left]
  simpa [Elides.most_foldl] using h'.most

lemma modifiers_nil : ([] : Text) ∉ modifiers := by decide

/-- A type and its elision end in a question mark, or they end in the same other byte. -/
lemma nullMark_cases (h : Elides ok .kept s r) :
    (s.reverse = [] ∧ r.reverse = []) ∨
      (∃ base base', s.reverse = ascii '?' :: base ∧ r.reverse = ascii '?' :: base' ∧
        Elides ok .kept base.reverse base'.reverse) ∨
      ∃ b base base', b ≠ ascii '?' ∧ s.reverse = b :: base ∧ r.reverse = b :: base' := by
  have hrev := h.reverse
  have hhead := hrev.head?_eq
  rcases hs : s.reverse with _ | ⟨b, base⟩ <;> rcases hr : r.reverse with _ | ⟨c, base'⟩ <;>
    rw [hs, hr] at hhead hrev
  · exact Or.inl ⟨rfl, rfl⟩
  · simp at hhead
  · simp at hhead
  · obtain rfl : b = c := by simpa using hhead
    by_cases hb : b = ascii '?'
    · subst hb
      have hbase := hrev.tail (c := ascii '?') rfl (by decide)
      exact Or.inr (Or.inl ⟨base, base', rfl, rfl, Elides.of_reverse (by simpa using hbase)⟩)
    · exact Or.inr (Or.inr ⟨b, base, base', hb, rfl, rfl⟩)

/-- A text and its elision declare the same property. -/
theorem property?_elides (h : Elides isProse .outside s r) :
    Option.Rel SameField (property? s) (property? r) := by
  have hmarks : Option.Rel _ (leadingMarks? spaces (· ∈ modifiers) (trimEnd s))
      (leadingMarks? spaces (· ∈ modifiers) (trimEnd r)) :=
    leadingMarks?_elides Elides.areSpaces_spaces (by simpa using modifiers_nil) h.trimEnd
  unfold property?
  refine rel_bind hmarks ?_
  rintro ⟨marks, s⟩ ⟨marks', r⟩ ⟨hmark, hrest, hwidth⟩
  have hgap : s.head?.any isGap = false := by
    cases s with
    | nil => rfl
    | cons b s =>
      by_contra hb
      rw [leadingWidth_spaces_gap (by simpa using hb)] at hwidth
      simp at hwidth
  have hname := (drop_leadingIdent_elides hrest hgap).trim
  simp only [hrest.leadingIdent_eq] at hname ⊢
  refine rel_bind (rel_of_eq rfl) fun _ _ _ => ?_
  have hcolon := (drop_leadingIdent_elides hname (head?_trim _)).trim
  simp only [hname.leadingIdent_eq] at hcolon ⊢
  refine rel_bind (rel_of_eq rfl) fun _ _ _ => ?_
  have hafter := hcolon.afterPrefix? (p := utf8 ":") (by decide)
  refine rel_bind hafter fun type type' htype => ?_
  have htype := typeText_elides htype
  generalize typeText type = type at htype ⊢
  generalize typeText type' = type' at htype ⊢
  simp only [ne_eq, htype.eq_nil_iff]
  refine rel_bind (rel_of_eq rfl) fun _ _ _ => ?_
  rcases nullMark_cases htype with ⟨hs, hr⟩ | ⟨base, base', hs, hr, hbase⟩ |
    ⟨b, base, base', hb, hs, hr⟩
  · simp only [hs, hr]
    exact .none
  · simp only [hs, hr, if_true]
    exact .some ⟨rfl, hbase.trim, rfl⟩
  · simp only [hs, hr, if_neg hb]
    exact .some ⟨rfl, htype, nullable_ofKotlin hmark⟩

/-- The parameters of a constructor and of its elision declare the same properties. -/
theorem parameterFields_elides (h : Elides isProse .kept s r) :
    List.Forall₂ SameField (parameterFields s) (parameterFields r) := by
  have hparts := h.splitTopLevel (show isInert (ascii ',') = false by decide)
  exact List.rel_filterMap (fun _ _ h => property?_elides h.of_kept) hparts

/-! ### Statements -/

lemma statements_elides (h : Elides ok m s r) :
    List.Forall₂ (Elides ok m.most) (statements s) (statements r) := by
  have hignores : Ignores .parens fun b => b == ascii '\n' || b == ascii ';' :=
    .of_marks [ascii '\n', ascii ';'] (by simp) (by decide) (by decide)
  exact Elides.dropEmptyEnd (h.segments hignores rfl).forall₂

/-- Corresponding statements behind corresponding annotations declare the same properties. -/
theorem propertiesFrom_elides {ss rs : List Text} (h : List.Forall₂ (Elides isProse .inside) ss rs)
    {pending pending' : Text} (hpending : Elides isProse .outside pending pending') :
    List.Forall₂ SameField (propertiesFrom pending ss) (propertiesFrom pending' rs) := by
  induction h generalizing pending pending' with
  | nil => exact .nil
  | @cons s r ss rs h _ ih =>
    have htrim : Elides isProse .outside (trim s) (trim r) := h.trim
    simp only [propertiesFrom, htrim.isEmpty_eq, (afterLeading_elides htrim).isEmpty_eq]
    split
    · exact ih hpending
    · split
      · exact ih ((hpending.append htrim).append (.refl _))
      · refine List.rel_append ?_ (ih .nil)
        rcases rel_cases (property?_elides (hpending.append htrim)) with ⟨hs, hr⟩ |
          ⟨f, g, hs, hr, hfield⟩
        · rw [hs, hr]
          exact .nil
        · rw [hs, hr]
          exact .cons hfield .nil

/-- A class body and its elision declare the same properties. -/
theorem bodyFields_elides (h : Elides isProse .kept s r) :
    List.Forall₂ SameField (bodyFields s) (bodyFields r) :=
  propertiesFrom_elides (statements_elides h.blankNested) .nil

/-! ### Constructors -/

lemma afterTypeParameters?_elides (h : Elides ok .kept s r) :
    Option.Rel (Elides ok .kept) (afterTypeParameters? s) (afterTypeParameters? r) := by
  have hskip := h.skipGaps
  rw [Spacing.most_kept] at hskip
  have hhead := hskip.head?_eq
  unfold afterTypeParameters?
  rcases hs : skipGaps s with _ | ⟨b, s'⟩ <;> rcases hr : skipGaps r with _ | ⟨c, r'⟩ <;>
    rw [hs, hr] at hhead hskip
  · exact .some .nil
  · simp at hhead
  · simp at hhead
  · obtain rfl : b = c := by simpa using hhead
    by_cases hb : b = ascii '<'
    · subst hb
      simp only [if_true]
      exact rel_map hskip.angles fun _ _ hcut => hcut.rest
    · simp only [if_neg hb]
      exact .some hskip

/-- The parameters of the primary constructors of a class and its elision. -/
theorem primaryConstructor?_elides (h : Elides ok .kept s r) :
    Option.Rel (Elides.Cut ok .kept) (primaryConstructor? s) (primaryConstructor? r) := by
  unfold primaryConstructor?
  refine rel_bind (afterTypeParameters?_elides h) fun s r h => ?_
  have hmarks : Option.Rel _
      (leadingMarks? gaps (fun w => w ∈ modifiers || w == utf8 "constructor") s)
      (leadingMarks? gaps (fun w => w ∈ modifiers || w == utf8 "constructor") r) :=
    leadingMarks?_elides (by decide) (by simp [modifiers_nil]; decide) h
  refine rel_bind hmarks ?_
  rintro ⟨marks, s⟩ ⟨marks', r⟩ ⟨-, hrest, -⟩
  exact hrest.parens

/-! ### Classes -/

/-- The class that a header introduces, with all properties that are declared in it. -/
def declaredAt? (o : Occurrence Text) : Option ClassDecl :=
  let word := wordBefore o.before
  if isMember o.before || word == utf8 "enum" || word == utf8 "annotation" then none
  else
    let (params, rest) := (primaryConstructor? o.after).getD ([], o.after)
    some ⟨o.value, parameterFields params ++ ((body? rest).map bodyFields).getD []⟩

/-- The classes of a source as they are declared, before properties are chosen and classes merged. -/
def declared (s : Text) : List ClassDecl := (occurrences classHeader? s).filterMap declaredAt?

lemma classes_eq_coalesce (s : Text) :
    classes s = coalesce ((declared s).map fun c => ⟨c.name, dedupFields c.fields⟩) := by
  have hat : ∀ o : Occurrence Text,
      classAt? o = (declaredAt? o).map fun c => ⟨c.name, dedupFields c.fields⟩ := by
    intro o
    simp only [classAt?, declaredAt?]
    split <;> rfl
  rw [classes, declared, List.map_filterMap, funext hat]

lemma isRegular_classHeader? : IsRegular classHeader? :=
  isRegular_header? (by decide) (by decide) (by decide) (by decide) (by decide) (by decide)

/-- A text and its elision declare the same classes. -/
theorem declared_elides (h : Elides isProse .kept s r) :
    List.Forall₂ (ClassDecl.Related (List.Forall₂ SameField)) (declared s) (declared r) := by
  refine List.rel_filterMap (R := SamePlace isProse) ?_ (occurrences_elides isRegular_classHeader? h)
  intro o p hplace
  unfold declaredAt?
  rw [isMember_elides hplace.before, wordBefore_elides hplace.before]
  have hcut : Elides.Cut isProse .kept ((primaryConstructor? o.after).getD ([], o.after))
      ((primaryConstructor? p.after).getD ([], p.after)) := by
    rcases rel_cases (primaryConstructor?_elides hplace.after) with ⟨hs, hr⟩ | ⟨x, y, hs, hr, hxy⟩
    · rw [hs, hr]
      exact ⟨.nil, hplace.after⟩
    · rw [hs, hr]
      exact hxy
  have hmembers : List.Forall₂ SameField
      (((body? ((primaryConstructor? o.after).getD ([], o.after)).2).map bodyFields).getD [])
      (((body? ((primaryConstructor? p.after).getD ([], p.after)).2).map bodyFields).getD []) := by
    rcases rel_cases (body?_elides hcut.rest) with ⟨hs, hr⟩ | ⟨x, y, hs, hr, hxy⟩
    · rw [hs, hr]
      exact .nil
    · rw [hs, hr]
      exact bodyFields_elides hxy
  simp only
  split
  · exact .none
  · exact .some ⟨hplace.value, List.rel_append (parameterFields_elides hcut.first) hmembers⟩

end DtoSchema.Declaration.Kotlin
