import DtoSchema.Proofs.Cut.Scan
import DtoSchema.Proofs.Declaration.Java.Elided
import DtoSchema.Proofs.Declaration.Kotlin.PropertyTail

/-!
# Classes by checked cuts

In both dialects a class body is cut into statements, and a statement into annotations, modifiers,
types and names.  The statements of the Java dialect come from a loop that remembers where the
statement begun starts, and cuts it off at a semicolon.  In the Kotlin dialect the words of a
property are passed one by one, and the parameters of the constructor stand behind the type
parameters, annotations and modifiers that follow the name of the class.
-/

namespace DtoSchema.Cut

open Text Source Declaration

/-- The text before the first top level `target`, which is all of it when there is none. -/
def beforeTopLevel (target : UInt8) (s : Text) : Checked Text :=
  match topLevelIndex? target s with
  | some i => first i s
  | none => return s

lemma beforeTopLevel_eq (target : UInt8) (s : Text) :
    beforeTopLevel target s = .ok (Source.beforeTopLevel target s) := by
  rw [beforeTopLevel, Source.beforeTopLevel]
  cases hindex : topLevelIndex? target s with
  | none => rfl
  | some i => exact first_eq (lt_length_of_topLevelFrom hindex).le

namespace Java

open Declaration.Java hiding statements dropInitializer splitPairs statementFields bodyFields
  classes

/-! ### Statements of a Java class -/

/-- The statements of a class body.  The loop holds those that have ended and the place where the
next one starts. -/
def statements (body : Text) : Checked (List Text) :=
  loop
    (fun s (p : List Text × Text) => do
      match s with
      | [] => return .stop p.1
      | b :: t =>
        if isQuote b then return .next (← advance (literalWidth (.inside b) t + 1) s) p
        else if b = ascii '(' then
          match ← readBlock b (ascii ')') s with
          | some (_, rest) => return .next rest p
          | none => return .next (← advance 1 s) p
        else if b = ascii '\x7b' then
          match ← readBlock b (ascii '\x7d') s with
          | some (_, rest) =>
            if (topLevelIndex? (ascii '=') (← upTo s p.2)).isSome then return .next rest p
            else return .next rest (p.1, rest)
          | none => return .stop p.1
        else if b = ascii ';' then
          let rest ← advance 1 s
          return .next rest (p.1 ++ [← upTo s p.2], rest)
        else return .next (← advance 1 s) p)
    body ([], body)

/-- The statements from a place on, if the one begun there starts at `start`. -/
def statementsAt (start s : Text) : List Text := scan (start.take (start.length - s.length)) s

lemma statementsAt_append (begun s : Text) : statementsAt (begun ++ s) s = scan begun s := by
  simp [statementsAt]

lemma statementsAt_self (s : Text) : statementsAt s s = scan [] s := statementsAt_append [] s

/-- A piece that belongs to the statement begun is passed. -/
lemma statementsAt_pass {begun s c r : Text} (hs : s = c ++ r)
    (h : scan begun s = scan (begun ++ c) r) :
    statementsAt (begun ++ s) r = statementsAt (begun ++ s) s := by
  rw [statementsAt_append, h, hs, ← List.append_assoc, statementsAt_append]

/-- What is left behind a piece is shorter, and a place of the same text. -/
lemma rest_of_piece (begun : Text) {s c r : Text} (hs : s = c ++ r) (hc : c ≠ []) :
    r.length < s.length ∧ r <:+ begun ++ s := by
  have hpos := List.length_pos_iff.mpr hc
  refine ⟨by rw [hs, List.length_append]; omega, begun ++ c, by rw [hs, List.append_assoc]⟩

lemma statements_eq (body : Text) : statements body = .ok (Declaration.Java.statements body) := by
  refine (loop_eq_ok (fun s p => s <:+ p.2) (fun s p => p.1 ++ statementsAt p.2 s) ?_
    List.suffix_rfl).trans (by rw [List.nil_append, statementsAt_self]; rfl)
  rintro s ⟨done, start⟩ ⟨begun, rfl⟩
  simp only [Keeps]
  -- the loop goes on behind a piece with the statement begun, and the piece belongs to it
  have hpass : ∀ {c r : Text}, s = c ++ r → c ≠ [] → scan begun s = scan (begun ++ c) r →
      ∃ rest later, (.ok (.next r (done, begun ++ s)) : Checked (Turn _ (List Text))) =
        .ok (.next rest later) ∧ rest.length < s.length ∧ rest <:+ later.2 ∧
        later.1 ++ statementsAt later.2 rest = done ++ statementsAt (begun ++ s) s := by
    intro c r hs hc hscan
    obtain ⟨hlt, hrest⟩ := rest_of_piece begun hs hc
    exact ⟨r, _, rfl, hlt, hrest, by rw [statementsAt_pass hs hscan]⟩
  cases s with
  | nil =>
    have hnone : statementsAt (begun ++ []) [] = [] := statementsAt_append begun []
    exact .inl (by rw [hnone]; simp)
  | cons b s =>
    simp only
    by_cases hquote : isQuote b
    · have hwidth := Nat.succ_le_succ (literalWidth_le (.inside b) s)
      have hscan := scanIn_quote hquote begun s
      rw [if_pos hquote, advance_eq hwidth]
      refine .inr (hpass (c := b :: s.take (literalWidth (.inside b) s)) ?_ (by simp) ?_)
      · simp
      · simpa [scanIn] using hscan
    rw [if_neg hquote]
    by_cases hopen : b = ascii '('
    · subst hopen
      rw [if_pos rfl, readBlock_eq, ok_bind]
      cases hread : readBalanced? (ascii '(') (ascii ')') (ascii '(' :: s) with
      | none => exact .inr (hpass (c := [ascii '(']) rfl (by simp) (scan_open hread begun))
      | some x =>
        refine .inr (hpass ?_ (List.cons_ne_nil _ _) (scan_group hread begun))
        simpa using eq_of_readBalanced? hread
    rw [if_neg hopen]
    by_cases hbrace : b = ascii '\x7b'
    · subst hbrace
      rw [if_pos rfl, readBlock_eq, ok_bind]
      cases hread : readBalanced? (ascii '\x7b') (ascii '\x7d') (ascii '\x7b' :: s) with
      | none => exact .inl (by rw [statementsAt_append, scan_unclosed hread]; simp)
      | some x =>
        have hsplit : ascii '\x7b' :: s = ascii '\x7b' :: (x.1 ++ [ascii '\x7d']) ++ x.2 := by
          simpa using eq_of_readBalanced? hread
        have hscan := scan_brace hread begun
        simp only [upTo_append, ok_bind]
        by_cases hequals : (topLevelIndex? (ascii '=') begun).isSome
        · rw [if_pos hequals] at hscan ⊢
          exact .inr (hpass hsplit (List.cons_ne_nil _ _) hscan)
        · rw [if_neg hequals] at hscan ⊢
          refine .inr ⟨x.2, (done, x.2), rfl, ?_, List.suffix_rfl, ?_⟩
          · exact (rest_of_piece [] hsplit (List.cons_ne_nil _ _)).1
          · rw [statementsAt_self, statementsAt_append, hscan]
    rw [if_neg hbrace]
    by_cases hend : b = ascii ';'
    · subst hend
      refine .inr ⟨s, (done ++ [begun], s), by simp, Nat.lt_succ_self _, List.suffix_rfl, ?_⟩
      rw [statementsAt_append, statementsAt_self, scan_semicolon]
      simp
    · rw [if_neg hend, advance_one]
      exact .inr (hpass (c := [b]) rfl (by simp)
        (scan_plain (by simpa using hquote) hopen hbrace hend begun s))

/-! ### Fields of a Java class -/

/-- The declarator without its initializer. -/
def dropInitializer (s : Text) : Checked Text := do return trim (← beforeTopLevel (ascii '=') s)

lemma dropInitializer_eq (s : Text) :
    dropInitializer s = .ok (Declaration.Java.dropInitializer s) := by
  rw [dropInitializer, beforeTopLevel_eq]
  rfl

/-- The trimmed text without the bracket pairs at its end, and their number. -/
def splitPairs (s : Text) : Checked (Text × ℕ) := do
  let (t, pairs) ← peel (fun s => dropPair? (trim s)) s
  return (trim t, pairs)

lemma length_of_dropPair? {s t : Text} (h : dropPair? (trim s) = some t) :
    t.length < s.length := by
  rw [dropPair?_eq, Option.bind_eq_some_iff] at h
  obtain ⟨u, hu, ht⟩ := h
  have h₁ := length_of_dropByte? hu
  have h₂ := length_of_dropByte? ht
  have h₃ := (trim_sublist s).length_le
  have h₄ := (trim_sublist u).length_le
  omega

lemma dropPairs_eq_peelWithin (limit : ℕ) (s : Text) :
    dropPairs limit s =
      (trim (peelWithin (fun s => dropPair? (trim s)) limit s).1,
        (peelWithin (fun s => dropPair? (trim s)) limit s).2) := by
  induction limit generalizing s with
  | zero => rfl
  | succ limit ih =>
    rw [dropPairs, peelWithin]
    cases dropPair? (trim s) with
    | none => rfl
    | some t => simp only [ih]

lemma splitPairs_eq (s : Text) : splitPairs s = .ok (Declaration.Java.splitPairs s) := by
  rw [splitPairs, peel_eq fun _ _ => length_of_dropPair?, ok_bind, Declaration.Java.splitPairs,
    dropPairs_eq_peelWithin]
  rfl

/-- The type, the name and the number of bracket pairs of a first declarator.  The type is what
stands before the name. -/
def typeAndName (s : Text) : Checked (Option (Text × Text × ℕ)) := do
  let (s, pairs) ← splitPairs s
  let name := (s.reverse.takeWhile isIdentPart).reverse
  let type := trim (← upTo name s)
  return if isIdent name ∧ type ≠ [] then some (type, name, pairs) else none

lemma typeAndName_eq (s : Text) : typeAndName s = .ok (typeAndName? s) := by
  have hname : ∀ s : Text, (s.reverse.takeWhile isIdentPart).reverse <:+ s := fun s =>
    List.reverse_prefix.mp (by rw [List.reverse_reverse]; exact List.takeWhile_prefix _)
  rw [typeAndName, splitPairs_eq, ok_bind]
  simp only [upTo_eq (hname _), ok_bind]
  rfl

/-- The name and the number of bracket pairs of a further declarator. -/
def nameAndPairs (s : Text) : Checked (Option (Text × ℕ)) := do
  let (s, pairs) ← splitPairs (← dropInitializer s)
  return if isIdent s then some (s, pairs) else none

/-- The fields that a statement declares. -/
def statementFields (statement : Text) : Checked (List Field) := do
  match ← leadingMarks spaces (· ∈ modifiers) (trimEnd statement) with
  | none => return []
  | some (marks, rest) =>
    if leadingIdent rest ∈ typeWords ∨
        hasCall (← beforeTopLevel (ascii '=') rest) then return []
    else
      match splitTopLevel (ascii ',') rest with
      | [] => return []
      | declarator :: more =>
        match ← typeAndName (← dropInitializer declarator) with
        | none => return []
        | some (type, name, pairs) =>
          let constraints := Constraints.ofJava marks
          let optional := constraints.nullable || isOptionalType type
          let field name pairs :=
            Field.declare name (arrayOf type pairs) optional constraints
          return field name pairs :: (← collect nameAndPairs more).map
            fun (name, pairs) => field name pairs

lemma statementFields_eq (statement : Text) :
    statementFields statement = .ok (Declaration.Java.statementFields statement) := by
  have hmore : ∀ s, nameAndPairs s =
      .ok ((nameAndPairs? ∘ Declaration.Java.dropInitializer) s) := by
    intro s
    rw [nameAndPairs, dropInitializer_eq, ok_bind, splitPairs_eq]
    rfl
  rw [statementFields, leadingMarks_eq isCode_spaces (by decide), ok_bind,
    Declaration.Java.statementFields]
  cases leadingMarks? spaces (· ∈ modifiers) (trimEnd statement) with
  | none => rfl
  | some x =>
    obtain ⟨marks, rest⟩ := x
    simp only [beforeTopLevel_eq, ok_bind]
    split_ifs
    · rfl
    · cases splitTopLevel (ascii ',') rest with
      | nil => rfl
      | cons declarator more =>
        simp only [dropInitializer_eq, typeAndName_eq, collect_eq_ok fun s _ => hmore s, ok_bind]
        cases typeAndName? (Declaration.Java.dropInitializer declarator) with
        | none => rfl
        | some x => rfl

/-- The fields that a class body declares. -/
def bodyFields (body : Text) : Checked (List Field) := do
  return (← (← statements body).mapM statementFields).flatten

lemma bodyFields_eq (body : Text) : bodyFields body = .ok (Declaration.Java.bodyFields body) := by
  rw [bodyFields, statements_eq, ok_bind, mapM_eq_ok fun s _ => statementFields_eq s, ok_bind]
  rfl

/-- The class that a header introduces, if it has a body. -/
def classAt (o : Occurrence Text) : Checked (Option ClassDecl) := do
  if isMember o.before || wordBefore o.before == utf8 "enum" then return none
  else
    match ← body (← afterHeader o) with
    | some body => return some ⟨o.value, dedupFields (← bodyFields body)⟩
    | none => return none

/-- The classes of a source. -/
def classes (s : Text) : Checked (List ClassDecl) := do
  return coalesce (← collect classAt (occurrences classHeader? s))

lemma classes_eq (s : Text) : classes s = .ok (Declaration.Java.classes s) := by
  have hat : ∀ o ∈ occurrences classHeader? s,
      classAt o = .ok (classAt? o) := by
    intro o ho
    rw [classAt, classAt?]
    split_ifs
    · rfl
    · rw [afterHeader_eq isRegular_classHeader? ho, ok_bind, body_eq, ok_bind]
      cases body? o.after with
      | none => rfl
      | some body => simp only [bodyFields_eq, ok_bind, pure_eq_ok, Option.map_some]
  rw [classes, collect_eq_ok hat]
  rfl

end Java

namespace Kotlin

open Declaration.Kotlin hiding propertiesFrom classes

/-! ### Properties of a Kotlin class -/

/-- A word is passed where no gap stands before it. -/
lemma passWord_leadingIdent {s : Text} (h : s.head?.any isGap = false) :
    passWord (leadingIdent s) s = .ok (s.drop (leadingIdent s).length) := by
  rw [leadingIdent, skipGaps_eq_self h]
  obtain ⟨t, ht, -⟩ := exists_identAt s
  generalize identAt s = w at ht
  rw [ht, passWord_append, List.drop_left]

/-- Annotations and modifiers are passed together with the white space behind them. -/
lemma head?_of_leadingMarks? {isModifier : Text → Bool} (hempty : isModifier [] = false) {s : Text}
    {x : Text × Text} (h : leadingMarks? spaces isModifier s = some x) :
    x.2.head?.any isGap = false := by
  have hrefl : Elides (fun _ => true) .kept s s := .refl s
  have hself := leadingMarks?_elides Elides.areSpaces_spaces hempty hrefl
  rw [h, Option.rel_some_some] at hself
  cases hx : x.2 with
  | nil => rfl
  | cons b t =>
    by_contra hgap
    have hwidth := hself.2.2
    rw [hx, leadingWidth_spaces_gap (by simpa using hgap)] at hwidth
    exact absurd hwidth (by decide)

/-- The name of a property and the text behind its colon. -/
def typed (s : Text) : Checked (Option (Text × Text)) := do
  let keyword := leadingIdent s
  if keyword = "val" ∨ keyword = "var" then
    let s := trimStart (← passWord keyword s)
    let name := leadingIdent s
    if name = [] then return none
    else return (afterPrefix? ":" (trimStart (← passWord name s))).map (name, ·)
  else return none

lemma typed_eq {s : Text} (h : s.head?.any isGap = false) :
    typed s = .ok (typed? s) := by
  rw [typed, typed?]
  by_cases hkeyword : leadingIdent s = "val" ∨ leadingIdent s = "var"
  · simp only [passWord_leadingIdent h, ok_bind]
    rw [if_pos hkeyword, guard, if_pos hkeyword]
    generalize s.drop (leadingIdent s).length = s
    simp only [passWord_leadingIdent (head?_trimStart s), ok_bind]
    by_cases hname : leadingIdent (trimStart s) = []
    · rw [if_pos hname, guard, if_neg (not_not.mpr hname)]
      rfl
    · rw [if_neg hname, guard, if_pos hname]
      cases afterPrefix? ":"
        (trimStart ((trimStart s).drop (leadingIdent (trimStart s)).length)) <;> rfl
  · rw [if_neg hkeyword, guard, if_neg hkeyword]
    rfl

/-- The property that a text declares. -/
def property (s : Text) : Checked (Option Field) := do
  match ← leadingMarks spaces (· ∈ modifiers) (trimEnd s) with
  | none => return none
  | some (marks, rest) =>
    match ← typed rest with
    | none => return none
    | some (name, rest) =>
      let type := trim (typeSpan none (← beforeTopLevel (ascii '=') rest))
      return declared? marks name type

lemma property_eq (s : Text) : property s = .ok (property? s) := by
  rw [property, leadingMarks_eq isCode_spaces (by decide), ok_bind, property?_eq]
  cases hmarks : leadingMarks? spaces (· ∈ modifiers) (trimEnd s) with
  | none => rfl
  | some x =>
    simp only [typed_eq (head?_of_leadingMarks? (by decide) hmarks), ok_bind, Option.bind_some]
    cases typed? x.2 with
    | none => rfl
    | some y => simp only [beforeTopLevel_eq, ok_bind, pure_eq_ok, Option.bind_some]; rfl

/-- The properties that statements declare; `pending` holds the annotations that wait for one. -/
def propertiesFrom (pending : Text) : List Text → Checked (List Field)
  | [] => return []
  | s :: ss => do
    if (trim s).isEmpty then propertiesFrom pending ss
    else if (← afterLeading (trim s)).isEmpty then propertiesFrom (pending ++ trim s ++ " ") ss
    else return (← property (pending ++ trim s)).toList ++ (← propertiesFrom [] ss)

lemma propertiesFrom_eq (pending : Text) (ss : List Text) :
    propertiesFrom pending ss = .ok (Declaration.Kotlin.propertiesFrom pending ss) := by
  induction ss generalizing pending with
  | nil => rfl
  | cons s ss ih =>
    simp only [propertiesFrom, afterLeading_eq, property_eq, ih, ok_bind, pure_eq_ok,
      Declaration.Kotlin.propertiesFrom]
    split_ifs <;> rfl

/-! ### Kotlin classes -/

/-- The place behind the type parameters of a class. -/
def afterTypeParameters (s : Text) : Checked (Option Text) := do
  match skipGaps s with
  | [] => return some []
  | b :: s =>
    if b = ascii '<' then return (← readBlock b (ascii '>') (b :: s)).map (·.2)
    else return some (b :: s)

/-- The parameters of the primary constructor behind a class name, and the place behind them. -/
def primaryConstructor (s : Text) : Checked (Option (Text × Text)) := do
  match ← afterTypeParameters s with
  | none => return none
  | some s =>
    match ← leadingMarks gaps
        (fun w => w ∈ modifiers || w == utf8 "constructor") s with
    | none => return none
    | some (_, s) => readBlock (ascii '(') (ascii ')') s

lemma primaryConstructor_eq (s : Text) :
    primaryConstructor s = .ok (primaryConstructor? s) := by
  have htypes : afterTypeParameters s = .ok (afterTypeParameters? s) := by
    rw [afterTypeParameters, afterTypeParameters?]
    cases skipGaps s with
    | nil => rfl
    | cons b t =>
      simp only [readBlock_eq, ok_bind, pure_eq_ok]
      split_ifs <;> rfl
  have hmarks : ∀ s, leadingMarks gaps (fun w => w ∈ modifiers || w == utf8 "constructor") s =
      .ok (leadingMarks? gaps (fun w => w ∈ modifiers || w == utf8 "constructor") s) :=
    leadingMarks_eq (by decide) (by decide)
  rw [primaryConstructor, htypes, ok_bind, primaryConstructor?]
  cases afterTypeParameters? s with
  | none => rfl
  | some t =>
    simp only [hmarks, ok_bind, readBlock_eq, Option.bind_eq_bind, Option.bind_some]
    cases leadingMarks? gaps (fun w => w ∈ modifiers || w == utf8 "constructor") t <;> rfl

lemma isSuffix_of_readBalanced? {opening closing : UInt8} {s content rest : Text}
    (h : readBalanced? opening closing s = some (content, rest)) : closing :: rest <:+ s :=
  ⟨opening :: content, by rw [eq_of_readBalanced? h, List.cons_append]⟩

/-- The parameters of a constructor are closed inside of the text. -/
lemma isSuffix_of_primaryConstructor? {s params rest : Text}
    (h : primaryConstructor? s = some (params, rest)) :
    ascii ')' :: rest <:+ s := by
  obtain ⟨r, hr, h⟩ := Option.bind_eq_some_iff.mp h
  obtain ⟨x, hx, h⟩ := Option.bind_eq_some_iff.mp h
  have htypes : r <:+ s := by
    have hskip : skipGaps s <:+ s := List.dropWhile_suffix isGap
    rw [afterTypeParameters?] at hr
    split at hr
    · exact (Option.some.inj hr) ▸ List.nil_suffix
    · next b t hcons =>
      rw [hcons] at hskip
      split at hr
      · obtain ⟨⟨content, r'⟩, hread, rfl⟩ := Option.map_eq_some_iff.mp hr
        exact (List.suffix_cons _ _).trans ((isSuffix_of_readBalanced? hread).trans hskip)
      · exact (Option.some.inj hr) ▸ hskip
  exact (isSuffix_of_readBalanced? h).trans ((isSuffix_of_leadingMarks? hx).trans htypes)

/-- The class that a header introduces. -/
def classAt (o : Occurrence Text) : Checked (Option ClassDecl) := do
  let word := wordBefore o.before
  if isMember o.before || word == utf8 "enum" || word == utf8 "annotation" then return none
  else
    let after ← afterHeader o
    let (params, rest) := (← primaryConstructor after).getD ([], after)
    let fields ← collect property (splitTopLevel (ascii ',') params)
    match ← body rest with
    | none => return some ⟨o.value, dedupFields fields⟩
    | some body =>
      let members ← propertiesFrom [] (statements (blankNested body))
      return some ⟨o.value, dedupFields (fields ++ members)⟩

/-- The classes of a source. -/
def classes (s : Text) : Checked (List ClassDecl) := do
  return coalesce (← collect classAt (occurrences classHeader? s))

lemma classes_eq (s : Text) : classes s = .ok (Declaration.Kotlin.classes s) := by
  have hat : ∀ o ∈ occurrences classHeader? s,
      classAt o = .ok (classAt? o) := by
    intro o ho
    simp only [classAt, classAt?]
    split_ifs
    · rfl
    · simp only [afterHeader_eq isRegular_classHeader? ho, primaryConstructor_eq, body_eq,
        propertiesFrom_eq, collect_eq_ok fun part _ => property_eq part, ok_bind, pure_eq_ok]
      cases body? ((primaryConstructor? o.after).getD ([], o.after)).2 with
      | none => simp [parameterFields]
      | some body => rfl
  rw [classes, collect_eq_ok hat]
  rfl

end Kotlin

end DtoSchema.Cut
