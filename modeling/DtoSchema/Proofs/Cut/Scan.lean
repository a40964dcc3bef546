import DtoSchema.Proofs.Cut.Checked
import DtoSchema.Proofs.Declaration.ElidedHeaders
import DtoSchema.Proofs.Declaration.Names
import DtoSchema.Proofs.Declaration.Supertypes
import DtoSchema.Proofs.Declaration.Tails

/-!
# Annotations, modifiers and bodies by checked cuts

The scans that the dialects share.  An annotation or a block that is read is cut off the text at its
place, a word that stands there is passed, and the scan goes on behind it.  Each scan is equal to
the function of the library that counts the bytes to be passed.
-/

namespace DtoSchema.Cut

open Text Source Declaration

/-! ### Annotations -/

/-- An annotation is a part of the text that it is read from, and holds its `@` at least. -/
lemma exists_append_of_read? {s : Text} {a : Mark} (h : Mark.read? s = some a) :
    a.text ≠ [] ∧ ∃ r, s = a.text ++ r := by
  -- a text is its own elision, so the annotations of both are one
  have hrefl : Elides (fun _ => true) .kept s s := .refl s
  have hpair := read?_elides hrefl
  rw [h, Option.rel_some_some] at hpair
  obtain ⟨r, -, hr, -⟩ := hpair.rest
  exact ⟨hpair.ne_nil, r, hr⟩

/-- The annotation at a place, with the text up to where it ends, and the place behind it. -/
def readMark (s : Text) : Checked (Option (Mark × Text)) := do
  match Mark.read? s with
  | some a =>
    let rest ← advance a.text.length s
    return some ({ a with text := ← upTo rest s }, rest)
  | none => return none

/-- There is no annotation at a place, or there is one and it is cut off the text. -/
lemma readMark_cases (s : Text) :
    (Mark.read? s = none ∧ readMark s = .ok none) ∨
      ∃ a r, s = a.text ++ r ∧ 0 < a.text.length ∧ Mark.read? s = some a ∧
        readMark s = .ok (some (a, r)) := by
  cases hread : Mark.read? s with
  | none => exact .inl ⟨rfl, by rw [readMark, hread]; rfl⟩
  | some a =>
    obtain ⟨hne, r, rfl⟩ := exists_append_of_read? hread
    refine .inr ⟨a, r, rfl, List.length_pos_iff.mpr hne, rfl, ?_⟩
    rw [readMark, hread]
    simp only [advance_append, upTo_append, ok_bind, pure_eq_ok]

/-- The annotations of a text, in order. -/
def readAll (s : Text) : Checked (List Mark) :=
  loop
    (fun s marks => do
      if s.isEmpty then return .stop marks
      else
        match ← readMark s with
        | some (a, rest) => return .next rest (marks ++ [a])
        | none => return .next (← advance 1 s) marks)
    s []

lemma readAll_eq (s : Text) : readAll s = .ok (Mark.readAll s) := by
  refine loop_eq_ok (fun _ _ => True) (fun s marks => marks ++ Mark.readAll s) ?_ trivial
  intro s marks _
  simp only [Keeps]
  cases s with
  | nil => exact .inl (by simp [Mark.readAll, Mark.readAllFrom])
  | cons b s =>
    simp only [List.isEmpty_cons, Bool.false_eq_true, if_false]
    rcases readMark_cases (b :: s) with ⟨hnone, hread⟩ | ⟨a, r, hsplit, hpos, hsome, hread⟩
    · refine .inr ⟨s, marks, by simp [hread], Nat.lt_succ_self _, trivial, ?_⟩
      rw [readAll_none hnone]
    · refine .inr ⟨r, marks ++ [a], by simp [hread], ?_, trivial, ?_⟩
      · rw [hsplit, List.length_append]
        omega
      · rw [hsplit] at hsome ⊢
        rw [readAll_mark hsome (List.length_pos_iff.mp hpos), List.append_assoc,
          List.singleton_append]

lemma length_skipGaps_le (s : Text) : (skipGaps s).length ≤ s.length :=
  (List.dropWhile_sublist isGap).length_le

/-- The place behind the annotations at a place. -/
def afterLeading (s : Text) : Checked Text :=
  loop
    (fun s (_ : Unit) => do
      match ← readMark (skipGaps s) with
      | some (_, rest) => return .next rest ()
      | none => return .stop (skipGaps s))
    s ()

lemma afterLeading_eq (s : Text) : afterLeading s = .ok (Mark.afterLeading s) := by
  refine loop_eq_ok (fun _ _ => True) (fun s _ => Mark.afterLeading s) ?_ trivial
  intro s _ _
  simp only [Keeps]
  have hgap := head?_skipGaps s
  have hle := length_skipGaps_le s
  rcases readMark_cases (skipGaps s) with ⟨hnone, hread⟩ | ⟨a, r, hsplit, hpos, hsome, hread⟩
  · refine .inl ?_
    rw [← afterLeading_skipGaps s, afterLeading_stop hgap hnone, hread]
    rfl
  · rw [hsplit, List.length_append] at hle
    rw [hsplit] at hsome hgap
    refine .inr ⟨r, (), by simp [hread], by omega, trivial, ?_⟩
    rw [← afterLeading_skipGaps s, hsplit,
      afterLeading_mark hsome (List.length_pos_iff.mp hpos) hgap]

lemma afterLeading_isSuffix (s : Text) : Mark.afterLeading s <:+ s := by
  have hfrom : ∀ (s : Text) (k : ℕ), Mark.afterLeadingFrom k s <:+ s := by
    intro s
    induction s with
    | nil => simp [Mark.afterLeadingFrom]
    | cons b s ih =>
      have hlater : ∀ k, Mark.afterLeadingFrom k s <:+ b :: s := fun k =>
        (ih k).trans (List.suffix_cons b s)
      intro k
      cases k with
      | succ k => exact hlater k
      | zero =>
        rw [Mark.afterLeadingFrom]
        split
        · exact hlater 0
        · split
          · exact hlater _
          · exact List.suffix_rfl
  exact hfrom s 0

/-- A part of the arguments of an annotation, cut at its equals sign. -/
def argument (part : Text) : Checked Mark.Argument := do
  match topLevelIndex? (ascii '=') part with
  | some i =>
    let key := trim (← first i part)
    let value := trim (← advance (i + 1) part)
    return if isIdent key then ⟨some key, value⟩ else ⟨none, part⟩
  | none => return ⟨none, part⟩

lemma argument_eq (part : Text) : argument part = .ok (.ofPart part) := by
  rw [argument, Mark.Argument.ofPart]
  cases hindex : topLevelIndex? (ascii '=') part with
  | none => rfl
  | some i =>
    have hlt := lt_length_of_topLevelFrom hindex
    simp only [first_eq hlt.le, advance_eq hlt, ok_bind, pure_eq_ok]

/-! ### Annotations and modifiers -/

/-- The annotations among the annotations and modifiers at a place, and the place behind all of
them. -/
def leadingMarks (blanks : List Text) (isModifier : Text → Bool) (s : Text) :
    Checked (Option (Text × Text)) :=
  loop
    (fun s (marks : Text) => do
      if 0 < leadingWidth blanks s then return .next (← advance (leadingWidth blanks s) s) marks
      else if s.head? = some (ascii '@') then
        match ← readMark s with
        | some (a, rest) => return .next rest (marks ++ a.text ++ " ")
        | none => return .stop none
      else if isModifier (identAt s) then return .next (← passWord (identAt s) s) marks
      else return .stop (some (marks, s)))
    s []

lemma leadingMarks_eq {blanks : List Text} (hcode : isCode blanks) {isModifier : Text → Bool}
    (hempty : isModifier [] = false) (s : Text) :
    leadingMarks blanks isModifier s = .ok (leadingMarks? blanks isModifier s) := by
  refine (loop_eq_ok (fun _ _ => True) (fun s marks =>
    (leadingMarks? blanks isModifier s).map fun x => (marks ++ x.1, x.2)) ?_ trivial).trans
      (by simp)
  intro s marks _
  simp only [Keeps]
  rcases leadingWidth_cases hcode s with ⟨hwidth, -⟩ | ⟨e, he, t, hne, rfl⟩
  · simp only [hwidth, Nat.lt_irrefl, if_false]
    by_cases hat : s.head? = some (ascii '@')
    · rw [if_pos hat]
      rcases readMark_cases s with ⟨hnone, hread⟩ | ⟨a, r, rfl, hpos, hsome, hread⟩
      · exact .inl (by rw [hread, leadingMarks?_none hwidth hat hnone]; rfl)
      · refine .inr ⟨r, marks ++ a.text ++ " ", by simp [hread], by simpa using hpos, trivial, ?_⟩
        rw [leadingMarks?_mark hwidth (List.length_pos_iff.mp hpos) hat hsome, Option.map_map]
        simp [Function.comp_def]
    · rw [if_neg hat]
      by_cases hmodifier : isModifier (identAt s)
      · obtain ⟨t, ht, -⟩ := exists_identAt s
        have hne : identAt s ≠ [] := fun h => by simp [h, hempty] at hmodifier
        generalize hw : identAt s = w at ht hne hmodifier
        subst ht
        refine .inr ⟨t, marks, by simp [hmodifier], ?_, trivial, ?_⟩
        · simpa using List.length_pos_iff.mpr hne
        · rw [leadingMarks?_word hwidth hat hw hne hmodifier]
      · refine .inl ?_
        rw [if_neg hmodifier, leadingMarks?_rest hwidth hat (by simpa using hmodifier)]
        simp
  · have hpos := List.length_pos_iff.mpr hne
    refine .inr ⟨t, marks, ?_, by simpa using hpos, trivial, ?_⟩
    · simp [leadingWidth_append hcode he, hpos]
    · rw [leadingMarks?_blank hcode he hne]

/-! ### Bodies -/

/-- The content of the block at a place, and the place behind the bracket that closes it. -/
def readBlock (opening closing : UInt8) (s : Text) : Checked (Option (Text × Text)) := do
  match readBalanced? opening closing s with
  | some (content, _) =>
    let rest ← advance (content.length + 1) s
    return some (← upTo rest (← advance 1 s), ← advance 1 rest)
  | none => return none

lemma readBlock_eq (opening closing : UInt8) (s : Text) :
    readBlock opening closing s = .ok (readBalanced? opening closing s) := by
  rw [readBlock]
  cases hread : readBalanced? opening closing s with
  | none => rfl
  | some x =>
    obtain ⟨content, rest⟩ := x
    have hclose := advance_append (opening :: content) (closing :: rest)
    rw [List.cons_append, List.length_cons] at hclose
    rw [eq_of_readBalanced? hread]
    simp only [hclose, advance_one, upTo_append, ok_bind, pure_eq_ok]

/-- The place of the brace that opens the body of a declaration, from behind its header on. -/
def bodyStart (s : Text) : Checked (Option Text) :=
  loop
    (fun s (_ : Unit) => do
      match s with
      | [] => return .stop none
      | b :: _ =>
        if b = ascii '\x7b' then return .stop (some s)
        else if b = ascii '(' ∨ b = ascii '<' then
          match ← readBlock b (if b = ascii '<' then ascii '>' else ascii ')') s with
          | some (_, rest) => return .next rest ()
          | none => return .stop none
        else if b = ascii ';' ∨ b = ascii '\x7d' ∨ b = ascii '=' ∨ b = ascii ')' then
          return .stop none
        else if isIdentStart b then
          if identAt s ∈ declarationWords then return .stop none
          else return .next (← passWord (identAt s) s) ()
        else return .next (← advance 1 s) ())
    s ()

/-- The brackets of a header are passed. -/
lemma bodyStart?_bracket {b : UInt8} (hb : b = ascii '(' ∨ b = ascii '<') (s : Text) :
    bodyStart? (b :: s) =
      (readBalanced? b (if b = ascii '<' then ascii '>' else ascii ')') (b :: s)).bind
        fun r => bodyStart? r.2 := by
  rcases hb with rfl | rfl
  · exact bodyStart?_group (by decide) s
  · exact bodyStart?_group (by decide) s

lemma bodyStart_eq (s : Text) : bodyStart s = .ok (bodyStart? s) := by
  refine loop_eq_ok (fun _ _ => True) (fun s _ => bodyStart? s) ?_ trivial
  intro s _ _
  simp only [Keeps]
  cases s with
  | nil => exact .inl rfl
  | cons b s =>
    simp only
    by_cases hbrace : b = ascii '\x7b'
    · exact .inl (by rw [if_pos hbrace, hbrace]; rfl)
    rw [if_neg hbrace]
    by_cases hopen : b = ascii '(' ∨ b = ascii '<'
    · rw [if_pos hopen, readBlock_eq, ok_bind, bodyStart?_bracket hopen]
      cases hread : readBalanced? b (if b = ascii '<' then ascii '>' else ascii ')') (b :: s) with
      | none => exact .inl rfl
      | some x =>
        obtain ⟨content, rest⟩ := x
        refine .inr ⟨rest, (), rfl, ?_, trivial, rfl⟩
        rw [eq_of_readBalanced? hread]
        simp only [List.length_cons, List.length_append]
        omega
    rw [if_neg hopen]
    by_cases hend : b = ascii ';' ∨ b = ascii '\x7d' ∨ b = ascii '=' ∨ b = ascii ')'
    · refine .inl ?_
      rw [if_pos hend, bodyStart?, bodyStartFrom?, if_neg hbrace, if_neg fun h => hopen (.inl h),
        if_neg fun h => hopen (.inr h), if_pos hend]
      rfl
    rw [if_neg hend]
    have hmem : b ∉ utf8 "\x7b(<;\x7d=)" := by
      rw [mem_headerSigns]
      tauto
    by_cases hident : isIdentStart b
    · rw [if_pos hident]
      rcases identAt_cases (b :: s) with ⟨-, hhead⟩ | ⟨w, t, hsplit, hw, hword, ht⟩
      · simp [hident] at hhead
      · have hpos := List.length_pos_iff.mpr (ne_nil_of_isIdent hw)
        rw [hword, hsplit]
        by_cases hdeclaration : w ∈ declarationWords
        · rw [if_pos hdeclaration, bodyStart?_declarationWord hw hdeclaration ht]
          exact .inl rfl
        · refine .inr ⟨t, (), by simp [hdeclaration], by simpa using hpos, trivial, ?_⟩
          rw [bodyStart?_word hw hdeclaration ht]
    · refine .inr ⟨s, (), by simp [hident], Nat.lt_succ_self _, trivial, ?_⟩
      rw [bodyStart?_sign (by simpa using hident) hmem]

/-- A body starts with a brace at a place of the text. -/
lemma exists_of_bodyStart? {s r : Text} (h : bodyStart? s = some r) :
    ∃ t, r = ascii '\x7b' :: t ∧ r <:+ s := by
  have hfrom : ∀ (s : Text) (k : ℕ), bodyStartFrom? k s = some r →
      ∃ t, r = ascii '\x7b' :: t ∧ r <:+ s := by
    intro s
    induction s with
    | nil => simp [bodyStartFrom?]
    | cons b s ih =>
      intro k h
      have hlater : ∀ k, bodyStartFrom? k s = some r →
          ∃ t, r = ascii '\x7b' :: t ∧ r <:+ b :: s := by
        intro k h
        obtain ⟨t, ht, hsuffix⟩ := ih k h
        exact ⟨t, ht, hsuffix.trans (List.suffix_cons b s)⟩
      cases k with
      | succ k => exact hlater k h
      | zero =>
        rw [bodyStartFrom?] at h
        split_ifs at h with hbrace
        · exact ⟨s, by rw [← Option.some.inj h, hbrace], Option.some.inj h ▸ List.suffix_rfl⟩
        · obtain ⟨x, -, hx⟩ := Option.bind_eq_some_iff.mp h
          exact hlater _ hx
        · obtain ⟨x, -, hx⟩ := Option.bind_eq_some_iff.mp h
          exact hlater _ hx
        · simp only at h
          split_ifs at h
          exact hlater _ h
  exact hfrom s 0 h

/-- The content of the body of a declaration, from behind its header on. -/
def body (s : Text) : Checked (Option Text) := do
  match ← bodyStart s with
  | some s => return (← readBlock (ascii '\x7b') (ascii '\x7d') s).map (·.1)
  | none => return none

lemma body_eq (s : Text) : body s = .ok (body? s) := by
  rw [body, bodyStart_eq, ok_bind, body?]
  cases bodyStart? s with
  | none => rfl
  | some r => simp only [readBlock_eq, ok_bind, Option.bind_some, pure_eq_ok]

/-! ### Headers -/

/-- The place behind a header that is found in a text. -/
def afterHeader (o : Occurrence Text) : Checked Text := advance o.width o.rest

lemma afterHeader_eq {header : Option UInt8 → Text → Option (Text × ℕ)} (hheader : IsRegular header)
    {s : Text} {o : Occurrence Text} (h : o ∈ occurrences header s) :
    afterHeader o = .ok o.after := by
  obtain ⟨prev, hat⟩ := exists_pattern_of_mem_occurrencesFrom h
  -- as for annotations, what the answers for a text and its elision share is a part of the text
  have hrefl : Elides (fun _ => true) .kept o.rest o.rest := .refl o.rest
  have hself := hheader.agrees prev hrefl
  rw [hat, Option.rel_some_some] at hself
  obtain ⟨-, a, r, -, -, (hwidth : o.width = a.length), hrest, -⟩ := hself
  rw [afterHeader, Occurrence.after, hrest, hwidth, advance_append, List.drop_left]

/-! ### Enumerations -/

lemma lt_length_of_semicolon {s : Text} {i : ℕ} (h : topLevelSemicolon? s = some i) :
    i < s.length := by
  have hfrom : ∀ (s : Text) (parens braces i : ℕ), semicolonFrom parens braces s = some i →
      i < s.length := by
    intro s
    induction s with
    | nil => simp [semicolonFrom]
    | cons b s ih =>
      intro parens braces i h
      rw [semicolonFrom_eq] at h
      split at h
      · simp [← Option.some.inj h]
      · obtain ⟨j, hj, rfl⟩ := Option.map_eq_some_iff.mp h
        simpa using ih _ _ j hj
  exact hfrom s 0 0 i h

/-- The part of the body of an enumeration that lists its constants. -/
def constantsPart (body : Text) : Checked Text :=
  match topLevelSemicolon? body with
  | some i => first i body
  | none => return body

/-- The constants that the body of an enumeration lists. -/
def enumValues (body : Text) : Checked (List Text) := do
  let names ← (splitTopLevel (ascii ',') (← constantsPart body)).mapM fun item => do
    return leadingIdent (← afterLeading (trim item))
  return names.filter (!·.isEmpty)

lemma enumValues_eq (body : Text) : enumValues body = .ok (Declaration.enumValues body) := by
  have hpart : constantsPart body = .ok (match topLevelSemicolon? body with
      | some i => body.take i
      | none => body) := by
    unfold constantsPart
    cases hsemicolon : topLevelSemicolon? body with
    | none => rfl
    | some i => exact first_eq (lt_length_of_semicolon hsemicolon).le
  rw [enumValues, hpart, ok_bind,
    mapM_eq_ok fun item _ => by rw [afterLeading_eq, ok_bind, pure_eq_ok]]
  rfl

/-- The enumeration that a header introduces, if it has constants. -/
def enumAt (o : Occurrence Text) : Checked (Option EnumDecl) := do
  if o.value ∈ declarationWords then return none
  else
    match ← body (← afterHeader o) with
    | none => return none
    | some body =>
      match ← enumValues body with
      | [] => return none
      | values => return some ⟨o.value, values⟩

/-- The enumerations of a text whose headers `header` recognises. -/
def enums (header : Option UInt8 → Text → Option (Text × ℕ)) (s : Text) :
    Checked (List EnumDecl) := collect enumAt (occurrences header s)

lemma enums_eq {header : Option UInt8 → Text → Option (Text × ℕ)} (hheader : IsRegular header)
    (s : Text) : enums header s = .ok (Declaration.enums header s) := by
  refine collect_eq_ok fun o ho => ?_
  unfold enumAt
  split_ifs
  · rfl
  · rw [afterHeader_eq hheader ho, ok_bind, body_eq, ok_bind]
    cases body? o.after with
    | none => rfl
    | some body =>
      simp only [enumValues_eq, ok_bind, Option.map_some]
      cases Declaration.enumValues body <;> rfl

end DtoSchema.Cut
