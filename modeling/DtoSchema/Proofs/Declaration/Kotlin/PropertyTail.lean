import DtoSchema.Proofs.Declaration.Tails
import DtoSchema.Declaration.Kotlin

/-!
# What follows a property

A property is read up to its type: the annotations and modifiers, the keyword and the name, and the
type behind the colon.  `property?_eq` takes the reading apart into these steps, none of which looks
behind a place where reading stops (`property?_stops`).  So what stands in a block behind the
property makes no difference (`property?_brace`), and neither does an initializer
(`property?_initializer`).
-/

namespace DtoSchema.Declaration.Kotlin

open Text Source

/-! ### The steps -/

/-- The name of a property and the text behind its colon. -/
def typed? (s : Text) : Option (Text × Text) := do
  let keyword := leadingIdent s
  guard (keyword = "val" ∨ keyword = "var")
  let s := trimStart (s.drop keyword.length)
  let name := leadingIdent s
  guard (name ≠ [])
  let s ← afterPrefix? ":" (trimStart (s.drop name.length))
  return (name, s)

/-- The property with the given annotations, name and type. -/
def declared? (marks name type : Text) : Option Field :=
  let constraints := Constraints.ofKotlin marks
  if type = [] then none
  else if type.getLast? = some (ascii '?') then
    some (Field.declare name (trim type.dropLast) true constraints)
  else some (Field.declare name type constraints.nullable constraints)

/-- A property is read in three steps. -/
lemma property?_eq (s : Text) :
    property? s = (leadingMarks? spaces (· ∈ modifiers) (trimEnd s)).bind fun x =>
      (typed? x.2).bind fun y => declared? x.1 y.1 (typeText y.2) := by
  cases h : leadingMarks? spaces (· ∈ modifiers) (trimEnd s) with
  | none => simp [property?, h]
  | some x =>
    obtain ⟨marks, rest⟩ := x
    have hsuffix : rest <:+ trimEnd s := isSuffix_of_leadingMarks? h
    have hdrop : ∀ {v : Text} (n : ℕ), v <:+ trimEnd s →
        trimStart (v.drop n) <:+ trimEnd s := fun n hv =>
      ((dropLeading_isSuffix spaces _).trans (List.drop_suffix n _)).trans hv
    -- what is left of the text ends like the text, so there is nothing to trim at its end
    have htrim : ∀ {v : Text} (n : ℕ), v <:+ trimEnd s →
        trim (v.drop n) = trimStart (v.drop n) := fun n hv =>
      trimEnd_of_isSuffix (trimEnd_trimEnd s) (hdrop n hv)
    simp only [property?, typed?, h, Option.bind_eq_bind, Option.bind_some, Option.pure_def,
      Option.bind_assoc, htrim _ hsuffix, htrim _ (hdrop _ hsuffix)]
    refine congrArg _ (funext fun _ => congrArg _ (funext fun _ => congrArg _ (funext fun y => ?_)))
    generalize typeText y = type
    cases type using List.reverseRecOn with
    | nil => rfl
    | append_singleton base mark =>
      by_cases hmark : mark = ascii '?'
      · simp [declared?, hmark]
      · simp [declared?, hmark]

/-! ### Reading up to a stop -/

section Stop

variable {t : Text} (ht : Stops t)
include ht

omit ht in
/-- A prefix that holds no byte at which `t` starts is found without looking into `t`. -/
lemma afterPrefix?_append_of_head? {p : Text} (hp : ∀ b ∈ p, t.head? ≠ some b) (s : Text) :
    afterPrefix? p (s ++ t) = (afterPrefix? p s).map (· ++ t) := by
  induction p generalizing s with
  | nil => simp [afterPrefix?]
  | cons a p ih =>
    obtain ⟨ha, hps⟩ := List.forall_mem_cons.mp hp
    cases s with
    | nil =>
      cases t with
      | nil => rfl
      | cons b t =>
        have hne : a ≠ b := fun h => ha (by simp [h])
        simp [afterPrefix?, hne]
    | cons b s =>
      rw [List.cons_append, afterPrefix?, afterPrefix?]
      split
      · exact ih hps s
      · rfl

lemma head?_ne_of_stops {b : UInt8} (hb : isNamePart b ∨ b = ascii ':') : t.head? ≠ some b := by
  intro h
  rcases hb with hb | rfl
  · have hname := head?_isNamePart_of_isTail ht.isTail
    simp [h, hb] at hname
  · exact head?_ne_of_isTail ht.isTail h

/-- The name and the colon of a property are read without looking behind a stop. -/
lemma typed?_stops (s : Text) : typed? (s ++ t) = (typed? s).map fun y => (y.1, y.2 ++ t) := by
  have hcont := ht.head?_isContinuation
  have hlength : ∀ v : Text, (leadingIdent v).length ≤ v.length := by
    intro v
    obtain ⟨r, hr, -⟩ := exists_identAt (skipGaps v)
    have h := congrArg List.length hr
    have hle : (skipGaps v).length ≤ v.length := (List.dropWhile_sublist isGap).length_le
    rw [List.length_append] at h
    rw [leadingIdent]
    omega
  have hstart := ht.trimStart_head?
  have hnone : leadingIdent (trimStart t) = [] ∧ afterPrefix? (utf8 ":") (trimStart t) = none := by
    cases hcase : trimStart t with
    | nil => decide
    | cons b r =>
      rw [hcase] at hstart
      obtain ⟨-, hgap, hstill, -, hcolon, -⟩ := of_isStop (b := b) (by simpa using hstart)
      refine ⟨?_, by simp [utf8_colon, afterPrefix?, Ne.symm hcolon]⟩
      simp [leadingIdent, skipGaps, hgap, identAt, (of_isStill hstill).1]
  have hnil : leadingIdent [] = [] ∧ afterPrefix? (utf8 ":") [] = none := by decide
  have hcolon : ∀ v, afterPrefix? (utf8 ":") (v ++ t) =
      (afterPrefix? (utf8 ":") v).map (· ++ t) := by
    refine afterPrefix?_append_of_head? fun b hb => head?_ne_of_stops ht (Or.inr ?_)
    simpa [utf8_colon] using hb
  simp only [typed?, ht.leadingIdent_append, List.drop_append_of_le_length (hlength s),
    trimStart_append _ hcont]
  by_cases hname : trimStart (s.drop (leadingIdent s).length) = []
  · simp [hname, hnone, hnil]
  · generalize trimStart (s.drop (leadingIdent s).length) = v at hname
    simp only [if_neg hname, ht.leadingIdent_append, List.drop_append_of_le_length (hlength v),
      trimStart_append _ hcont]
    by_cases htype : trimStart (v.drop (leadingIdent v).length) = []
    · simp [htype, hnone, hnil]
    · simp [if_neg htype, hcolon, Option.map_bind, Option.bind_map]

/-! ### Where a type ends -/

/-- An accessor is found without looking behind a stop. -/
lemma accessorAt_stops {name : Text} (hname : name.all isIdentPart) (prev : Option UInt8) {s : Text}
    (hne : s ≠ []) : accessorAt name prev (s ++ t) = accessorAt name prev s := by
  have hprefix : ∀ v, afterPrefix? name (v ++ t) = (afterPrefix? name v).map (· ++ t) := by
    refine afterPrefix?_append_of_head? fun b hb => head?_ne_of_stops ht (Or.inl ?_)
    have hpart := List.all_eq_true.mp hname b hb
    simp [isNamePart, hpart]
  have hopen : ∀ r, ((skipGaps (r ++ t)).head? == some (ascii '(')) =
      ((skipGaps r).head? == some (ascii '(')) := by
    intro r
    rw [skipGaps_append_eq]
    split
    · next hr =>
      have hstill := ht.skipGaps_head?
      rw [hr]
      cases hcase : skipGaps t with
      | nil => rfl
      | cons b u =>
        rw [hcase] at hstill
        have hb := (of_isStill (b := b) (by simpa using hstill)).2
        simpa using hb
    · next hr => rw [List.head?_append_of_ne_nil _ hr]
  rw [accessorAt, accessorAt, hprefix, atBoundary, atBoundary, List.head?_append_of_ne_nil _ hne]
  cases afterPrefix? name s with
  | none => rfl
  | some r => simp only [Option.map_some, hopen]

/-- A delegate is found without looking behind a stop, unless its keyword stands right there. -/
lemma delegateAt_stops {s : Text} (hne : s ≠ [])
    (hby : t.head?.any isGap = false ∨ ∀ a g, isGap g → s ≠ a ++ g :: utf8 "by") :
    delegateAt (s ++ t) = delegateAt s := by
  have hprefix : ∀ v, afterPrefix? (utf8 "by") (v ++ t) =
      (afterPrefix? (utf8 "by") v).map (· ++ t) := by
    refine afterPrefix?_append_of_head? fun b hb => head?_ne_of_stops ht (Or.inl ?_)
    have hall : (utf8 "by").all isNamePart := by decide
    exact List.all_eq_true.mp hall b hb
  rw [delegateAt, delegateAt, List.head?_append_of_ne_nil _ hne, skipGaps_append_eq]
  by_cases hskip : skipGaps s = []
  · have hstill := ht.skipGaps_head?
    have hnone : afterPrefix? (utf8 "by") (skipGaps t) = none := by
      have hword : utf8 "by" = [ascii 'b', ascii 'y'] := by decide
      cases hcase : skipGaps t with
      | nil => decide
      | cons b u =>
        rw [hcase] at hstill
        have hb : ascii 'b' ≠ b := by
          have hletter : isStill (ascii 'b') = false := by decide
          rintro rfl
          simp [hletter] at hstill
        simp [hword, afterPrefix?, hb]
    have hnil : afterPrefix? (utf8 "by") [] = none := by decide
    rw [if_pos hskip, hnone, hskip, hnil]
  · rw [if_neg hskip, hprefix]
    cases hread : afterPrefix? (utf8 "by") (skipGaps s) with
    | none => rfl
    | some r =>
      cases r with
      | cons b r => rfl
      | nil =>
        -- the keyword is the last word in front of the stop
        have hword : skipGaps s = utf8 "by" := by
          simpa using afterPrefix?_eq_some_iff.mp hread
        cases hhead : s.head?.any isGap with
        | false => rfl
        | true =>
          have hgap : t.head?.any isGap = false := by
            refine hby.resolve_right fun h => ?_
            have hsplit := List.takeWhile_append_dropWhile (p := isGap) (l := s)
            rw [← skipGaps, hword] at hsplit
            have hlast : s.takeWhile isGap ≠ [] := by
              cases s with
              | nil => simp at hhead
              | cons b s => simp [show isGap b by simpa using hhead]
            refine h (s.takeWhile isGap).dropLast ((s.takeWhile isGap).getLast hlast) ?_ ?_
            · exact List.all_eq_true.mp List.all_takeWhile _ (List.getLast_mem hlast)
            · rw [List.append_cons, List.dropLast_concat_getLast, hsplit]
          simpa using hgap

end Stop

/-- The type that is declared does not hold what stands in a block behind it. -/
lemma typeText_brace (s x : Text) : typeText (s ++ ascii '\x7b' :: x) = typeText s := by
  have hstop : ∀ x, Stops (ascii '\x7b' :: x) := .cons (by decide)
  have hspan : ∀ (s : Text) (prev : Option UInt8) (x : Text),
      typeSpan prev (s ++ ascii '\x7b' :: x) = typeSpan prev s := by
    intro s
    induction s with
    | nil => intro prev x; simp [typeSpan, typeEndsAt]
    | cons b s ih =>
      intro prev x
      have hgap : (ascii '\x7b' :: x).head?.any isGap = false := by
        have h : isGap (ascii '\x7b') = false := by decide
        simpa using h
      have hends : typeEndsAt prev (b :: s ++ ascii '\x7b' :: x) = typeEndsAt prev (b :: s) := by
        rw [typeEndsAt, typeEndsAt, delegateAt_stops (hstop x) (by simp) (Or.inl hgap),
          accessorAt_stops (hstop x) (by decide) prev (by simp),
          accessorAt_stops (hstop x) (by decide) prev (by simp)]
        rfl
      rw [List.cons_append] at hends
      rw [List.cons_append, typeSpan, typeSpan, hends, ih]
  rw [typeText, typeText]
  rcases beforeTopLevel_append (ascii '=') s (ascii '\x7b' :: x) with h | ⟨hs, v, hv, h⟩
  · rw [h]
  · rw [h, hs]
    cases v with
    | nil => rw [List.append_nil]
    | cons b v =>
      obtain ⟨rfl, -⟩ := List.cons_prefix_cons.mp hv
      rw [hspan]

/-- White space holds nothing at which a type ends. -/
lemma typeEndsAt_eq_false {s : Text} (hs : s.all (!isInk ·)) (prev : Option UInt8) :
    typeEndsAt prev s = false := by
  have hprefix : ∀ {p v : Text}, p.head?.any isInk → v.all (!isInk ·) →
      afterPrefix? p v = none := by
    intro p v hp hv
    cases p with
    | nil => simp at hp
    | cons a p =>
      cases v with
      | nil => rfl
      | cons b v =>
        have hne : a ≠ b := by
          rintro rfl
          simp_all
        simp [afterPrefix?, hne]
  have hskip : (skipGaps s).all (!isInk ·) :=
    List.all_eq_true.mpr fun b hb =>
      List.all_eq_true.mp hs b ((List.dropWhile_suffix isGap).subset hb)
  have hbrace : (s.head? == some (ascii '\x7b')) = false := by
    cases s with
    | nil => rfl
    | cons b s =>
      have hvisible : isInk (ascii '\x7b') := by decide
      have hb : b ≠ ascii '\x7b' := by
        rintro rfl
        simp [hvisible] at hs
      simpa using hb
  simp only [typeEndsAt, delegateAt, accessorAt, hbrace, hprefix (p := utf8 "by") (by decide) hskip,
    hprefix (p := utf8 "get") (by decide) hs, hprefix (p := utf8 "set") (by decide) hs,
    Bool.and_false, Bool.or_false]

/-- The text ends with the word `by` between gaps. -/
def EndsInBy (s : Text) : Prop :=
  ∃ a g h w, s = a ++ g :: (utf8 "by" ++ h :: w) ∧ isGap g ∧ isGap h ∧ IsSpace (h :: w)

lemma not_endsInBy {s : Text} (h : ascii 'y' ∉ s) : ¬ EndsInBy s := by
  rintro ⟨a, g, c, w, rfl, -⟩
  have hmem : ascii 'y' ∈ utf8 "by" := by decide
  exact h (List.mem_append_right _ (List.mem_cons_of_mem _ (List.mem_append_left _ hmem)))

/-- The type that is declared does not end in white space, and it ends before an equals sign. -/
lemma typeText_equals {s w : Text} (hs : Nested .grouping (· == ascii '=') s) (hw : IsSpace w)
    (hby : ¬ EndsInBy (s ++ w)) (x : Text) :
    typeText (s ++ (w ++ ascii '=' :: x)) = typeText s := by
  have hink := hw.all_not_isInk
  have hplain : ∀ b, isInk b = false →
      (Brackets.grouping.isPlain b && !(b == ascii '=')) = true := by
    intro b hb
    have hne : b ≠ ascii '=' := by
      rintro rfl
      exact absurd hb (by decide)
    simp [isPlain_of_isMarkByte (by decide : suitsMarks .grouping) (isMarkByte_of_isInk hb), hne]
  have hnested : Nested .grouping (· == ascii '=') w := .of_plain <|
    List.all_eq_true.mpr fun b hb => hplain b (by simpa using List.all_eq_true.mp hink b hb)
  have hblank : ∀ (v : Text) (prev : Option UInt8), v.all (!isInk ·) → typeSpan prev v = v := by
    intro v
    induction v with
    | nil => intro prev _; rfl
    | cons b v ih =>
      intro prev hv
      rw [typeSpan, typeEndsAt_eq_false hv, if_neg (by simp),
        ih _ (Bool.and_eq_true_iff.mp (List.all_cons ▸ hv)).2]
  have hspan : ∀ (s : Text) (prev : Option UInt8), ¬ EndsInBy (s ++ w) →
      typeSpan prev (s ++ w) = typeSpan prev s ∨ typeSpan prev (s ++ w) = typeSpan prev s ++ w := by
    intro s
    induction s with
    | nil => exact fun prev _ => Or.inr (hblank w prev hink)
    | cons b s ih =>
      intro prev hby
      have hrest : ¬ EndsInBy (s ++ w) := by
        rintro ⟨a, g, h, v, heq, hg⟩
        exact hby ⟨b :: a, g, h, v, congrArg (b :: ·) heq, hg⟩
      have hword : w.head?.any isGap = false ∨ ∀ a g, isGap g → b :: s ≠ a ++ g :: utf8 "by" := by
        by_contra hcontra
        push Not at hcontra
        obtain ⟨hgap, a, g, hg, heq⟩ := hcontra
        cases hcase : w with
        | nil => simp [hcase] at hgap
        | cons h v =>
          refine hby ⟨a, g, h, v, ?_, hg, by simpa [hcase] using hgap, hcase ▸ hw⟩
          rw [heq, hcase, List.append_assoc, List.cons_append]
      have hstop := Stops.of_space hw
      have hends : typeEndsAt prev (b :: s ++ w) = typeEndsAt prev (b :: s) := by
        rw [typeEndsAt, typeEndsAt, delegateAt_stops hstop (by simp) hword,
          accessorAt_stops hstop (by decide) prev (by simp),
          accessorAt_stops hstop (by decide) prev (by simp)]
        rfl
      rw [List.cons_append] at hends
      rw [List.cons_append, typeSpan, typeSpan, hends]
      split
      · exact Or.inl rfl
      · exact (ih (some b) hrest).imp (congrArg (b :: ·)) (congrArg (b :: ·))
  have hbefore : beforeTopLevel (ascii '=') (s ++ (w ++ ascii '=' :: x)) = s ++ w := by
    rw [← List.append_assoc]
    exact beforeTopLevel_nested_append (hs.append hnested) (by decide) x
  rw [typeText, typeText, hbefore, beforeTopLevel_nested hs]
  rcases hspan s none hby with h | h
  · rw [h]
  · rw [h, trim_append_space hw]

/-! ### Properties -/

/-- The property that a text declares, with further annotations in front. -/
def propertyWith? (marks s : Text) : Option Field :=
  (leadingMarks? spaces (· ∈ modifiers) (trimEnd s)).bind fun x =>
    (typed? x.2).bind fun y => declared? (marks ++ x.1) y.1 (typeText y.2)

lemma propertyWith?_nil (s : Text) : propertyWith? [] s = property? s := (property?_eq s).symm

lemma propertyWith?_trimEnd (marks s : Text) :
    propertyWith? marks (trimEnd s) = propertyWith? marks s := by
  rw [propertyWith?, propertyWith?, trimEnd_trimEnd]

section Nested

variable {brackets : Brackets} {sep : UInt8 → Bool} {u : Text}

/-- A property in front of a stop is read without looking behind it. -/
lemma propertyWith?_stops (hB : suitsMarks brackets) (hu : Nested brackets sep u) {t : Text}
    (ht : Stops t) (htrim : trimEnd (u ++ t) = u ++ t) (marks : Text) :
    propertyWith? marks (u ++ t) = (leadingMarks? spaces (· ∈ modifiers) u).bind fun x =>
      (typed? x.2).bind fun y => declared? (marks ++ x.1) y.1 (typeText (y.2 ++ t)) := by
  have hnone : typed? (trimStart t) = none := by
    have hnil : typed? [] = none := by decide
    have hstop : Stops (trimStart t) := ⟨[], trimStart t, rfl, .nil, ht.trimStart_head?⟩
    rw [← List.nil_append (trimStart t), typed?_stops hstop, hnil, Option.map_none]
  rw [propertyWith?, htrim, leadingMarks?_append hB areCharacters_spaces areMarkBytes_spaces
    (by decide) hu ht.isTail, Option.bind_assoc]
  refine congrArg _ (funext fun x => ?_)
  by_cases hx : x.2 = []
  · have hnil : typed? [] = none := by decide
    rw [if_pos hx, ht.leadingMarks? (by decide), Option.map_some, Option.bind_some, hnone, hx, hnil]
    rfl
  · rw [if_neg hx, Option.bind_some, typed?_stops ht, Option.bind_map]
    rfl

/-- What stands in a block behind a property makes no difference. -/
lemma property?_brace (hB : suitsMarks brackets) (hu : Nested brackets sep u) (x : Text) :
    property? (u ++ ascii '\x7b' :: x) = property? (u ++ [ascii '\x7b']) := by
  have hread : ∀ x, property? (u ++ ascii '\x7b' :: x) =
      (leadingMarks? spaces (· ∈ modifiers) u).bind fun x =>
        (typed? x.2).bind fun y => declared? ([] ++ x.1) y.1 (typeText y.2) := by
    intro x
    have hink : isInk (ascii '\x7b') := by decide
    rw [← propertyWith?_nil, ← propertyWith?_trimEnd, trimEnd_append_ink hink,
      propertyWith?_stops hB hu (.cons (by decide) _)
        (by rw [trimEnd_append_ink hink, trimEnd_trimEnd])]
    simp only [typeText_brace]
  rw [hread, hread]

/-- What stands before the type of a property holds no bracket. -/
lemma exists_of_typed? {s : Text} {y : Text × Text} (h : typed? s = some y) :
    ∃ a, s = a ++ y.2 ∧ a.all isMarkByte := by
  have hspace : ∀ v, ∃ a, v = a ++ trimStart v ∧ a.all isMarkByte := by
    intro v
    obtain ⟨w, hw, hspace⟩ := exists_space_append v
    exact ⟨w, hw, isMarkByte_of_isSpace hspace⟩
  have hdrop : ∀ v : Text, (v.take (leadingIdent v).length).all isMarkByte := by
    intro v
    obtain ⟨r, hr, hall⟩ := exists_identAt (skipGaps v)
    have hsplit := List.takeWhile_append_dropWhile (p := isGap) (l := v)
    rw [← skipGaps, hr, ← leadingIdent, ← List.append_assoc] at hsplit
    have hlength : (leadingIdent v).length ≤ (v.takeWhile isGap ++ leadingIdent v).length := by simp
    have hbytes : (v.takeWhile isGap ++ leadingIdent v).all isMarkByte := by
      rw [List.all_append, Bool.and_eq_true, List.all_eq_true, List.all_eq_true]
      refine ⟨fun b hb => isMarkByte_of_isGap ?_, fun b hb => isMarkByte_of_isIdentPart ?_⟩
      · exact List.all_eq_true.mp List.all_takeWhile b hb
      · exact List.all_eq_true.mp hall b hb
    have htake : ((v.takeWhile isGap ++ leadingIdent v) ++ r).take (leadingIdent v).length =
        (v.takeWhile isGap ++ leadingIdent v).take (leadingIdent v).length :=
      List.take_append_of_le_length hlength
    rw [hsplit] at htake
    rw [htake]
    exact List.all_eq_true.mpr fun b hb => List.all_eq_true.mp hbytes b (List.mem_of_mem_take hb)
  simp only [typed?, Option.bind_eq_bind, Option.pure_def, Option.bind_eq_some_iff] at h
  obtain ⟨-, -, -, -, r, hr, hy⟩ := h
  obtain rfl := Option.some.inj hy
  generalize hv : trimStart (s.drop (leadingIdent s).length) = v at hr
  obtain ⟨a, ha, hspace₁⟩ := hspace (s.drop (leadingIdent s).length)
  obtain ⟨b, hb, hspace₂⟩ := hspace (v.drop (leadingIdent v).length)
  rw [hv] at ha
  rw [afterPrefix?_eq_some_iff.mp hr] at hb
  refine ⟨s.take (leadingIdent s).length ++ a ++ v.take (leadingIdent v).length ++ b ++ utf8 ":",
    ?_, ?_⟩
  · calc s = s.take (leadingIdent s).length ++ (a ++ v) := by rw [← ha, List.take_append_drop]
      _ = s.take (leadingIdent s).length ++ (a ++ (v.take (leadingIdent v).length ++
          (b ++ (utf8 ":" ++ r)))) := by rw [← hb, List.take_append_drop]
      _ = _ := by simp only [List.append_assoc]
  · have hcolon : (utf8 ":").all isMarkByte := by decide
    simp only [List.all_append, hdrop, hspace₁, hspace₂, hcolon, Bool.and_self]

/-- An initializer makes no difference to a property. -/
lemma propertyWith?_initializer (hu : Nested .grouping (· == ascii '=') u) (hby : ¬ EndsInBy u)
    (marks x : Text) : propertyWith? marks (u ++ ascii '=' :: x) = propertyWith? marks u := by
  have hB : suitsMarks .grouping := by decide
  obtain ⟨w, hw, hspace⟩ := exists_append_space u
  have hu' := nested_trimEnd hB hu
  have hequals : trimEnd (u ++ ascii '=' :: x) = trimEnd u ++ (w ++ ascii '=' :: trimEnd x) := by
    rw [trimEnd_append_ink (by decide), ← List.append_assoc, ← hw]
  have hbare := propertyWith?_stops hB hu' .nil (by rw [List.append_nil, trimEnd_trimEnd]) marks
  simp only [List.append_nil] at hbare
  rw [← propertyWith?_trimEnd, ← propertyWith?_trimEnd marks u, hequals,
    propertyWith?_stops hB hu' (.space_append hspace (.cons (by decide) _))
      (by rw [← hequals, trimEnd_trimEnd]), hbare]
  cases hmarks : leadingMarks? spaces (· ∈ modifiers) (trimEnd u) with
  | none => rfl
  | some r =>
    rw [Option.bind_some, Option.bind_some]
    cases htyped : typed? r.2 with
    | none => rfl
    | some y =>
      obtain ⟨a, ha, hall⟩ := exists_of_typed? htyped
      have hr := nested_of_leadingMarks? hB areCharacters_spaces areMarkBytes_spaces (by decide)
        hu' hmarks
      rw [ha] at hr
      have hy := Nested.of_plain_append (all_isPlain_of_isMarkByte hB hall) hr
      have hend : ¬ EndsInBy (y.2 ++ w) := by
        obtain ⟨b, hb⟩ := isSuffix_of_leadingMarks? hmarks
        rintro ⟨c, g, h, v, heq, hg⟩
        refine hby ⟨b ++ a ++ c, g, h, v, ?_, hg⟩
        rw [hw, ← hb, ha]
        simp [heq]
      rw [Option.bind_some, Option.bind_some, typeText_equals hy hspace hend]

end Nested

end DtoSchema.Declaration.Kotlin
