import DtoSchema.Proofs.Declaration.ElidedHeaders
import DtoSchema.Proofs.Declaration.Java.Class

/-!
# Fields of the Java dialect in texts with emptied strings

The statements of a class body and those of its elision correspond to each other, and corresponding
statements declare the same fields (`bodyFields_elides`).

A body is cut into pieces, and the quotes at which literals start need not be those of the strings:
a quote in front may have put them out of step.  So the scan is followed byte by byte, with the state
of the literal around the place (`scanIn`), and a string leaves it in a state that its content has no
part in.
-/

namespace DtoSchema.Declaration.Java

open Text Source

variable {ok : Text → Bool} {s r : Text}

/-! ### Statements -/

/-- The statements of a text that starts inside of a literal, given the statement begun so far. -/
def scanIn (q : Quoting) (begun s : Text) : List Text :=
  match q with
  | .code => scan begun s
  | q => scan (begun ++ s.take (literalWidth q s)) (s.drop (literalWidth q s))

lemma scan_plain {b : UInt8} (hquote : isQuote b = false) (hopen : b ≠ ascii '(')
    (hbrace : b ≠ ascii '\x7b') (hend : b ≠ ascii ';') (begun s : Text) :
    scan begun (b :: s) = scan (begun ++ [b]) s := by
  rw [scan, bodyPieces_byte hquote hopen hbrace, statementsFrom, if_neg hend, scan]

lemma scanIn_nil (q : Quoting) (begun : Text) : scanIn q begun [] = [] := by
  cases q <;> rfl

/-- A literal goes on, byte by byte, until it is closed. -/
lemma scanIn_literal {q : Quoting} (hq : q ≠ .code) (begun : Text) (b : UInt8) (s : Text) :
    scanIn q begun (b :: s) = scanIn (q.step b) (begun ++ [b]) s := by
  have hopen : scanIn q begun (b :: s) = scan (begun ++ (b :: s).take (literalWidth q (b :: s)))
      ((b :: s).drop (literalWidth q (b :: s))) := by
    cases q with
    | code => exact absurd rfl hq
    | _ => rfl
  rw [hopen, literalWidth]
  cases hstep : q.step b <;> simp [scanIn]

/-- A quote opens a literal. -/
lemma scanIn_quote {b : UInt8} (hb : isQuote b) (begun s : Text) :
    scanIn .code begun (b :: s) = scanIn (.inside b) (begun ++ [b]) s := by
  simp only [scanIn, scan, bodyPieces_quote hb, statementsFrom]
  simp

/-- A group in parentheses belongs to its statement. -/
lemma scan_group {s content rest : Text}
    (h : readBalanced? (ascii '(') (ascii ')') (ascii '(' :: s) = some (content, rest))
    (begun : Text) :
    scan begun (ascii '(' :: s) = scan (begun ++ ascii '(' :: (content ++ [ascii ')'])) rest := by
  rw [scan, bodyPieces_parens h, statementsFrom, scan]

/-- A parenthesis that is never closed is a byte of its statement. -/
lemma scan_open {s : Text} (h : readBalanced? (ascii '(') (ascii ')') (ascii '(' :: s) = none)
    (begun : Text) : scan begun (ascii '(' :: s) = scan (begun ++ [ascii '(']) s := by
  have hquote : isQuote (ascii '(') = false := by decide
  have hend : ascii '(' ≠ ascii ';' := by decide
  simp [scan, bodyPieces, bodyPiecesFrom, hquote, h, statementsFrom, hend]

/-- A block belongs to its statement behind an equals sign, and ends it otherwise. -/
lemma scan_brace {s content rest : Text}
    (h : readBalanced? (ascii '\x7b') (ascii '\x7d') (ascii '\x7b' :: s) = some (content, rest))
    (begun : Text) :
    scan begun (ascii '\x7b' :: s) =
      if (topLevelIndex? (ascii '=') begun).isSome then
        scan (begun ++ ascii '\x7b' :: (content ++ [ascii '\x7d'])) rest
      else scan [] rest := by
  rw [scan, bodyPieces_braces h, statementsFrom, scan, scan]

lemma scan_unclosed {s : Text}
    (h : readBalanced? (ascii '\x7b') (ascii '\x7d') (ascii '\x7b' :: s) = none) (begun : Text) :
    scan begun (ascii '\x7b' :: s) = [] := by
  have hquote : isQuote (ascii '\x7b') = false := by decide
  have hopen : ascii '\x7b' ≠ ascii '(' := by decide
  simp [scan, bodyPieces, bodyPiecesFrom, hquote, hopen, h, statementsFrom]

/-- A quote is part of a statement in every state. -/
lemma scanIn_string_quote (q : Quoting) (begun s : Text) :
    scanIn q begun (ascii '"' :: s) = scanIn (q.step (ascii '"')) (begun ++ [ascii '"']) s := by
  cases q with
  | code => exact scanIn_quote (by decide) begun s
  | inside q => exact scanIn_literal (by simp) begun _ s
  | escape q => exact scanIn_literal (by simp) begun _ s

lemma scanIn_inert {q : Quoting} (hq : q.isProper) (hs : q.isSettled) {c : Text}
    (hc : c.all isInert) (begun t : Text) : scanIn q begun (c ++ t) = scanIn q (begun ++ c) t := by
  induction c generalizing begun with
  | nil => simp
  | cons b c ih =>
    simp only [List.all_cons, Bool.and_eq_true] at hc
    have hstep : scanIn q begun (b :: (c ++ t)) = scanIn q (begun ++ [b]) (c ++ t) := by
      by_cases hcode : q = .code
      · subst hcode
        exact scan_plain (ne_of_isInert hc.1).1 (ne_of_class hc.1 (by decide))
          (ne_of_class hc.1 (by decide)) (ne_of_class hc.1 (by decide)) begun (c ++ t)
      · rw [scanIn_literal hcode, Quoting.step_inert hq hs hc.1]
    rw [List.cons_append, hstep, ih hc.2]
    simp

lemma scanIn_string {q : Quoting} (hq : q.isProper) {c : Text} (hc : c.all isInert)
    (begun t : Text) : scanIn q begun (ascii '"' :: (c ++ ascii '"' :: t)) =
      scanIn ((q.step (ascii '"')).step (ascii '"')) (begun ++ ascii '"' :: (c ++ [ascii '"'])) t := by
  have hproper := Quoting.isProper_step hq (ascii '"')
  have hsettled := q.isSettled_step (b := ascii '"') (by decide)
  rw [scanIn_string_quote, scanIn_inert hproper hsettled hc, scanIn_string_quote]
  simp

/-- The statements of a text and of its elision correspond to each other. -/
theorem scanIn_elides (h : Elides ok .kept s r) {q : Quoting} (hq : q.isProper)
    {begun begun' : Text} (hbegun : Elides ok .kept begun begun') :
    List.Forall₂ (Elides ok .kept) (scanIn q begun s) (scanIn q begun' r) := by
  induction hn : s.length using Nat.strong_induction_on generalizing s r q begun begun' with
  | _ n ih =>
    cases h with
    | nil =>
      rw [scanIn_nil, scanIn_nil]
      exact .nil
    | @byte _ b s r h =>
      rw [Spacing.next_kept] at h
      simp only [List.length_cons] at hn
      have hbyte : Elides ok .kept (b :: s) (b :: r) := .byte b h
      have hadd : Elides ok .kept (begun ++ [b]) (begun' ++ [b]) := hbegun.append (.refl _)
      by_cases hcode : q = .code
      · subst hcode
        by_cases hquote : isQuote b
        · rw [scanIn_quote hquote, scanIn_quote hquote]
          exact ih s.length (by omega) h (q := .inside b) hquote hadd rfl
        by_cases hopen : b = ascii '('
        · subst hopen
          simp only [scanIn]
          rcases rel_cases hbyte.parens with ⟨hs, hr⟩ | ⟨⟨x, s'⟩, ⟨y, r'⟩, hs, hr, hxy, h'⟩
          · rw [scan_open hs, scan_open hr]
            exact ih s.length (by omega) h (q := .code) rfl hadd rfl
          · rw [scan_group hs, scan_group hr]
            have hlength := congrArg List.length (eq_of_readBalanced? hs)
            simp only [List.length_cons, List.length_append] at hlength
            exact ih s'.length (by omega) h' (q := .code) rfl
              (hbegun.append (.byte _ (hxy.append (.refl _)))) rfl
        by_cases hbrace : b = ascii '\x7b'
        · subst hbrace
          simp only [scanIn]
          rcases rel_cases hbyte.braces with ⟨hs, hr⟩ | ⟨⟨x, s'⟩, ⟨y, r'⟩, hs, hr, hxy, h'⟩
          · rw [scan_unclosed hs, scan_unclosed hr]
            exact .nil
          · have hequals := (hbegun.topLevel (show isInert (ascii '=') = false by decide)).1
            have hlength := congrArg List.length (eq_of_readBalanced? hs)
            simp only [List.length_cons, List.length_append] at hlength
            rw [scan_brace hs, scan_brace hr, hequals]
            split
            · exact ih s'.length (by omega) h' (q := .code) rfl
                (hbegun.append (.byte _ (hxy.append (.refl _)))) rfl
            · exact ih s'.length (by omega) h' (q := .code) rfl .nil rfl
        by_cases hend : b = ascii ';'
        · subst hend
          simp only [scanIn, scan_semicolon]
          exact .cons hbegun (ih s.length (by omega) h (q := .code) rfl .nil rfl)
        · simp only [scanIn, scan_plain (by simpa using hquote) hopen hbrace hend]
          exact ih s.length (by omega) h (q := .code) rfl hadd rfl
      · rw [scanIn_literal hcode, scanIn_literal hcode]
        exact ih s.length (by omega) h (Quoting.isProper_step hq b) hadd rfl
    | @string _ c s r hc hok h =>
      have hempty := scanIn_string hq (c := []) rfl begun' r
      simp only [List.nil_append] at hempty
      rw [scanIn_string hq hc, hempty]
      simp only [List.length_cons, List.length_append] at hn
      refine ih s.length (by omega) h (Quoting.isProper_step (Quoting.isProper_step hq _) _) ?_ rfl
      exact hbegun.append (.string hc hok .nil)

lemma statements_elides (h : Elides ok .kept s r) :
    List.Forall₂ (Elides ok .kept) (statements s) (statements r) :=
  scanIn_elides h (q := .code) rfl .nil

/-! ### Declarators -/

lemma dropInitializer_elides (h : Elides ok .kept s r) :
    Elides ok .kept (dropInitializer s) (dropInitializer r) :=
  (h.beforeTopLevel (by decide)).trim

/-- The text without the byte `b` at its end. -/
def dropByte? (b : UInt8) (s : Text) : Option Text :=
  if s.getLast? = some b then some s.dropLast else none

lemma dropPair?_eq (s : Text) :
    dropPair? s = (dropByte? (ascii ']') s).bind fun s => dropByte? (ascii '[') (trim s) := by
  cases s using List.reverseRecOn with
  | nil => rfl
  | append_singleton s c =>
    by_cases hc : c = ascii ']'
    · subst hc
      simp only [dropPair?, dropByte?, List.reverse_append, List.reverse_cons, List.reverse_nil,
        List.nil_append, List.singleton_append, if_true, List.reverse_reverse,
        List.getLast?_append, List.getLast?_singleton, Option.some_or, List.dropLast_concat,
        Option.bind_some]
      cases trim s using List.reverseRecOn with
      | nil => rfl
      | append_singleton t d => by_cases hd : d = ascii '[' <;> simp [hd]
    · simp [dropPair?, dropByte?, hc]

lemma dropByte?_elides {b : UInt8} (hb : b ≠ ascii '"') (h : Elides ok .kept s r) :
    Option.Rel (Elides ok .kept) (dropByte? b s) (dropByte? b r) := by
  unfold dropByte?
  rw [h.getLast?_eq]
  split
  · next hlast =>
    have hrev := h.reverse.tail (c := b) (by rw [List.head?_reverse, h.getLast?_eq, hlast]) hb
    refine .some (Elides.of_reverse ?_)
    simpa using hrev
  · exact .none

lemma length_of_dropByte? {b : UInt8} {t : Text} (h : dropByte? b s = some t) :
    t.length < s.length := by
  unfold dropByte? at h
  split at h
  · next hlast =>
    obtain rfl := Option.some.inj h
    have hpos : 0 < s.length := List.length_pos_iff.mpr (by rintro rfl; simp at hlast)
    rw [List.length_dropLast]
    omega
  · simp at h

/-- The same bracket pairs stand at the ends of a text and its elision. -/
lemma dropPairs_elides {limit limit' : ℕ} (h : Elides ok .kept s r) (hs : s.length ≤ limit)
    (hr : r.length ≤ limit') :
    Elides ok .kept (dropPairs limit s).1 (dropPairs limit' r).1 ∧
      (dropPairs limit s).2 = (dropPairs limit' r).2 := by
  have hpair : ∀ {s r : Text}, Elides ok .kept s r →
      Option.Rel (Elides ok .kept) (dropPair? s) (dropPair? r) := by
    intro s r h
    rw [dropPair?_eq, dropPair?_eq]
    exact rel_bind (dropByte?_elides (by decide) h) fun _ _ h => dropByte?_elides (by decide) h.trim
  have hlength : ∀ {s t : Text}, dropPair? (trim s) = some t → t.length < s.length := by
    intro s t h
    rw [dropPair?_eq, Option.bind_eq_some_iff] at h
    obtain ⟨u, hu, ht⟩ := h
    have h₁ := length_of_dropByte? hu
    have h₂ := length_of_dropByte? ht
    have h₃ := (trim_sublist s).length_le
    have h₄ := (trim_sublist u).length_le
    omega
  -- without a pair at the end, the limit does not matter
  have hstop : ∀ {t : Text} (limit : ℕ), dropPair? (trim t) = none →
      dropPairs limit t = (trim t, 0) := by
    intro t limit ht
    cases limit with
    | zero => rfl
    | succ limit => simp only [dropPairs, ht]
  induction limit generalizing s r limit' with
  | zero =>
    obtain rfl : s = [] := by simpa using hs
    obtain rfl := h.eq_nil_iff.mp rfl
    rw [hstop 0 rfl, hstop limit' rfl]
    exact ⟨.nil, rfl⟩
  | succ limit ih =>
    rcases rel_cases (hpair h.trim) with ⟨hnones, hnoner⟩ | ⟨s', r', hsomes, hsomer, h'⟩
    · rw [hstop _ hnones, hstop _ hnoner]
      exact ⟨h.trim, rfl⟩
    · have hs' := hlength hsomes
      have hr' := hlength hsomer
      cases limit' with
      | zero => omega
      | succ limit' =>
        obtain ⟨htext, hcount⟩ := ih h' (by omega) (show r'.length ≤ limit' by omega)
        simp only [dropPairs, hsomes, hsomer]
        exact ⟨htext, by rw [hcount]⟩

lemma splitPairs_elides (h : Elides ok .kept s r) :
    Elides ok .kept (splitPairs s).1 (splitPairs r).1 ∧ (splitPairs s).2 = (splitPairs r).2 :=
  dropPairs_elides h le_rfl le_rfl

/-- An identifier is its own elision, and the elision of no other text. -/
lemma isIdent_elides (h : Elides ok .kept s r) : isIdent s = isIdent r ∧ (isIdent s → s = r) := by
  have hsteady : ∀ {t : Text}, isIdent t → Elides.isSteady t := fun ht =>
    isSteady_of_isIdentPart (all_isIdentPart_of_isIdent ht)
  have hiff : isIdent s ↔ isIdent r :=
    ⟨fun hs => h.eq_of_isSteady (Or.inl (hsteady hs)) ▸ hs,
      fun hr => h.eq_of_isSteady (Or.inr (hsteady hr)) ▸ hr⟩
  exact ⟨Bool.eq_iff_iff.mpr hiff, fun hs => h.eq_of_isSteady (Or.inl (hsteady hs))⟩

/-- What stands before the name at the end of a text. -/
lemma take_length_sub_name (s : Text) :
    s.take (s.length - (s.reverse.takeWhile isIdentPart).reverse.length) =
      dropWhileEnd isIdentPart s := by
  have hsplit : s = dropWhileEnd isIdentPart s ++ (s.reverse.takeWhile isIdentPart).reverse := by
    rw [dropWhileEnd, ← List.reverse_append, List.takeWhile_append_dropWhile, List.reverse_reverse]
  have htake := take_length_sub (dropWhileEnd isIdentPart s)
    (s.reverse.takeWhile isIdentPart).reverse
  rwa [← hsplit] at htake

/-- The same name and number of pairs stand behind corresponding types. -/
lemma typeAndName?_elides (h : Elides ok .kept s r) :
    Option.Rel (fun x y => Elides ok .kept x.1 y.1 ∧ x.2 = y.2) (typeAndName? s)
      (typeAndName? r) := by
  obtain ⟨htext, hpairs⟩ := splitPairs_elides h
  have hname : (splitPairs s).1.reverse.takeWhile isIdentPart =
      (splitPairs r).1.reverse.takeWhile isIdentPart := htext.reverse.takeWhile_kept (by decide)
  have htype := (htext.dropWhileEnd (p := isIdentPart) (by decide)).trim
  have hempty := htype.eq_nil_iff
  have htake := take_length_sub_name (splitPairs s).1
  rw [hname] at htake
  simp only [typeAndName?, hname, hpairs, htake, take_length_sub_name]
  split
  · next hcond =>
    rw [if_pos ⟨hcond.1, fun hr => hcond.2 (hempty.mpr hr)⟩]
    exact .some ⟨htype, rfl⟩
  · next hcond =>
    rw [if_neg fun hr => hcond ⟨hr.1, fun hs => hr.2 (hempty.mp hs)⟩]
    exact .none

lemma nameAndPairs?_elides (h : Elides ok .kept s r) : nameAndPairs? s = nameAndPairs? r := by
  obtain ⟨htext, hpairs⟩ := splitPairs_elides h
  obtain ⟨hident, heq⟩ := isIdent_elides htext
  simp only [nameAndPairs?, hpairs]
  by_cases hs : isIdent (splitPairs s).1
  · rw [heq hs]
  · rw [if_neg hs, if_neg (hident ▸ hs)]

/-! ### Fields -/

lemma hasCall_string {c : Text} (hc : c.all isInert) (t : Text) :
    hasCall (ascii '"' :: (c ++ ascii '"' :: t)) = hasCall t := by
  have hquote : ∀ t : Text, hasCall (ascii '"' :: t) = hasCall t := fun t => by
    rw [hasCall, callAt, show isIdentStart (ascii '"') = false by decide, Bool.false_and,
      Bool.false_or]
  rw [hquote, ← hquote t]
  induction c with
  | nil => rfl
  | cons b c ih =>
    simp only [List.all_cons, Bool.and_eq_true] at hc
    obtain ⟨d, hd, heq⟩ := exists_dropWhile_string (p := isIdentPart) (by decide) hc.2 t
    have hcall : callAt (b :: (c ++ ascii '"' :: t)) = false := by
      rw [callAt, heq, beq_eq_false_iff_ne.mpr (head?_skipGaps_string hd t), Bool.and_false]
    rw [List.cons_append, hasCall, hcall, Bool.false_or, ih hc.2]

/-- A text declares a method if its elision does. -/
lemma hasCall_elides (h : Elides ok .kept s r) : hasCall s = hasCall r := by
  generalize hm : Spacing.kept = m at h
  induction h with
  | nil => rfl
  | @byte m b s r h ih =>
    subst hm
    have hrest := (h.dropWhile (p := isIdentPart) (by decide)).skipGaps.head?_eq
    rw [hasCall, hasCall, ih rfl, callAt, callAt, hrest]
  | @string m c s r hc _ _ ih =>
    have hempty := hasCall_string (c := []) rfl r
    rw [List.nil_append] at hempty
    rw [hasCall_string hc, hempty, ih (by rw [← hm]; rfl)]
  | blanks => simp at hm

lemma isOptionalType_elides (h : Elides ok .kept s r) : isOptionalType s = isOptionalType r := by
  have hpackage : Elides ok .kept ((afterPrefix? "java.util." s).getD s)
      ((afterPrefix? "java.util." r).getD r) := by
    have hrel := h.afterPrefix? (p := utf8 "java.util.") (by decide)
    rw [Spacing.foldl_kept] at hrel
    rcases rel_cases hrel with ⟨hs, hr⟩ | ⟨s', r', hs, hr, h'⟩
    · rwa [hs, hr]
    · rwa [hs, hr]
  have hrel := hpackage.afterPrefix? (p := utf8 "Optional") (by decide)
  unfold isOptionalType
  rcases rel_cases hrel with ⟨hs, hr⟩ | ⟨s', r', hs, hr, h'⟩
  · simp only [hs, hr]
  · simp only [hs, hr, h'.skipGaps.head?_eq]

lemma modifiers_nil : ([] : Text) ∉ modifiers := by decide

/-- A statement and its elision declare the same fields. -/
theorem statementFields_elides (h : Elides isProse .kept s r) :
    List.Forall₂ SameField (statementFields s) (statementFields r) := by
  have hmarks : Option.Rel _ (leadingMarks? spaces (· ∈ modifiers) (trimEnd s))
      (leadingMarks? spaces (· ∈ modifiers) (trimEnd r)) :=
    leadingMarks?_elides Elides.areSpaces_spaces (by simpa using modifiers_nil) h.trimEnd
  rcases rel_cases hmarks with ⟨hs, hr⟩ | ⟨⟨marks, s'⟩, ⟨marks', r'⟩, hs, hr, hmark, hrest, -⟩
  · simp only [statementFields, hs, hr]
    exact .nil
  simp only [Spacing.base_kept, Spacing.most_kept] at hmark hrest
  have hcall := hasCall_elides (hrest.beforeTopLevel (show isInert (ascii '=') = false by decide))
  have hparts := hrest.splitTopLevel (show isInert (ascii ',') = false by decide)
  simp only [statementFields, hs, hr, hrest.leadingIdent_eq, hcall]
  split
  · exact .nil
  generalize splitTopLevel (ascii ',') s' = xs at hparts ⊢
  generalize splitTopLevel (ascii ',') r' = ys at hparts ⊢
  cases hparts with
  | nil => exact .nil
  | @cons x y xs ys hxy hmore =>
    rcases rel_cases (typeAndName?_elides (dropInitializer_elides hxy)) with ⟨hx, hy⟩ |
      ⟨⟨type, name, pairs⟩, ⟨type', name', pairs'⟩, hx, hy, htype, heq⟩
    · simp only [hx, hy]
      exact .nil
    · obtain ⟨rfl, rfl⟩ := Prod.mk.inj heq
      have hfield : ∀ (name : Text) (pairs : ℕ),
          SameField (Field.declare name (arrayOf type pairs)
              ((Constraints.ofJava marks).nullable || isOptionalType type)
              (Constraints.ofJava marks))
            (Field.declare name (arrayOf type' pairs)
              ((Constraints.ofJava marks').nullable || isOptionalType type')
              (Constraints.ofJava marks')) := fun name pairs =>
        ⟨rfl, htype.append (.refl _), by
          simp only [Field.declare, nullable_ofJava hmark, isOptionalType_elides htype]⟩
      have hnames : xs.filterMap (nameAndPairs? ∘ dropInitializer) =
          ys.filterMap (nameAndPairs? ∘ dropInitializer) := by
        rw [← List.forall₂_eq_eq_eq]
        refine List.rel_filterMap (R := Elides isProse .kept) ?_ hmore
        exact fun x y h => rel_of_eq (nameAndPairs?_elides (dropInitializer_elides h))
      simp only [hx, hy, hnames]
      refine .cons (hfield name pairs) ?_
      rw [List.forall₂_map_left_iff, List.forall₂_map_right_iff, List.forall₂_same]
      exact fun p _ => hfield p.1 p.2

/-- A class body and its elision declare the same fields. -/
theorem bodyFields_elides (h : Elides isProse .kept s r) :
    List.Forall₂ SameField (bodyFields s) (bodyFields r) :=
  List.rel_flatMap (statements_elides h) fun _ _ h => statementFields_elides h

/-! ### Classes -/

/-- The class that a header introduces, with all fields that are declared in it. -/
def declaredAt? (o : Occurrence Text) : Option ClassDecl :=
  if isMember o.before || wordBefore o.before == utf8 "enum" then none
  else (body? o.after).map fun body => ⟨o.value, bodyFields body⟩

/-- The classes of a source as they are declared, before fields are chosen and classes merged. -/
def declared (s : Text) : List ClassDecl := (occurrences classHeader? s).filterMap declaredAt?

lemma classes_eq_coalesce (s : Text) :
    classes s = coalesce ((declared s).map fun c => ⟨c.name, dedupFields c.fields⟩) := by
  have hat : ∀ o : Occurrence Text,
      classAt? o = (declaredAt? o).map fun c => ⟨c.name, dedupFields c.fields⟩ := by
    intro o
    unfold classAt? declaredAt?
    split
    · rfl
    · cases body? o.after <;> rfl
  rw [classes, declared, List.map_filterMap, funext hat]

lemma isRegular_classHeader? : IsRegular classHeader? :=
  isRegular_header? (by decide) (by decide) (by decide) (by decide) (by decide) (by decide)

/-- A text and its elision declare the same classes. -/
theorem declared_elides (h : Elides isProse .kept s r) :
    List.Forall₂ (ClassDecl.Related (List.Forall₂ SameField)) (declared s) (declared r) := by
  refine List.rel_filterMap (R := SamePlace isProse) ?_ (occurrences_elides isRegular_classHeader? h)
  intro o p hplace
  unfold declaredAt?
  rw [isMember_elides hplace.before, wordBefore_elides hplace.before]
  split
  · exact .none
  · refine rel_map (body?_elides hplace.after) fun body body' hbody => ?_
    exact ⟨hplace.value, bodyFields_elides hbody⟩

end DtoSchema.Declaration.Java
