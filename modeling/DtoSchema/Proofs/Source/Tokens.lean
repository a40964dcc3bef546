import DtoSchema.Proofs.Source.Normalization

/-!
# Tokens

When comments are looked for, a text is read as a list of tokens: literals, comments and single
bytes.  `Token.fits` says in front of which texts a token may stand.  Every text is made of tokens
that fit what follows them (`exists_isLexed`), and there is one such list only (`isLexed_unique`).

Removing the comments leaves the other tokens (`stripComments_texts`), and these are the tokens of
what is left (`isLexed_code`): a slash in front of a comment would have opened a comment itself, so
nothing that comes together opens a new one.
-/

namespace DtoSchema.Source

open Text

/-! ### The tokens of a text -/

/-- A token of a text. -/
inductive Token where
  /-- A literal: its opening quote, and what follows up to its end. -/
  | literal (quote : UInt8) (body : Text)
  /-- A comment that two slashes open, and the text behind them. -/
  | lineComment (content : Text)
  /-- A comment that a slash and a star open, the text behind them, and whether a star and a slash
  close it. -/
  | blockComment (content : Text) (closed : Bool)
  /-- Any other byte. -/
  | byte (b : UInt8)
  deriving DecidableEq, Repr

/-- The bytes of a literal that are not escaped.  A backslash escapes the byte behind it, whatever
that is: neither an escaped quote nor an escaped line feed ends a literal. -/
def unescaped : Text → Text
  | [] => []
  | b :: s =>
    if b = ascii '\\' then
      match s with
      | [] => []
      | _ :: s => unescaped s
    else b :: unescaped s

/-- The byte ends a literal where it is not escaped: it is the quote or a line feed. -/
def endsLiteral (quote b : UInt8) : Bool := b == quote || b == ascii '\n'

/-- The mark that closes a comment, if it is closed. -/
def closingMark (closed : Bool) : Text := onlyIf closed "*/"

namespace Token

/-- The token as it stands in the text. -/
def text : Token → Text
  | literal quote body => quote :: body
  | lineComment content => ascii '/' :: ascii '/' :: content
  | blockComment content closed => ascii '/' :: ascii '*' :: (content ++ closingMark closed)
  | byte b => [b]

/-- The token may stand in front of the text `rest`.

A literal reaches up to its first byte that ends it and is not escaped, or to the end of the text; a
comment of a line reaches to the end of the line; another comment reaches to the first mark that
closes it, or to the end of the text.  A byte is no quote and opens no comment together with what
follows. -/
def fits : Token → (rest : Text) → Prop
  | literal quote body, rest =>
    isQuote quote ∧ (∀ b ∈ unescaped body.dropLast, endsLiteral quote b = false) ∧
      ((∃ b ∈ unescaped body, endsLiteral quote b = true) ∨ rest = [])
  | lineComment content, rest =>
    ascii '\n' ∉ content ∧ (rest.head? = some (ascii '\n') ∨ rest = [])
  | blockComment content closed, rest =>
    ¬ utf8 "*/" <:+: content ∧ (closed = true ∨ rest = [])
  | byte b, rest =>
    isQuote b = false ∧
      (b = ascii '/' → rest.head? ≠ some (ascii '/') ∧ rest.head? ≠ some (ascii '*'))

/-- The token is a comment. -/
def isComment : Token → Bool
  | lineComment _ | blockComment _ _ => true
  | _ => false

/-- The text that is made of the tokens. -/
def texts (ts : List Token) : Text := ts.flatMap text

/-- The tokens without the comments. -/
def code (ts : List Token) : List Token := ts.filter (!·.isComment)

/-- The tokens are those of the text that they make: each of them fits what follows. -/
def IsLexed : List Token → Prop
  | [] => True
  | t :: ts => t.fits (texts ts) ∧ IsLexed ts

/-- The second token is the first one, a comment, with another text that does not end it. -/
inductive Reworded : Token → Token → Prop
  | line {content content' : Text} :
      ascii '\n' ∉ content' → Reworded (lineComment content) (lineComment content')
  | block {content content' : Text} {closed : Bool} :
      ¬ utf8 "*/" <:+: content' → Reworded (blockComment content closed)
        (blockComment content' closed)

variable {t t' : Token} {ts us : List Token} {q b : UInt8} {s r body content x : Text}

@[simp] lemma texts_nil : texts [] = [] := rfl

@[simp] lemma texts_cons (t : Token) (ts : List Token) : texts (t :: ts) = t.text ++ texts ts :=
  rfl

lemma unescaped_cons (hb : b ≠ ascii '\\') (s : Text) : unescaped (b :: s) = b :: unescaped s := by
  cases s <;> simp [unescaped, hb]

lemma unescaped_dropLast_escape (b : UInt8) (s : Text) :
    unescaped (ascii '\\' :: b :: s).dropLast = unescaped s.dropLast := by
  cases s <;> rfl

lemma unescaped_dropLast_cons (hb : b ≠ ascii '\\') (hs : s ≠ []) :
    unescaped (b :: s).dropLast = b :: unescaped s.dropLast := by
  rw [List.dropLast_cons_of_ne_nil hs, unescaped_cons hb]

lemma text_ne_nil (t : Token) : t.text ≠ [] := by
  cases t <;> simp [text]

lemma texts_eq_nil_iff : texts ts = [] ↔ ts = [] := by
  cases ts with
  | nil => simp
  | cons t ts => simp [text_ne_nil]

/-- The first bytes of a text come from its first token. -/
lemma head?_texts_cons (t : Token) (ts : List Token) : (texts (t :: ts)).head? = t.text.head? := by
  rw [texts_cons, List.head?_append_of_ne_nil _ t.text_ne_nil]

lemma head?_text_of_isComment (h : t.isComment) : t.text.head? = some (ascii '/') := by
  cases t with
  | lineComment => rfl
  | blockComment => rfl
  | literal => simp [isComment] at h
  | byte => simp [isComment] at h

/-! ### What is removed -/

/-- A literal is copied up to its end. -/
lemma stripFrom_literal_body (hstart : ∀ b ∈ unescaped body.dropLast, endsLiteral q b = false)
    (hend : (∃ b ∈ unescaped body, endsLiteral q b = true) ∨ r = []) :
    stripFrom (.literal q) (body ++ r) = body ++ stripFrom .code r := by
  fun_induction unescaped body with
  | case1 =>
    obtain rfl : r = [] := by simpa using hend
    rfl
  | case2 =>
    obtain rfl : r = [] := by simpa using hend
    rfl
  | case3 c s ih =>
    rw [unescaped_dropLast_escape] at hstart
    rw [List.cons_append, List.cons_append, stripFrom, if_pos rfl, stripFrom, ih hstart hend]
    rfl
  | case4 b s hb ih =>
    by_cases hq : endsLiteral q b
    · -- the byte ends the literal, so it is the last one
      have hnil : s = [] := by
        by_contra hs
        rw [unescaped_dropLast_cons hb hs] at hstart
        simp [hstart b (by simp)] at hq
      have hclose : b = q ∨ b = ascii '\n' := by simpa [endsLiteral] using hq
      rw [hnil, List.cons_append, stripFrom, if_neg hb, if_pos hclose]
      rfl
    · have hopen : ¬ (b = q ∨ b = ascii '\n') := by simpa [endsLiteral] using hq
      have hrest : ∀ c ∈ unescaped s.dropLast, endsLiteral q c = false := by
        by_cases hs : s = []
        · simp [hs, unescaped]
        · rw [unescaped_dropLast_cons hb hs] at hstart
          exact fun c hc => hstart c (List.mem_cons_of_mem b hc)
      have hend' : (∃ c ∈ unescaped s, endsLiteral q c = true) ∨ r = [] := by
        simpa [hq] using hend
      rw [List.cons_append, stripFrom, if_neg hb, if_neg hopen, ih hrest hend']
      rfl

lemma closingMark_true : closingMark true = [ascii '*', ascii '/'] := by decide

lemma closingMark_false : closingMark false = [] := rfl

/-- The mark that closes a comment at the start of a text. -/
lemma mark_start_iff : utf8 "*/" <+: b :: s ↔ b = ascii '*' ∧ s.head? = some (ascii '/') := by
  have hmark : utf8 "*/" = [ascii '*', ascii '/'] := by decide
  rw [hmark, List.cons_prefix_cons, eq_comm]
  cases s with
  | nil => simp
  | cons c s => simp [List.cons_prefix_cons, eq_comm]

lemma not_mark_cons (h : ¬ utf8 "*/" <:+: b :: content) :
    ¬ (b = ascii '*' ∧ content.head? = some (ascii '/')) ∧ ¬ utf8 "*/" <:+: content := by
  rwa [List.infix_cons_iff, not_or, mark_start_iff] at h

/-- A comment is removed up to the mark that closes it. -/
lemma stripFrom_block {closed : Bool} (hmark : ¬ utf8 "*/" <:+: content)
    (hend : closed = true ∨ r = []) :
    stripFrom .blockComment (content ++ closingMark closed ++ r) = stripFrom .code r := by
  induction content with
  | nil =>
    cases closed with
    | true => rfl
    | false =>
      obtain rfl : r = [] := by simpa using hend
      rfl
  | cons b content ih =>
    obtain ⟨hfirst, hrest⟩ := not_mark_cons hmark
    have hpass : b ≠ ascii '*' ∨ (content ++ closingMark closed ++ r).head? ≠ some (ascii '/') := by
      cases content with
      | cons c content => simpa [imp_iff_not_or] using hfirst
      | nil =>
        refine Or.inr ?_
        rcases hend with rfl | rfl
        · simp [closingMark_true]
          decide
        · cases closed <;> decide
    rw [List.cons_append, List.cons_append, stripFrom_blockComment_byte hpass, ih hrest]

/-- A comment is removed up to the end of the line. -/
lemma stripFrom_line (hmem : ascii '\n' ∉ content)
    (hend : r.head? = some (ascii '\n') ∨ r = []) :
    stripFrom .lineComment (content ++ r) = stripFrom .code r := by
  rw [stripFrom_lineComment hmem]
  cases r with
  | nil => rfl
  | cons b r =>
    obtain rfl : b = ascii '\n' := by simpa using hend
    rw [stripFrom, if_pos rfl, stripFrom_code_byte (by decide) (by decide)]

/-- One token: a comment is removed, and every other one is copied. -/
lemma stripFrom_text (h : t.fits r) :
    stripFrom .code (t.text ++ r) = (if t.isComment then [] else t.text) ++ stripFrom .code r := by
  cases t with
  | literal q body =>
    obtain ⟨hq, hstart, hend⟩ := h
    rw [text, List.cons_append, stripFrom_quote hq, stripFrom_literal_body hstart hend]
    rfl
  | lineComment content =>
    rw [text, List.cons_append, stripFrom_slash]
    exact stripFrom_line h.1 h.2
  | blockComment content closed =>
    rw [text, List.cons_append, stripFrom_slash]
    exact stripFrom_block h.1 h.2
  | byte b =>
    obtain ⟨hq, hslash⟩ := h
    by_cases hb : b = ascii '/'
    · obtain ⟨hline, hblock⟩ := hslash hb
      rw [hb, text, List.singleton_append, stripFrom_slash, if_neg hline, if_neg hblock]
      rfl
    · rw [text, List.singleton_append, stripFrom_code_byte hq hb]
      rfl

/-- The comments are removed, and the other tokens are copied. -/
lemma stripComments_texts (h : IsLexed ts) : stripComments (texts ts) = texts (code ts) := by
  unfold stripComments
  induction ts with
  | nil => rfl
  | cons t ts ih =>
    rw [texts_cons, stripFrom_text h.1, ih h.2]
    cases ht : t.isComment <;> simp [code, ht]

/-! ### What is left -/

/-- Whether a token fits depends on the next byte only. -/
lemma fits_congr (hhead : s.head? = r.head?) (h : t.fits s) : t.fits r := by
  have hnil : s = [] → r = [] := by
    rintro rfl
    simpa using hhead.symm
  cases t with
  | literal => exact ⟨h.1, h.2.1, h.2.2.imp_right hnil⟩
  | lineComment => exact ⟨h.1, h.2.imp (hhead ▸ ·) hnil⟩
  | blockComment => exact ⟨h.1, h.2.imp_right hnil⟩
  | byte => exact ⟨h.1, hhead ▸ h.2⟩

/-- A token that is no comment fits what follows it also when the comments are gone. -/
lemma fits_code (ht : t.isComment = false) (h : t.fits (texts ts)) : t.fits (texts (code ts)) := by
  have hnil : texts ts = [] → texts (code ts) = [] := by
    intro hempty
    rw [texts_eq_nil_iff.mp hempty]
    rfl
  cases t with
  | literal => exact ⟨h.1, h.2.1, h.2.2.imp_right hnil⟩
  | lineComment => simp [isComment] at ht
  | blockComment => simp [isComment] at ht
  | byte b =>
    refine ⟨h.1, fun hb => ?_⟩
    -- no comment follows a slash, so the next token stays
    obtain ⟨hline, hblock⟩ := h.2 hb
    cases ts with
    | nil => simp [code]
    | cons t ts =>
      rw [head?_texts_cons] at hline hblock
      have hkeep : t.isComment = false := by
        by_contra hcomment
        exact hline (head?_text_of_isComment (by simpa using hcomment))
      have hcode : code (t :: ts) = t :: code ts := by simp [code, hkeep]
      rw [hcode, head?_texts_cons]
      exact ⟨hline, hblock⟩

/-- What is left when the comments are removed are the tokens of the text that is left. -/
lemma isLexed_code (h : IsLexed ts) : IsLexed (code ts) := by
  induction ts with
  | nil => exact trivial
  | cons t ts ih =>
    cases ht : t.isComment with
    | true => simpa [code, ht] using ih h.2
    | false =>
      have hcode : code (t :: ts) = t :: code ts := by simp [code, ht]
      rw [hcode]
      exact ⟨fits_code ht h.1, ih h.2⟩

lemma code_code (ts : List Token) : code (code ts) = code ts := by
  simp [code]

/-- A comment with another text fits in its place. -/
lemma isLexed_reworded (hword : Reworded t t') (h : IsLexed (us ++ t :: ts)) :
    IsLexed (us ++ t' :: ts) := by
  have hhead : t'.text.head? = t.text.head? := by cases hword <;> rfl
  induction us with
  | nil =>
    refine ⟨?_, h.2⟩
    cases hword with
    | line hmem => exact ⟨hmem, h.1.2⟩
    | block hmark => exact ⟨hmark, h.1.2⟩
  | cons u us ih =>
    refine ⟨fits_congr ?_ h.1, ih h.2⟩
    cases us with
    | nil => exact (head?_texts_cons t ts).trans (hhead.symm.trans (head?_texts_cons t' ts).symm)
    | cons v us => exact (head?_texts_cons v _).trans (head?_texts_cons v _).symm

lemma code_reworded (hword : Reworded t t') (us ts : List Token) :
    code (us ++ t' :: ts) = code (us ++ t :: ts) := by
  cases hword <;> simp [code, isComment]

/-! ### There are tokens -/

lemma exists_literal (q : UInt8) (s : Text) : ∃ body rest, s = body ++ rest ∧
    (∀ b ∈ unescaped body.dropLast, endsLiteral q b = false) ∧
      ((∃ b ∈ unescaped body, endsLiteral q b = true) ∨ rest = []) := by
  fun_induction unescaped s with
  | case1 => exact ⟨[], [], rfl, by simp [unescaped], Or.inr rfl⟩
  | case2 => exact ⟨[ascii '\\'], [], rfl, by simp [unescaped], Or.inr rfl⟩
  | case3 c s ih =>
    obtain ⟨body, rest, rfl, hstart, hend⟩ := ih
    exact ⟨ascii '\\' :: c :: body, rest, rfl, by rwa [unescaped_dropLast_escape], hend⟩
  | case4 b s hb ih =>
    by_cases hq : endsLiteral q b
    · exact ⟨[b], s, rfl, by simp [unescaped], Or.inl ⟨b, by simp [unescaped_cons hb], hq⟩⟩
    · obtain ⟨body, rest, rfl, hstart, hend⟩ := ih
      refine ⟨b :: body, rest, rfl, ?_, by simpa [unescaped_cons hb, hq] using hend⟩
      by_cases hbody : body = []
      · simp [hbody, unescaped]
      · rw [unescaped_dropLast_cons hb hbody]
        exact List.forall_mem_cons.mpr ⟨by simpa using hq, hstart⟩

lemma exists_line (s : Text) : ∃ content rest, s = content ++ rest ∧ ascii '\n' ∉ content ∧
    (rest.head? = some (ascii '\n') ∨ rest = []) := by
  induction s with
  | nil => exact ⟨[], [], rfl, by simp, Or.inr rfl⟩
  | cons b s ih =>
    by_cases hb : b = ascii '\n'
    · exact ⟨[], b :: s, rfl, by simp, Or.inl (by simp [hb])⟩
    · obtain ⟨content, rest, rfl, hmem, hend⟩ := ih
      exact ⟨b :: content, rest, rfl, by simp [Ne.symm hb, hmem], hend⟩

lemma exists_block (s : Text) : ∃ content closed rest, s = content ++ closingMark closed ++ rest ∧
    ¬ utf8 "*/" <:+: content ∧ (closed = true ∨ rest = []) := by
  have hempty : ¬ utf8 "*/" <:+: [] := by decide
  induction s with
  | nil => exact ⟨[], false, [], rfl, hempty, Or.inr rfl⟩
  | cons b s ih =>
    by_cases hmark : utf8 "*/" <+: b :: s
    · obtain ⟨rest, hrest⟩ := hmark
      exact ⟨[], true, rest, hrest.symm, hempty, Or.inl rfl⟩
    · obtain ⟨content, closed, rest, rfl, hinside, hend⟩ := ih
      refine ⟨b :: content, closed, rest, rfl, ?_, hend⟩
      rw [List.infix_cons_iff, not_or]
      refine ⟨fun hstart => hmark ?_, hinside⟩
      rw [List.append_assoc, ← List.cons_append]
      exact hstart.trans (List.prefix_append _ _)

/-- A text that is not empty starts with a token. -/
lemma exists_token (hs : s ≠ []) : ∃ t : Token, ∃ rest, s = t.text ++ rest ∧ t.fits rest := by
  obtain ⟨b, s, rfl⟩ := List.exists_cons_of_ne_nil hs
  by_cases hquote : isQuote b
  · obtain ⟨body, rest, rfl, hstart, hend⟩ := exists_literal b s
    exact ⟨literal b body, rest, rfl, hquote, hstart, hend⟩
  rw [Bool.not_eq_true] at hquote
  by_cases hline : b = ascii '/' ∧ s.head? = some (ascii '/')
  · obtain ⟨rfl, hhead⟩ := hline
    obtain ⟨s, rfl⟩ := List.head?_eq_some_iff.mp hhead
    obtain ⟨content, rest, rfl, hmem, hend⟩ := exists_line s
    exact ⟨lineComment content, rest, rfl, hmem, hend⟩
  by_cases hblock : b = ascii '/' ∧ s.head? = some (ascii '*')
  · obtain ⟨rfl, hhead⟩ := hblock
    obtain ⟨s, rfl⟩ := List.head?_eq_some_iff.mp hhead
    obtain ⟨content, closed, rest, rfl, hmark, hend⟩ := exists_block s
    exact ⟨blockComment content closed, rest, rfl, hmark, hend⟩
  exact ⟨byte b, s, rfl, hquote, fun hb => ⟨fun h => hline ⟨hb, h⟩, fun h => hblock ⟨hb, h⟩⟩⟩

/-- Every text is made of tokens that fit what follows them. -/
lemma exists_isLexed (s : Text) : ∃ ts, IsLexed ts ∧ texts ts = s := by
  induction hn : s.length using Nat.strong_induction_on generalizing s with
  | _ n ih =>
    by_cases hs : s = []
    · exact ⟨[], trivial, hs.symm⟩
    · obtain ⟨t, rest, rfl, hfits⟩ := exists_token hs
      have hpos : 0 < t.text.length := List.length_pos_iff.mpr t.text_ne_nil
      rw [List.length_append] at hn
      obtain ⟨ts, hts, rfl⟩ := ih rest.length (by omega) rest rfl
      exact ⟨t :: ts, ⟨hfits, hts⟩, rfl⟩

/-! ### The tokens are determined -/

/-- What is read at the start of a text. -/
def opens (s : Text) : Reading :=
  match s with
  | [] => .code
  | b :: s =>
    if isQuote b then .literal b
    else if b = ascii '/' ∧ s.head? = some (ascii '/') then .lineComment
    else if b = ascii '/' ∧ s.head? = some (ascii '*') then .blockComment
    else .code

/-- What the token is read as. -/
def reading : Token → Reading
  | literal quote _ => .literal quote
  | lineComment _ => .lineComment
  | blockComment _ _ => .blockComment
  | byte _ => .code

lemma opens_text (h : t.fits r) : opens (t.text ++ r) = t.reading := by
  have hslash : isQuote (ascii '/') = false := by decide
  have hstar : ascii '*' ≠ ascii '/' := by decide
  cases t with
  | literal q body => simp [text, opens, reading, h.1]
  | lineComment content => simp [text, opens, reading, hslash]
  | blockComment content closed => simp [text, opens, reading, hslash, hstar]
  | byte b =>
    obtain ⟨hq, hb⟩ := h
    have hline : ¬ (b = ascii '/' ∧ r.head? = some (ascii '/')) := fun h => (hb h.1).1 h.2
    have hblock : ¬ (b = ascii '/' ∧ r.head? = some (ascii '*')) := fun h => (hb h.1).2 h.2
    simp [text, opens, reading, hq, hline, hblock]

lemma unescaped_append (s x : Text) : unescaped s <+: unescaped (s ++ x) := by
  fun_induction unescaped s with
  | case1 => exact List.nil_prefix
  | case2 => exact List.nil_prefix
  | case3 c s ih => simpa [unescaped] using ih
  | case4 b s hb ih =>
    rw [List.cons_append, unescaped_cons hb]
    exact List.cons_prefix_cons.mpr ⟨rfl, ih⟩

/-- A literal does not end before its end. -/
lemma literal_not_longer (h : (literal q body).fits (x ++ r)) (h' : (literal q (body ++ x)).fits r) :
    x = [] := by
  by_contra hx
  obtain ⟨b, hb, hends⟩ := h.2.2.resolve_right (by simp [hx])
  have hopen := h'.2.1 b
  rw [List.dropLast_append_of_ne_nil hx] at hopen
  simp [hopen ((unescaped_append body x.dropLast).subset hb)] at hends

lemma line_not_longer (h : (lineComment content).fits (x ++ r))
    (h' : (lineComment (content ++ x)).fits r) : x = [] := by
  cases x with
  | nil => rfl
  | cons b x =>
    obtain rfl : b = ascii '\n' := by simpa using h.2
    exact absurd h'.1 (by simp)

lemma block_not_longer {closed closed' : Bool} {r' : Text} (h : (blockComment content closed).fits r)
    (h' : (blockComment (content ++ x) closed').fits r')
    (heq : closingMark closed ++ r = x ++ (closingMark closed' ++ r')) : x = [] := by
  cases closed with
  | false =>
    obtain rfl : r = [] := by simpa using h.2
    exact (List.append_eq_nil_iff.mp heq.symm).1
  | true =>
    rw [closingMark_true] at heq
    match x with
    | [] => rfl
    | [b] =>
      -- the closing mark would start with a slash
      obtain ⟨-, htail⟩ := List.cons.inj heq
      cases closed' with
      | true => exact absurd (List.cons.inj htail).1 (by decide)
      | false =>
        obtain rfl : r' = [] := by simpa using h'.2
        simp [closingMark_false] at htail
    | b :: c :: x =>
      obtain ⟨rfl, htail⟩ := List.cons.inj heq
      obtain ⟨rfl, -⟩ := List.cons.inj htail
      have hmark : ascii '*' :: ascii '/' :: x = utf8 "*/" ++ x := rfl
      exact absurd ⟨content, x, by rw [hmark, List.append_assoc]⟩ h'.1

/-- Two texts in front of others are the same if neither of them can be longer. -/
lemma eq_of_append_eq {a a' r r' : Text} (h : a ++ r = a' ++ r')
    (hlonger : ∀ x, a' = a ++ x → r = x ++ r' → x = [])
    (hshorter : ∀ x, a = a' ++ x → r' = x ++ r → x = []) : a = a' ∧ r = r' := by
  rcases List.append_eq_append_iff.mp h with ⟨x, hx, hr⟩ | ⟨x, hx, hr⟩
  · obtain rfl := hlonger x hx hr
    exact ⟨by simpa using hx.symm, by simpa using hr⟩
  · obtain rfl := hshorter x hx hr
    exact ⟨by simpa using hx, by simpa using hr.symm⟩

/-- A text starts with one token only. -/
lemma fits_unique {r' : Text} (h : t.fits r) (h' : t'.fits r') (heq : t.text ++ r = t'.text ++ r') :
    t = t' ∧ r = r' := by
  have hreading : t.reading = t'.reading := by rw [← opens_text h, ← opens_text h', heq]
  cases t <;> cases t' <;> simp only [reading, reduceCtorEq] at hreading
  case literal.literal q body q' body' =>
    obtain rfl := Reading.literal.inj hreading
    obtain ⟨rfl, rfl⟩ := eq_of_append_eq (List.cons.inj heq).2
      (fun x hx hr => literal_not_longer (hr ▸ h) (hx ▸ h'))
      (fun x hx hr => literal_not_longer (hr ▸ h') (hx ▸ h))
    exact ⟨rfl, rfl⟩
  case lineComment.lineComment content content' =>
    obtain ⟨rfl, rfl⟩ := eq_of_append_eq (List.cons.inj (List.cons.inj heq).2).2
      (fun x hx hr => line_not_longer (hr ▸ h) (hx ▸ h'))
      (fun x hx hr => line_not_longer (hr ▸ h') (hx ▸ h))
    exact ⟨rfl, rfl⟩
  case blockComment.blockComment content closed content' closed' =>
    have htail : content ++ (closingMark closed ++ r) = content' ++ (closingMark closed' ++ r') := by
      simpa [text] using heq
    obtain ⟨rfl, hrest⟩ := eq_of_append_eq htail
      (fun x hx hr => block_not_longer h (hx ▸ h') hr)
      (fun x hx hr => block_not_longer h' (hx ▸ h) hr)
    -- nothing stands behind an open comment, so both are closed or both are open
    cases closed <;> cases closed' <;> simp only [closingMark_true, closingMark_false] at hrest
    · exact ⟨rfl, hrest⟩
    · obtain rfl : r = [] := by simpa using h.2
      simp at hrest
    · obtain rfl : r' = [] := by simpa using h'.2
      simp at hrest
    · exact ⟨rfl, List.append_cancel_left hrest⟩
  case byte.byte b b' =>
    obtain ⟨rfl, rfl⟩ := List.cons.inj heq
    exact ⟨rfl, rfl⟩

/-- The tokens of a text are determined. -/
lemma isLexed_unique (hts : IsLexed ts) (hus : IsLexed us) (heq : texts ts = texts us) : ts = us := by
  induction ts generalizing us with
  | nil => exact (texts_eq_nil_iff.mp heq.symm).symm
  | cons t ts ih =>
    cases us with
    | nil => exact texts_eq_nil_iff.mp heq
    | cons u us =>
      obtain ⟨rfl, hrest⟩ := fits_unique hts.1 hus.1 heq
      rw [ih hts.2 hus.2 hrest]

/-! ### Removing comments -/

/-- Removing the comments of a text.  The text is made of tokens in exactly one way, and what is left
is made of those that are no comments, which are in turn the tokens of what is left.  So literals
are copied as they are, nothing that comes together opens a comment, and removing comments again
changes nothing.  The result stays the same when a comment gets another text that does not end
it. -/
theorem stripComments_tokens (s : Text) : ∃ ts : List Token,
    (IsLexed ts ∧ texts ts = s) ∧ (∀ us, IsLexed us → texts us = s → us = ts) ∧
      stripComments s = texts (ts.filter (!·.isComment)) ∧
      IsLexed (ts.filter (!·.isComment)) ∧
      stripComments (stripComments s) = stripComments s ∧
      ∀ before t t' behind, ts = before ++ t :: behind → Reworded t t' →
        stripComments (texts (before ++ t' :: behind)) = stripComments s := by
  obtain ⟨ts, hts, rfl⟩ := exists_isLexed s
  refine ⟨ts, ⟨hts, rfl⟩, fun us hus heq => isLexed_unique hus hts heq, stripComments_texts hts,
    isLexed_code hts, ?_, ?_⟩
  · rw [stripComments_texts hts, stripComments_texts (isLexed_code hts), code_code]
  · rintro before t t' behind rfl hword
    rw [stripComments_texts hts, stripComments_texts (isLexed_reworded hword hts),
      code_reworded hword]

-- the line feed is escaped, so the slashes stand in the literal
example : stripComments "\"\\\n//" = utf8 "\"\\\n//" := by rfl

end Token

end DtoSchema.Source
