import DtoSchema.Proofs.Declaration.WellFormed
import DtoSchema.Proofs.Schema.RegexLiteral
import DtoSchema.Proofs.Text.Trimming

/-!
# Quoted keys and values

A key that is no name, and every value of an enumeration, is written between single quotes with its
backslashes and quotes escaped.  Reading undoes this: `unescape?` takes the inside of a literal
back, and `readLiterals?` takes a list of literals apart, whatever their values hold
(`readLiterals?_join`).  So different keys are written differently (`quoteKey_injective`), and the
keys in the schema of a class, which differ, are written as different tokens
(`keys_and_values_survive`).
-/

namespace DtoSchema.Schema

open Text

/-! ### The inside of a literal -/

/-- A byte as it is written between quotes. -/
def escapeByte (b : UInt8) : Text :=
  if b = ascii '\\' ∨ b = ascii '\'' then [ascii '\\', b] else [b]

/-- A text as it is written between quotes. -/
def escapeText (s : Text) : Text := s.flatMap escapeByte

lemma quoteText_eq (s : Text) : quoteText s = "'" ++ escapeText s ++ "'" := rfl

/-- The text that the inside of a literal stands for.  There is none if a quote is not escaped, a
backslash stands at the end, or something else than a backslash or a quote is escaped. -/
def unescape? : Text → Option Text
  | [] => some []
  | [b] => if b = ascii '\\' ∨ b = ascii '\'' then none else some [b]
  | b :: c :: s =>
    if b = ascii '\'' then none
    else if b = ascii '\\' then
      if c = ascii '\\' ∨ c = ascii '\'' then (unescape? s).map (c :: ·) else none
    else (unescape? (c :: s)).map (b :: ·)

/-- No quote in the text is unescaped: the run of backslashes in front of each has an odd length. -/
def EscapesQuotes (s : Text) : Prop := ∀ u v, s = u ++ ascii '\'' :: v → Odd (trailingRun u)

/-- No backslash dangles at the end of the text: the run of backslashes there has an even length. -/
def EndsEscapes (s : Text) : Prop := Even (trailingRun s)

lemma escapeByte_of_plain {b : UInt8} (h : ¬ (b = ascii '\\' ∨ b = ascii '\'')) :
    escapeByte b = [b] := if_neg h

lemma escapeText_cons (b : UInt8) (s : Text) : escapeText (b :: s) = escapeByte b ++ escapeText s :=
  rfl

lemma escapeText_concat (s : Text) (b : UInt8) :
    escapeText (s ++ [b]) = escapeText s ++ escapeByte b := by
  simp [escapeText]

/-- A plain byte in front stands for itself. -/
lemma unescape?_cons {b : UInt8} (h : ¬ (b = ascii '\\' ∨ b = ascii '\'')) (s : Text) :
    unescape? (b :: s) = (unescape? s).map (b :: ·) := by
  obtain ⟨hbackslash, hquote⟩ := not_or.mp h
  cases s with
  | nil => simp [unescape?, hbackslash, hquote]
  | cons c s => rw [unescape?, if_neg hquote, if_neg hbackslash]

lemma unescape?_escape {c : UInt8} (h : c = ascii '\\' ∨ c = ascii '\'') (s : Text) :
    unescape? (ascii '\\' :: c :: s) = (unescape? s).map (c :: ·) := by
  rw [unescape?, if_neg (by decide), if_pos rfl, if_pos h]

/-- What is written between quotes stands for the text that was written. -/
lemma unescape?_escapeText (s : Text) : unescape? (escapeText s) = some s := by
  induction s with
  | nil => rfl
  | cons b s ih =>
    rw [escapeText_cons]
    by_cases hb : b = ascii '\\' ∨ b = ascii '\''
    · rw [escapeByte, if_pos hb, List.cons_append, List.singleton_append, unescape?_escape hb, ih]
      rfl
    · rw [escapeByte_of_plain hb, List.singleton_append, unescape?_cons hb, ih]
      rfl

/-- A byte as it is written ends a run of backslashes, or makes it longer by two. -/
lemma trailingRun_escapeByte (w : Text) (b : UInt8) :
    trailingRun (w ++ escapeByte b) = if b = ascii '\\' then trailingRun w + 2 else 0 := by
  by_cases hbackslash : b = ascii '\\'
  · have hpair : w ++ escapeByte b = w ++ [ascii '\\'] ++ [ascii '\\'] := by
      simp [escapeByte, hbackslash]
    rw [hpair, trailingRun_concat, trailingRun_concat]
    simp [hbackslash]
  · obtain ⟨v, hv⟩ : ∃ v, w ++ escapeByte b = v ++ [b] := by
      by_cases hquote : b = ascii '\''
      · exact ⟨w ++ [ascii '\\'], by simp [escapeByte, hquote]⟩
      · exact ⟨w, by rw [escapeByte_of_plain (not_or.mpr ⟨hbackslash, hquote⟩)]⟩
    rw [hv, trailingRun_concat, if_neg hbackslash, if_neg hbackslash]

lemma endsEscapes_escapeText (s : Text) : EndsEscapes (escapeText s) := by
  induction s using List.reverseRecOn with
  | nil => exact ⟨0, rfl⟩
  | append_singleton s b ih =>
    rw [EndsEscapes, escapeText_concat, trailingRun_escapeByte]
    split
    · exact ih.add (by decide)
    · exact ⟨0, rfl⟩

/-- A quote that is written for a byte has a backslash in front of it. -/
lemma eq_backslash_of_escapeByte {b : UInt8} {u v : Text}
    (h : escapeByte b = u ++ ascii '\'' :: v) : u = [ascii '\\'] := by
  have hne : ascii '\\' ≠ ascii '\'' := by decide
  unfold escapeByte at h
  split at h
  · cases u with
    | nil => exact absurd (List.cons.inj h).1 hne
    | cons c u =>
      obtain ⟨rfl, hrest⟩ := List.cons.inj h
      cases u with
      | nil => rfl
      | cons d u => simp at hrest
  · next hplain =>
    cases u with
    | nil => exact absurd (Or.inr (List.cons.inj h).1) hplain
    | cons c u => simp at h

lemma escapesQuotes_escapeText (s : Text) : EscapesQuotes (escapeText s) := by
  induction s using List.reverseRecOn with
  | nil => simp [EscapesQuotes, escapeText]
  | append_singleton s b ih =>
    intro u v h
    rw [escapeText_concat] at h
    rcases List.append_eq_append_iff.mp h with ⟨w, rfl, hb⟩ | ⟨w, hs, hv⟩
    · obtain rfl := eq_backslash_of_escapeByte hb
      rw [trailingRun_concat, if_pos rfl]
      exact (endsEscapes_escapeText s).add_one
    · cases w with
      | nil => cases eq_backslash_of_escapeByte (u := []) hv.symm
      | cons c w =>
        obtain ⟨rfl, rfl⟩ := List.cons.inj hv
        exact ih u w hs

/-! ### Keys -/

/-- The text is a bare identifier: a letter or an underscore, and word bytes behind it. -/
def IsBareName (k : Text) : Prop :=
  ∃ b s, k = b :: s ∧ (isLetter b ∨ b = ascii '_') ∧ ∀ c ∈ s, isWord c

lemma isBareKey_iff (k : Text) : isBareKey k ↔ IsBareName k := by
  cases k with
  | nil => simp [isBareKey, IsBareName]
  | cons b s =>
    constructor
    · intro h
      exact ⟨b, s, rfl, by simpa [isBareKey] using h⟩
    · rintro ⟨_, _, ⟨⟩, hb, hs⟩
      simpa [isBareKey] using ⟨hb, hs⟩

/-- A name starts with no quote. -/
lemma IsBareName.head_ne_quote {k : Text} (h : IsBareName k) : k.head? ≠ some (ascii '\'') := by
  obtain ⟨b, s, rfl, hb, -⟩ := h
  intro heq
  obtain rfl : b = ascii '\'' := by simpa using heq
  revert hb
  decide

lemma head?_quoteText (k : Text) : (quoteText k).head? = some (ascii '\'') := rfl

/-- What is written between quotes is not shorter than the text. -/
lemma length_le_escapeText (s : Text) : s.length ≤ (escapeText s).length := by
  induction s with
  | nil => rfl
  | cons b s ih =>
    have hbyte : 1 ≤ (escapeByte b).length := by
      unfold escapeByte
      split <;> simp
    rw [escapeText_cons, List.length_append, List.length_cons]
    omega

/-- What is written for a key is the key itself exactly if it is a name. -/
lemma quoteKey_eq_self_iff (k : Text) : quoteKey k = k ↔ IsBareName k := by
  rw [← isBareKey_iff, quoteKey]
  split
  · next h => simp [h]
  · next h =>
    refine ⟨fun heq => ?_, fun hbare => absurd hbare h⟩
    have hquotes : (quoteText k).length = (escapeText k).length + 2 := by
      have hone : (utf8 "'").length = 1 := by decide
      rw [quoteText_eq, List.length_append, List.length_append, hone]
      omega
    have hlength := length_le_escapeText k
    rw [heq] at hquotes
    omega

/-- A key that is no name is written between quotes, and can be taken back from there. -/
lemma quoteKey_of_not_bare {k : Text} (h : ¬ IsBareName k) :
    quoteKey k = "'" ++ escapeText k ++ "'" := by
  rw [quoteKey, if_neg (by rwa [isBareKey_iff]), quoteText_eq]

/-- Different keys are written differently. -/
lemma quoteKey_injective : Function.Injective quoteKey := by
  intro k l h
  unfold quoteKey at h
  split at h
  · next hk =>
    split at h
    · exact h
    · exact absurd (h ▸ head?_quoteText l) ((isBareKey_iff k).mp hk).head_ne_quote
  · split at h
    · next hl => exact absurd (h ▸ head?_quoteText k) ((isBareKey_iff l).mp hl).head_ne_quote
    · have hinside : escapeText k = escapeText l := by
        simpa [quoteText_eq] using h
      have hsame := congrArg unescape? hinside
      simpa [unescape?_escapeText] using hsame

/-! ### Lists of literals -/

/-- Where a list of literals is being read. -/
inductive ListStage where
  /-- A literal has to begin. -/
  | opening
  /-- Inside a literal, behind what stands for the given text. -/
  | inside (value : Text)
  /-- Inside such a literal, right behind a backslash. -/
  | escape (value : Text)
  /-- Behind a literal: the list ends, or a comma and a blank follow. -/
  | closing
  deriving DecidableEq, Repr

/-- The values of the literals in a list. -/
def readLiterals? : ListStage → Text → Option (List Text)
  | .opening, b :: s => if b = ascii '\'' then readLiterals? (.inside []) s else none
  | .inside v, b :: s =>
    if b = ascii '\'' then (readLiterals? .closing s).map (v :: ·)
    else if b = ascii '\\' then readLiterals? (.escape v) s
    else readLiterals? (.inside (v ++ [b])) s
  | .escape v, b :: s =>
    if b = ascii '\\' ∨ b = ascii '\'' then readLiterals? (.inside (v ++ [b])) s else none
  | .closing, b :: c :: s =>
    if b = ascii ',' ∧ c = ascii ' ' then readLiterals? .opening s else none
  | .closing, [] => some []
  | _, _ => none

/-- The values in the schema of an enumeration. -/
def readEnumBody? (s : Text) : Option (List Text) :=
  (afterPrefix? "z.enum([" s).bind fun rest =>
    if endsWith rest "])" then
      let list := rest.take (rest.length - 2)
      if list.isEmpty then some [] else readLiterals? .opening list
    else none

/-- The bytes that are written for a value are read as this value. -/
lemma readLiterals?_escapeText (v s rest : Text) :
    readLiterals? (.inside v) (escapeText s ++ rest) = readLiterals? (.inside (v ++ s)) rest := by
  induction s generalizing v with
  | nil => simp [escapeText]
  | cons b s ih =>
    have hstep : readLiterals? (.inside v) (escapeByte b ++ (escapeText s ++ rest)) =
        readLiterals? (.inside (v ++ [b])) (escapeText s ++ rest) := by
      by_cases hb : b = ascii '\\' ∨ b = ascii '\''
      · rw [escapeByte, if_pos hb, List.cons_append, List.singleton_append, readLiterals?,
          if_neg (by decide), if_pos rfl, readLiterals?, if_pos hb]
      · obtain ⟨hbackslash, hquote⟩ := not_or.mp hb
        rw [escapeByte_of_plain hb, List.singleton_append, readLiterals?, if_neg hquote,
          if_neg hbackslash]
    rw [escapeText_cons, List.append_assoc, hstep, ih, List.append_assoc, List.singleton_append]

/-- A literal is read, and then what stands behind it. -/
lemma readLiterals?_quoteText (s rest : Text) :
    readLiterals? .opening (quoteText s ++ rest) = (readLiterals? .closing rest).map (s :: ·) := by
  have hquote : utf8 "'" = [ascii '\''] := by decide
  rw [quoteText_eq, hquote, List.append_assoc, List.append_assoc, List.singleton_append,
    readLiterals?, if_pos rfl, readLiterals?_escapeText, List.nil_append, List.singleton_append,
    readLiterals?, if_pos rfl]

/-- Reading a list of literals gives the values that were written, whatever they hold. -/
lemma readLiterals?_join {vs : List Text} (h : vs ≠ []) :
    readLiterals? .opening (join ", " (vs.map quoteText)) = some vs := by
  rw [utf8_commaSpace]
  induction vs with
  | nil => exact absurd rfl h
  | cons v vs ih =>
    cases vs with
    | nil =>
      have hone := readLiterals?_quoteText v []
      rw [List.append_nil] at hone
      simp [join, hone, readLiterals?]
    | cons w ws =>
      rw [List.map_cons, List.map_cons, join_cons_cons, List.append_assoc, readLiterals?_quoteText,
        List.cons_append, List.singleton_append, readLiterals?, if_pos ⟨rfl, rfl⟩,
        ← List.map_cons, ih (by simp)]
      rfl

/-- The values of an enumeration can be taken back from its schema. -/
lemma readEnumBody?_enumBody (e : EnumDecl) : readEnumBody? (enumBody e) = some e.values := by
  have htwo : (utf8 "])").length = 2 := by decide
  have hlist : ∀ list : Text, (list ++ utf8 "])").take ((list ++ utf8 "])").length - 2) = list := by
    intro list
    rw [List.length_append, htwo, Nat.add_sub_cancel, List.take_left]
  have hends : ∀ list : Text, endsWith (list ++ utf8 "])") "])" = true := by
    intro list
    simp [endsWith]
  rw [readEnumBody?, enumBody, List.append_assoc, afterPrefix?_append, Option.bind_some,
    if_pos (hends _)]
  simp only [hlist]
  cases hvalues : e.values with
  | nil => rfl
  | cons v vs =>
    have hread : readLiterals? .opening (join ", " ((v :: vs).map quoteText)) = some (v :: vs) :=
      readLiterals?_join (by simp)
    have hne : join ", " ((v :: vs).map quoteText) ≠ [] := by
      intro hnil
      rw [hnil] at hread
      cases hread
    rw [if_neg (by simpa using hne), hread]

/-! ### The code -/

/-- The tokens that are written for the keys of a class. -/
def keyTokens (c : ClassDecl) : List Text := c.fields.map fun f => quoteKey f.key

/-- The schema of a class has a line for each field, with its token in front. -/
lemma body_classBlock (layout : Layout) (table : SymbolTable) (c : ClassDecl) :
    ∃ texts : List Text, texts.length = (keyTokens c).length ∧
      (classBlock layout table c).body = objectBody
        (List.zipWith (fun token text => layout.indent ++ token ++ ": " ++ text) (keyTokens c)
          texts) := by
  refine ⟨c.fields.map fun f => fieldText f (mapField layout table c f).1, by simp [keyTokens], ?_⟩
  simp [classBlock, keyTokens, List.zipWith_map, fieldLine]

/-- Different keys give different tokens. -/
lemma nodup_keyTokens {c : ClassDecl} (h : (c.fields.map Field.key).Nodup) :
    (keyTokens c).Nodup := by
  have hmap : keyTokens c = (c.fields.map Field.key).map quoteKey := by simp [keyTokens]
  rw [hmap]
  exact h.map quoteKey_injective

end DtoSchema.Schema
