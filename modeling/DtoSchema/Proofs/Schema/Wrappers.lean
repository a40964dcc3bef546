import DtoSchema.Proofs.Schema.OptionalType
import DtoSchema.Proofs.Schema.Reports

/-!
# Wrappers around types

`WrappedType` is the language of types in which arrays may also be written with a name, collections
may be mutable, and types may be optional.

The mapping looks for these wrappers once, in a fixed order, before it takes a type apart: an array
that is written with a name gets a bracket pair, then a mutable collection becomes a collection, and
then an optional type is replaced by the type inside.  `WrappedType.unwrapped` says what is left,
and `WrappedType.map_wrapped` what follows from it.  Collections may be put around every type, and
so may their mutable variants, since the mapping starts anew with their arguments.  The other
wrappers start nothing anew: what is behind them is looked at as it is.  So they may be put around
each other only in the order in which they are looked for, and otherwise the type inside is taken
for a name (`WrappedType.map_wrapped_twice`).
-/

namespace DtoSchema.Schema

open Text Source
open Declaration (optionalNames)

/-! ### Wrapped types -/

/-- The name of a collection, or of its mutable variant. -/
inductive WrapperHead (names : List Text) where
  /-- A collection, with or without a qualifier. -/
  | collection (head : CollectionHead names)
  /-- A mutable collection. -/
  | mutable (name : {n : Text // n ∈ mutableCollections ∧ n ∈ names})

namespace WrapperHead

variable {names : List Text}

/-- The name as it is written. -/
def text : WrapperHead names → Text
  | collection head => head.text
  | mutable name => "Mutable" ++ name.1

/-- The collection of which the name is a variant. -/
def plain : WrapperHead names → CollectionHead names
  | collection head => head
  | mutable name => ⟨none, ⟨name.1, name.2.2⟩⟩

/-- The name is that of a mutable collection. -/
def isMutable : WrapperHead names → Bool
  | collection _ => false
  | mutable _ => true

end WrapperHead

/-- A type made of names, arrays, collections, mutable collections and optional types. -/
inductive WrappedType where
  /-- A name without arguments. -/
  | leaf (name : DottedName isIdent)
  /-- An array, written with a bracket pair. -/
  | array (member : WrappedType)
  /-- An array, written with a name. -/
  | named (member : WrappedType)
  /-- A collection with one argument. -/
  | list (head : WrapperHead listNames) (member : WrappedType)
  /-- A collection with a key and a value. -/
  | map (head : WrapperHead mapNames) (key value : WrappedType)
  /-- An optional type. -/
  | optional (name : {q : Text // q ∈ optionalNames}) (inner : WrappedType)

namespace WrappedType

/-- The type as it is written. -/
def text : WrappedType → Text
  | leaf name => name.text
  | array member => member.text ++ "[]"
  | named member => "Array" ++ "<" ++ member.text ++ ">"
  | list head member => head.text ++ "<" ++ member.text ++ ">"
  | map head key value => head.text ++ "<" ++ (key.text ++ ", " ++ value.text) ++ ">"
  | optional name inner => name.1 ++ "<" ++ inner.text ++ ">"

/-- The number of collections around the innermost name. -/
def depth : WrappedType → ℕ
  | leaf _ => 0
  | array member => member.depth
  | named member => member.depth
  | list _ member => member.depth + 1
  | map _ key value => max key.depth value.depth + 1
  | optional _ inner => inner.depth

/-- The type without its bracket pairs. -/
def core : WrappedType → WrappedType
  | array member => member.core
  | t => t

/-- The number of bracket pairs of a type. -/
def pairs : WrappedType → ℕ
  | array member => member.pairs + 1
  | _ => 0

/-- The type is an array that is written with a name, or an optional type. -/
def isWrapper : WrappedType → Bool
  | named _ | optional _ _ => true
  | leaf _ | array _ | list _ _ | map _ _ _ => false

/-- The type is a mutable collection, bracket pairs apart. -/
def isMutable : WrappedType → Bool
  | array member => member.isMutable
  | list head _ => head.isMutable
  | map head _ _ => head.isMutable
  | leaf _ | named _ | optional _ _ => false

/-- The type with a collection in the place of a mutable one, bracket pairs apart. -/
def plain : WrappedType → WrappedType
  | array member => array member.plain
  | list head member => list (.collection head.plain) member
  | map head key value => map (.collection head.plain) key value
  | t => t

/-- What is left of a type when wrappers are removed. -/
def unwrapped : WrappedType → WrappedType
  | named member => array member.plain
  | optional _ inner => inner
  | t => t.plain

end WrappedType

/-! ### The names of wrappers -/

/-- The names of wrappers are made of the bytes of names. -/
lemma isName_of_mem_wrappers {w : Text} (hw : w ∈ wrappers) :
    w.head?.any isIdentStart ∧ w.all isNamePart := by
  have hall : ∀ w ∈ wrappers, w.head?.any isIdentStart ∧ w.all isNamePart := by decide
  exact hall w hw

lemma mutable_mem_wrappers {n : Text} (hn : n ∈ mutableCollections) :
    utf8 "Mutable" ++ n ∈ wrappers := by
  have hall : ∀ n ∈ mutableCollections, utf8 "Mutable" ++ n ∈ wrappers := by decide
  exact hall n hn

lemma optional_mem_wrappers {q : Text} (hq : q ∈ optionalNames) : q ∈ wrappers := by
  have hall : ∀ q ∈ optionalNames, q ∈ wrappers := by decide
  exact hall q hq

section Head

variable {names : List Text}

/-- The name of a collection starts like a name, and is made of the bytes of names. -/
lemma WrapperHead.isName (hnames : ∀ head : CollectionHead names, isHead head.text)
    (head : WrapperHead names) :
    head.text.head?.any isIdentStart ∧ head.text.all isNamePart := by
  cases head with
  | collection head =>
    obtain ⟨hstart, hname, -⟩ := isHead_iff.mp (hnames head)
    exact ⟨hstart, hname⟩
  | mutable name => exact isName_of_mem_wrappers (mutable_mem_wrappers name.2.1)

/-- The name of a collection is none of an array. -/
lemma WrapperHead.text_ne_array (hnames : ∀ head : CollectionHead names, isHead head.text)
    (head : WrapperHead names) : head.text ≠ "Array" := by
  cases head with
  | collection head =>
    intro heq
    exact (isHead_iff.mp (hnames head)).2.2 ((show head.text = utf8 "Array" from heq) ▸ by decide)
  | mutable name =>
    have hmutable : ∀ n ∈ mutableCollections, utf8 "Mutable" ++ n ≠ "Array" := by decide
    exact hmutable name.1 name.2.1

/-- The names of optional types are made of the bytes of names. -/
lemma isName_optional (name : {q : Text // q ∈ optionalNames}) :
    name.1.head?.any isIdentStart ∧ name.1.all isNamePart :=
  isName_of_mem_wrappers (optional_mem_wrappers name.2)

/-- A mutable collection becomes a collection, whatever is behind its name. -/
lemma dropMutable_mutable {n : Text} (hn : n ∈ mutableCollections) (rest : Text) :
    dropMutable ("Mutable" ++ n ++ "<" ++ rest) = n ++ "<" ++ rest := by
  simp only [mutableCollections, List.mem_cons, List.not_mem_nil, or_false] at hn
  rcases hn with rfl | rfl | rfl <;> rfl

lemma dropMutable_head (hnames : ∀ head : CollectionHead names, isHead head.text)
    (head : WrapperHead names) (rest : Text) :
    dropMutable (head.text ++ "<" ++ rest) = head.plain.text ++ "<" ++ rest := by
  cases head with
  | collection head =>
    obtain ⟨-, hname, hwrapper⟩ := isHead_iff.mp (hnames head)
    exact dropMutable_eq_self (hasTypeShape_generic hname rest)
      fun _ w hw heq => hwrapper (show head.text ∈ wrappers from heq ▸ mutable_mem_wrappers hw)
  | mutable name => exact dropMutable_mutable name.2.1 rest

end Head

/-! ### The shape of wrapped types -/

namespace WrappedType

lemma isTidy_text (t : WrappedType) : isTidy t.text := by
  induction t with
  | leaf name => exact isTidy_name (name.text_head? fun _ h => h) (name.text_all fun _ h => h)
  | array member ih => exact tidyFrom_append ih (by decide)
  | named member ih => exact isTidy_generic (by decide) (by decide) ih
  | list head member ih =>
    obtain ⟨hhead, hname⟩ := head.isName isHead_list
    exact isTidy_generic hhead hname ih
  | map head key value ihk ihv =>
    obtain ⟨hhead, hname⟩ := head.isName isHead_map
    exact isTidy_generic hhead hname (isTidy_comma ihk ihv)
  | optional name inner ih =>
    obtain ⟨hhead, hname⟩ := isName_optional name
    exact isTidy_generic hhead hname ih

lemma nested_text (t : WrappedType) : Nested .all (· == ascii ',') t.text := by
  induction t with
  | leaf name => exact nested_name (name.text_all fun _ h => h)
  | array member ih => exact nested_array ih
  | named member ih => exact nested_generic (by decide) ih.balanced
  | list head member ih => exact nested_generic (head.isName isHead_list).2 ih.balanced
  | map head key value ihk ihv =>
    exact nested_generic (head.isName isHead_map).2 (balanced_comma ihk.balanced ihv.balanced)
  | optional name inner ih => exact nested_generic (isName_optional name).2 ih.balanced

/-- A type with bracket pairs behind it has the shape of a type. -/
lemma hasTypeShape_append (t : WrappedType) (rest : Text)
    (hrest : ∀ b, rest.head? = some b → b = ascii '[') :
    ∃ name rest', HasTypeShape (t.text ++ rest) name rest' := by
  have hgeneric : ∀ (name inner : Text) {rest : Text}, name.all isNamePart →
      ∃ name' rest', HasTypeShape (name ++ "<" ++ inner ++ ">" ++ rest) name' rest' := by
    intro name inner rest hname
    refine ⟨name, "<" ++ (inner ++ ">" ++ rest), ?_⟩
    simpa using hasTypeShape_generic hname (inner ++ ">" ++ rest)
  induction t generalizing rest with
  | leaf name =>
    exact ⟨name.text, rest, rfl, name.text_all fun _ h => h, fun b hb => .inr (hrest b hb)⟩
  | array member ih =>
    rw [text, List.append_assoc]
    exact ih _ fun b hb => (Option.some.inj hb).symm
  | named member _ => exact hgeneric "Array" member.text (by decide)
  | list head member _ => exact hgeneric _ _ (head.isName isHead_list).2
  | map head key value _ _ => exact hgeneric _ _ (head.isName isHead_map).2
  | optional name inner _ => exact hgeneric _ _ (isName_optional name).2

/-- Of a mutable collection the collection is left, with the bracket pairs behind it. -/
lemma dropMutable_text_append (t : WrappedType) (rest : Text)
    (hrest : ∀ b, rest.head? = some b → b = ascii '[') :
    dropMutable (t.text ++ rest) = t.plain.text ++ rest := by
  have hkeep : ∀ (name inner : Text) {rest : Text}, name.all isNamePart →
      (∀ w ∈ mutableCollections, name ≠ utf8 "Mutable" ++ w) →
      dropMutable (name ++ "<" ++ inner ++ ">" ++ rest) = name ++ "<" ++ inner ++ ">" ++ rest := by
    intro name inner rest hname hne
    have hshape := hasTypeShape_generic hname (inner ++ ">" ++ rest)
    simp only [← List.append_assoc] at hshape
    exact dropMutable_eq_self hshape fun _ => hne
  induction t generalizing rest with
  | leaf name =>
    have hshape : HasTypeShape (name.text ++ rest) name.text rest :=
      ⟨rfl, name.text_all fun _ h => h, fun b hb => .inr (hrest b hb)⟩
    exact dropMutable_eq_self hshape fun hb => absurd (hrest _ hb) (by decide)
  | array member ih =>
    rw [text, plain, text, List.append_assoc, List.append_assoc]
    exact ih _ fun b hb => (Option.some.inj hb).symm
  | named member _ => exact hkeep "Array" member.text (by decide) (by decide)
  | list head member _ =>
    simpa [text, plain, WrapperHead.text] using
      dropMutable_head isHead_list head (member.text ++ ">" ++ rest)
  | map head key value _ _ =>
    simpa [text, plain, WrapperHead.text] using
      dropMutable_head isHead_map head (key.text ++ ", " ++ value.text ++ ">" ++ rest)
  | optional name inner _ =>
    have hne : ∀ q ∈ optionalNames, ∀ w ∈ mutableCollections, q ≠ utf8 "Mutable" ++ w := by
      decide
    exact hkeep _ _ (isName_optional name).2 (hne name.1 name.2)

end WrappedType

/-! ### What is left without wrappers -/

/-- The content of the angle brackets behind a name. -/
lemma argumentsOf?_generic {name inner : Text} (hinner : isTidy inner) :
    argumentsOf? name (name ++ "<" ++ inner ++ ">") = some inner := by
  rw [argumentsOf?, List.append_assoc, List.append_assoc, afterPrefix?_append, Option.bind_some]
  simpa [utf8_openAngle, utf8_closeAngle] using angleContent?_brackets hinner

/-- A text that ends with another byte than a closing angle bracket has no arguments. -/
lemma argumentsOf?_eq_none_of_getLast? {name s : Text} (h : s.getLast? ≠ some (ascii '>')) :
    argumentsOf? name s = none := by
  rw [Option.eq_none_iff_forall_ne_some]
  intro content hcontent
  obtain ⟨r, hr, hangle⟩ := Option.bind_eq_some_iff.mp hcontent
  rw [afterPrefix?_eq_some_iff] at hr
  unfold angleContent? at hangle
  split at hangle
  · next opening rest hrest =>
    split at hangle
    · next hends =>
      obtain ⟨before, hbefore⟩ := List.dropWhile_suffix isGap (l := r)
      have hsplit : s = (name ++ before ++ [opening]) ++ rest := by
        rw [hr, ← hbefore]
        rw [skipGaps] at hrest
        simp [hrest]
      refine h ?_
      rw [hsplit, List.getLast?_append, hends.2.1]
      rfl
    · simp at hangle
  · simp at hangle

/-- Nothing is optional that ends with another byte than a closing angle bracket. -/
lemma unwrapOptional_of_getLast? {s : Text} (h : s.getLast? ≠ some (ascii '>')) :
    unwrapOptional s = s := by
  have hnone : argumentsOf? "Optional" ((afterPrefix? "java.util." s).getD s) = none := by
    apply argumentsOf?_eq_none_of_getLast?
    cases hafter : afterPrefix? "java.util." s with
    | none => exact h
    | some r =>
      rw [afterPrefix?_eq_some_iff] at hafter
      intro hlast
      refine h ?_
      rw [hafter, List.getLast?_append, show r.getLast? = _ from hlast]
      rfl
  rw [unwrapOptional, hnone]

/-- Of a collection the name without its variant is left. -/
lemma unwrap_head {names : List Text} (hnames : ∀ head : CollectionHead names, isHead head.text)
    (head : WrapperHead names) (rest : Text) :
    unwrapOptional (dropMutable (unwrapArray (head.text ++ "<" ++ rest))) =
      head.plain.text ++ "<" ++ rest := by
  have hshape := hasTypeShape_generic (head.isName hnames).2 rest
  have hnone : argumentsOf? "Array" (head.text ++ "<" ++ rest) = none :=
    argumentsOf?_eq_none hshape (by decide) fun _ => head.text_ne_array hnames
  have hplain := hnames head.plain
  simp only [isHead, Bool.and_eq_true, decide_eq_true_eq] at hplain
  rw [unwrapArray, hnone]
  simp only [dropMutable_head hnames]
  exact unwrapOptional_eq_self (hasTypeShape_generic hplain.1.2 rest) fun _ => hplain.2

namespace WrappedType

/-- The text of a type is tidy and starts with no modifier, so that only wrappers can be removed. -/
lemma unwrap_text_eq (t : WrappedType) :
    unwrap t.text = unwrapOptional (dropMutable (unwrapArray t.text)) := by
  obtain ⟨name, rest, hshape⟩ := t.hasTypeShape_append [] (by simp)
  rw [List.append_nil] at hshape
  simp [unwrap, collapse_eq_self t.isTidy_text, afterPrefix?_final hshape]

lemma dropMutable_text (t : WrappedType) : dropMutable t.text = t.plain.text := by
  simpa using t.dropMutable_text_append [] (by simp)

/-- Of a type without arguments at its end no array and no optional type is taken apart. -/
lemma unwrap_text_of_getLast? (t : WrappedType) (h : t.text.getLast? ≠ some (ascii '>'))
    (hplain : t.plain.text.getLast? ≠ some (ascii '>')) : unwrap t.text = t.plain.text := by
  rw [t.unwrap_text_eq, unwrapArray, argumentsOf?_eq_none_of_getLast? h]
  simp only [t.dropMutable_text, unwrapOptional_of_getLast? hplain]

/-- What is left of a wrapped type is what is left of its text. -/
lemma unwrap_text (t : WrappedType) : unwrap t.text = t.unwrapped.text := by
  have harray : ∀ s : Text, (s ++ utf8 "[]").getLast? ≠ some (ascii '>') := by
    intro s
    rw [List.getLast?_append, show (utf8 "[]").getLast? = some (ascii ']') by decide]
    exact (by decide : some (ascii ']') ≠ some (ascii '>'))
  cases t with
  | leaf name =>
    have hlast : name.text.getLast? ≠ some (ascii '>') := by
      intro hlast
      have hb := List.all_eq_true.mp (name.text_all fun _ h => h) _ (List.mem_of_getLast? hlast)
      exact absurd hb (by decide)
    exact unwrap_text_of_getLast? (leaf name) hlast hlast
  | array member => exact unwrap_text_of_getLast? (array member) (harray _) (harray _)
  | named member =>
    have hmember : unwrapArray (named member).text = member.text ++ "[]" := by
      rw [unwrapArray, text, argumentsOf?_generic member.isTidy_text]
      simp only [trim_eq_self (isTrimmed_of_isTidy member.isTidy_text)]
    rw [unwrap_text_eq, hmember,
      member.dropMutable_text_append "[]" fun b hb => (Option.some.inj hb).symm,
      unwrapOptional_of_getLast? (harray _)]
    rfl
  | list head member =>
    rw [unwrap_text_eq]
    simpa [text, unwrapped, plain, WrapperHead.text] using
      unwrap_head isHead_list head (member.text ++ ">")
  | map head key value =>
    rw [unwrap_text_eq]
    simpa [text, unwrapped, plain, WrapperHead.text] using
      unwrap_head isHead_map head (key.text ++ ", " ++ value.text ++ ">")
  | optional name inner =>
    refine unwrap_eq_of_wraps ⟨name.1, name.2, inner.text, ?_,
      trim_eq_self (isTrimmed_of_isTidy inner.isTidy_text)⟩
    rw [collapse_eq_self (optional name inner).isTidy_text]
    exact argumentsOf?_generic inner.isTidy_text

/-! ### One level of a wrapped type -/

/-- The bracket pairs at the end of a type are those of the type. -/
lemma splitArray_text (t : WrappedType) : splitArray t.text = (t.core.text, t.pairs) := by
  suffices h : ∀ limit, t.text.length ≤ limit →
      splitArrayWithin limit t.text = (t.core.text, t.pairs) from h _ le_rfl
  induction t with
  | leaf name =>
    intro limit _
    exact splitArrayWithin_eq_self (memberType?_eq_none
      (getLast?_ne_of_isNamePart (name.text_all fun _ h => h))) limit
  | array member ih => exact splitArrayWithin_array member.isTidy_text ih
  | named member _ => exact fun limit _ => splitArrayWithin_generic _ limit
  | list head member _ => exact fun limit _ => splitArrayWithin_generic _ limit
  | map head key value _ _ => exact fun limit _ => splitArrayWithin_generic _ limit
  | optional name inner _ => exact fun limit _ => splitArrayWithin_generic _ limit

/-- What a type without wrappers around it is taken apart into.  A wrapper that is still there is
taken for a name. -/
def parts : WrappedType → Parts
  | array member => member.parts
  | list (.collection _) member => .list member.text
  | map (.collection _) key value => .map key.text value.text
  | t => .name t.text

/-- The names of wrappers are not those of collections. -/
lemma ofText_wrapper {name inner : Text} (hwrapper : name ∈ wrappers) (hinner : isTidy inner) :
    Parts.ofText (name ++ "<" ++ inner ++ ">") = .name (name ++ "<" ++ inner ++ ">") := by
  have hall : ∀ w ∈ wrappers, collectionName w ∉ listNames ∧ collectionName w ∉ mapNames := by
    decide
  obtain ⟨hhead, hname⟩ := isName_of_mem_wrappers hwrapper
  obtain ⟨hlist, hmap⟩ := hall name hwrapper
  simp only [Parts.ofText, splitGeneric?_append hhead hname hinner, hlist, hmap, if_false]

lemma ofText_core (t : WrappedType) : Parts.ofText t.core.text = t.parts := by
  induction t with
  | leaf name => exact Parts.ofText_name (name.text_all fun _ h => h)
  | array member ih => exact ih
  | named member _ => exact ofText_wrapper (by decide) member.isTidy_text
  | list head member _ =>
    cases head with
    | collection head => exact Parts.ofText_list head member.isTidy_text
    | mutable name => exact ofText_wrapper (mutable_mem_wrappers name.2.1) member.isTidy_text
  | map head key value _ _ =>
    cases head with
    | collection head =>
      exact Parts.ofText_map head key.isTidy_text value.isTidy_text key.nested_text
        value.nested_text
    | mutable name =>
      exact ofText_wrapper (mutable_mem_wrappers name.2.1)
        (isTidy_comma key.isTidy_text value.isTidy_text)
  | optional name inner _ => exact ofText_wrapper (optional_mem_wrappers name.2) inner.isTidy_text

/-- One level of the mapping of a wrapped type. -/
lemma mapWithin_text (r : Resolver) (root : Text) (allowance : ℕ) (t : WrappedType) :
    r.mapWithin root (allowance + 1) t.text =
      Mapped.array^[t.unwrapped.pairs]
        (t.unwrapped.parts.mapped r (r.mapWithin root allowance)) := by
  rw [Resolver.mapWithin_succ, pairsOf, partsOf, t.unwrap_text, splitArray_text, ofText_core]

lemma depth_plain (t : WrappedType) : t.plain.depth = t.depth := by
  induction t with
  | array member ih => exact ih
  | leaf _ | named _ _ | list _ _ _ | map _ _ _ _ _ | optional _ _ _ => rfl

lemma depth_unwrapped (t : WrappedType) : t.unwrapped.depth = t.depth := by
  cases t with
  | named member => exact member.depth_plain
  | optional name inner => rfl
  | leaf _ | array _ | list _ _ | map _ _ _ => exact depth_plain _

/-- The arguments of a type nest less deeply than the type. -/
lemma exists_of_mem_arguments {t : WrappedType} {u : Text} (hu : u ∈ t.parts.arguments) :
    ∃ t' : WrappedType, t'.text = u ∧ t'.depth < t.depth := by
  induction t with
  | leaf name => simp [parts, Parts.arguments] at hu
  | array member ih => exact ih hu
  | named member _ => simp [parts, Parts.arguments] at hu
  | list head member _ =>
    cases head with
    | collection head =>
      simp only [parts, Parts.arguments, List.mem_singleton] at hu
      exact ⟨member, hu.symm, by simp [depth]⟩
    | mutable name => simp [parts, Parts.arguments] at hu
  | map head key value _ _ =>
    cases head with
    | collection head =>
      simp only [parts, Parts.arguments, List.mem_cons, List.not_mem_nil, or_false] at hu
      rcases hu with rfl | rfl
      · exact ⟨key, rfl, by simp only [depth]; omega⟩
      · exact ⟨value, rfl, by simp only [depth]; omega⟩
    | mutable name => simp [parts, Parts.arguments] at hu
  | optional name inner _ => simp [parts, Parts.arguments] at hu

/-- A type has no more levels than its collections nest. -/
lemma le_depth_of_nests {n : ℕ} {t : WrappedType} (h : Nests n t.text) : n ≤ t.depth := by
  induction n generalizing t with
  | zero => exact Nat.zero_le _
  | succ n ih =>
    obtain ⟨u, hu, hnests⟩ := nests_succ_iff.mp h
    rw [partsOf, t.unwrap_text, splitArray_text, ofText_core] at hu
    obtain ⟨t', rfl, hlt⟩ := exists_of_mem_arguments hu
    rw [depth_unwrapped] at hlt
    have hle := ih hnests
    omega

end WrappedType

/-! ### Answers that were not stopped -/

namespace Resolver

/-- An answer that was not stopped does not depend on the name that an error would give the type. -/
lemma mapWithin_root_eq (r : Resolver) (root root' : Text) (allowance : ℕ) (s : Text)
    (h : (r.mapWithin root allowance s).halted = false) :
    r.mapWithin root' allowance s = r.mapWithin root allowance s := by
  have h' : (r.mapWithin root' allowance s).halted = false := by
    rw [Bool.eq_false_iff, Ne, halted_mapWithin_iff] at h ⊢
    exact h
  rw [← mapWithin_succ_eq r root' root allowance s h', mapWithin_succ_eq r root root allowance s h]

/-- There is nothing to say about a type whose values are written as texts. -/
lemma diagnostics_of_isTextual (r : Resolver) (root : Text) (allowance : ℕ) (s : Text) :
    (r.mapWithin root allowance s).expr.kind.isTextual →
      (r.mapWithin root allowance s).diagnostics = [] := by
  refine mapWithin_induction (P := fun m => m.expr.kind.isTextual → m.diagnostics = [])
    (fun h => by simp [Expr.kind, Kind.isTextual] at h) ?_
    (fun m _ h => by simp [Mapped.array, Expr.kind, Kind.isTextual] at h) ?_ allowance s
  · exact r.leaf_induction (P := fun m => m.expr.kind.isTextual → m.diagnostics = [])
      (fun _ _ _ => rfl) (fun _ _ _ _ => rfl) (fun _ _ _ => rfl) (fun _ => rfl)
      (fun _ _ _ => rfl) (fun _ _ h => by simp [Expr.kind, Kind.isTextual] at h)
  · intro text key value _ _ h
    unfold mapRecord at h
    split_ifs at h <;> simp [Expr.kind, Kind.isTextual] at h

/-- A type that nests less deeply than the limit is mapped as an argument as it is on its own. -/
lemma mapWithin_argument (r : Resolver) (root : Text) {t : WrappedType} {maxDepth : ℤ}
    (h : t.depth < depthLimit maxDepth) :
    r.mapWithin root (depthLimit maxDepth) t.text = r.map maxDepth t.text ∧
      (r.map maxDepth t.text).halted = false := by
  have hrunning : ∀ root, (r.mapWithin root (depthLimit maxDepth) t.text).halted = false := by
    intro root
    rw [Bool.eq_false_iff, Ne, halted_mapWithin_iff]
    intro hnests
    exact absurd (WrappedType.le_depth_of_nests hnests) (not_le.mpr h)
  have heq : r.map maxDepth t.text = r.mapWithin root (depthLimit maxDepth) t.text := by
    rw [Resolver.map, mapWithin_eq_of_le r _ _ (Nat.le_succ _) (hrunning _),
      mapWithin_root_eq r root _ _ _ (hrunning root)]
  exact ⟨heq.symm, heq ▸ hrunning root⟩

end Resolver

/-- There is no more to say about a record whose key is written as a text than about its value. -/
lemma mapRecord_of_isTextual (text : Text) {key value : Mapped} (hkey : key.halted = false)
    (htextual : key.expr.kind.isTextual) (hsilent : key.diagnostics = [])
    (hvalue : value.halted = false) :
    mapRecord text key value = ⟨.record value.expr, value.diagnostics, false⟩ := by
  simp [mapRecord, hkey, htextual, hsilent, hvalue]

/-! ### Wrappers that are taken for names -/

namespace WrappedType

/-- There is a wrapper on the outside of the type, so that no other one may be put around it but
collections.  Bracket pairs do not hide a mutable collection. -/
def isBlocked (t : WrappedType) : Bool := t.isWrapper || t.isMutable

/-- Nothing is removed from a type that is no mutable collection. -/
lemma plain_eq_self {t : WrappedType} (h : t.isMutable = false) : t.plain = t := by
  induction t with
  | array member ih => exact congrArg array (ih h)
  | list head member _ =>
    cases head with
    | collection head => rfl
    | mutable name => cases h
  | map head key value _ _ =>
    cases head with
    | collection head => rfl
    | mutable name => cases h
  | leaf _ | named _ _ | optional _ _ _ => rfl

lemma unwrapped_eq_plain {t : WrappedType} (h : t.isWrapper = false) : t.unwrapped = t.plain := by
  cases t with
  | named member => cases h
  | optional name inner => cases h
  | leaf _ | array _ | list _ _ | map _ _ _ => rfl

/-- A type with a wrapper on its outside is taken for a name. -/
lemma parts_of_isBlocked {t : WrappedType} (h : t.isBlocked) : t.parts = .name t.core.text := by
  induction t with
  | leaf name => rfl
  | array member ih => exact ih (by simpa [isBlocked, isWrapper, isMutable] using Or.inr h)
  | list head member _ =>
    cases head with
    | collection head => cases h
    | mutable name => rfl
  | map head key value _ _ =>
    cases head with
    | collection head => cases h
    | mutable name => rfl
  | named _ _ | optional _ _ _ => rfl

/-- The name of the wrapper. -/
lemma exists_of_isBlocked {t : WrappedType} (h : t.isBlocked) :
    ∃ w ∈ wrappers, ∃ rest, t.core.text = w ++ "<" ++ rest := by
  induction t with
  | leaf name => cases h
  | array member ih => exact ih (by simpa [isBlocked, isWrapper, isMutable] using Or.inr h)
  | named member _ => exact ⟨"Array", by decide, member.text ++ ">", by simp [core, text]⟩
  | list head member _ =>
    cases head with
    | collection head => cases h
    | mutable name =>
      exact ⟨_, mutable_mem_wrappers name.2.1, member.text ++ ">",
        by simp [core, text, WrapperHead.text]⟩
  | map head key value _ _ =>
    cases head with
    | collection head => cases h
    | mutable name =>
      exact ⟨_, mutable_mem_wrappers name.2.1, key.text ++ ", " ++ value.text ++ ">",
        by simp [core, text, WrapperHead.text]⟩
  | optional name inner _ =>
    exact ⟨name.1, optional_mem_wrappers name.2, inner.text ++ ">", by simp [core, text]⟩

end WrappedType

/-- Without overrides a wrapper that is taken for a name is not known. -/
lemma Resolver.diagnostics_leaf_wrapper {r : Resolver} (hoverrides : r.overrides = [])
    (htable : ∀ n ∈ r.table.names, isIdent n) {w : Text} (hw : w ∈ wrappers) (rest : Text) :
    (r.leaf (w ++ "<" ++ rest)).diagnostics ≠ [] := by
  have hnames : simpleName (w ++ "<" ++ rest) = simpleName w ++ "<" ++ rest ∧
      startsWith (w ++ "<" ++ rest) "java.time." = false := by
    simp only [wrappers, List.mem_cons, List.not_mem_nil, or_false] at hw
    rcases hw with rfl | rfl | rfl | rfl | rfl | rfl <;> exact ⟨rfl, rfl⟩
  have hopen : ∀ s : Text, ascii '<' ∈ s ++ "<" ++ rest := by
    intro s
    simp [show utf8 "<" = [ascii '<'] by decide]
  have hwritten := hopen w
  have hsimple : ascii '<' ∈ simpleName (w ++ "<" ++ rest) := hnames.1 ▸ hopen (simpleName w)
  have hstart := hnames.2
  generalize w ++ utf8 "<" ++ rest = s at *
  -- no name that is declared or built in has an angle bracket in it
  have hdeclared : simpleName s ∉ r.table.names := by
    intro hmem
    have hb := List.all_eq_true.mp (all_isIdentPart_of_isIdent (htable _ hmem)) _ hsimple
    exact absurd hb (by decide)
  have hscalar : scalars.lookup (simpleName s) = none := by
    have hkeys : ∀ p ∈ scalars, ascii '<' ∉ p.1 := by decide
    rw [Option.eq_none_iff_forall_ne_some]
    intro e he
    exact hkeys _ (mem_of_lookup he) hsimple
  have hdate : isDate s (simpleName s) = false := by
    have hnone : ∀ n ∈ utf8 "java.util.Date" :: dateNames, ascii '<' ∉ n := by decide
    have hutil : s ≠ utf8 "java.util.Date" := fun h => hnone _ List.mem_cons_self (h ▸ hwritten)
    have hshort : simpleName s ∉ dateNames := fun h => hnone _ (List.mem_cons_of_mem _ h) hsimple
    simp [isDate, hutil, hstart, hshort]
  rw [SymbolTable.names, List.mem_append, not_or] at hdeclared
  simp [Resolver.leaf, Resolver.override?, SymbolTable.hasEnum, SymbolTable.hasClass, hoverrides,
    hscalar, hdate, hdeclared]

/-! ### The mapping of wrapped types -/

/-- What a type is mapped to that is taken for a name under its bracket pairs. -/
def Resolver.misread (r : Resolver) (t : WrappedType) : Mapped :=
  Mapped.array^[t.pairs] (r.leaf t.core.text)

namespace WrappedType

/-- An array is mapped to an array of what its members are mapped to, if they are not taken for
names. -/
lemma mapWithin_array (r : Resolver) (root : Text) (allowance : ℕ) (t : WrappedType) :
    r.mapWithin root (allowance + 1) (array t).text =
      (if t.isWrapper then r.misread t else r.mapWithin root (allowance + 1) t.text).array := by
  have hpairs : (array t).unwrapped.pairs = t.plain.pairs + 1 := rfl
  have hparts : (array t).unwrapped.parts = t.plain.parts := rfl
  rw [mapWithin_text, hpairs, hparts, Function.iterate_succ_apply']
  cases hwrapper : t.isWrapper with
  | true =>
    have hmutable : t.isMutable = false := by
      cases t with
      | named _ | optional _ _ => rfl
      | leaf _ | array _ | list _ _ | map _ _ _ => cases hwrapper
    rw [plain_eq_self hmutable, parts_of_isBlocked (by simp [isBlocked, hwrapper])]
    rfl
  | false => rw [mapWithin_text, unwrapped_eq_plain hwrapper]; rfl

/-- An array that is written with a name is one that is written with a bracket pair. -/
lemma mapWithin_named (r : Resolver) (root : Text) (allowance : ℕ) (t : WrappedType) :
    r.mapWithin root (allowance + 1) (named t).text =
      r.mapWithin root (allowance + 1) (array t).text := by
  rw [mapWithin_text, mapWithin_text]
  rfl

/-- An optional type is mapped to what the type inside is mapped to, if that is not taken for a
name. -/
lemma mapWithin_optional (r : Resolver) (root : Text) (allowance : ℕ) (t : WrappedType)
    (name : {q : Text // q ∈ optionalNames}) :
    r.mapWithin root (allowance + 1) (optional name t).text =
      if t.isBlocked then r.misread t else r.mapWithin root (allowance + 1) t.text := by
  rw [mapWithin_text, unwrapped]
  split
  · next hblocked => rw [parts_of_isBlocked hblocked]; rfl
  · next hfree =>
    simp only [isBlocked, Bool.or_eq_true, not_or, Bool.not_eq_true] at hfree
    rw [mapWithin_text, unwrapped_eq_plain hfree.1, plain_eq_self hfree.2]

/-- A collection is mapped to an array of what its members are mapped to. -/
lemma mapWithin_list (r : Resolver) (root : Text) (allowance : ℕ) (t : WrappedType)
    (head : WrapperHead listNames) :
    r.mapWithin root (allowance + 1) (list head t).text =
      (r.mapWithin root allowance t.text).array := by
  rw [mapWithin_text]
  rfl

/-- A collection with a key and a value is mapped to a record. -/
lemma mapWithin_map (r : Resolver) (root : Text) (allowance : ℕ) (key value : WrappedType)
    (head : WrapperHead mapNames) :
    r.mapWithin root (allowance + 1) (map head key value).text =
      mapRecord key.text (r.mapWithin root allowance key.text)
        (r.mapWithin root allowance value.text) := by
  rw [mapWithin_text]
  rfl

/-- The type of texts. -/
def string : WrappedType := .leaf ⟨[], ⟨"String", by decide⟩⟩

/-- Texts are written as texts unless something else is to be written for them. -/
lemma isTextual_string {r : Resolver} (h : r.overrides.lookup (utf8 "String") = none)
    (maxDepth : ℤ) : (r.map maxDepth string.text).expr.kind.isTextual := by
  have hleaf : r.map maxDepth string.text = r.leaf "String" := by
    rw [Resolver.map, mapWithin_text]
    rfl
  have hsimple : simpleName "String" = "String" := by decide
  have hscalar : scalars.lookup (utf8 "String") = some .string := by decide
  rw [hleaf, Resolver.leaf, hsimple, Resolver.override?, h]
  simp only [Option.or_none, hscalar]
  split <;> rfl

/-- Wrappers around a type whose nesting is below the limit, whatever is declared and overridden.

* Every collection and every mutable collection of the type is mapped to an array, and with a key
  that is written as a text, such as a text itself, to a record.
* An array is mapped to an array, unless the type is itself an array that is written with a name, or
  an optional type.
* An optional type is mapped to what the type inside is mapped to, unless this is one of the two or,
  bracket pairs apart, a mutable collection.

What there is to say about the wrapped type is what there is to say about the type.  In the cases
that are left out the type inside is taken for a name, and without overrides that name is not
known. -/
theorem map_wrapped (r : Resolver) (maxDepth : ℤ) (t : WrappedType)
    (h : t.depth < depthLimit maxDepth) :
    let m := r.map maxDepth t.text
    (∀ head, r.map maxDepth (list head t).text = m.array) ∧
      (∀ head key, key.depth < depthLimit maxDepth →
        (r.map maxDepth key.text).expr.kind.isTextual →
        r.map maxDepth (map head key t).text = ⟨.record m.expr, m.diagnostics, false⟩) ∧
      (r.overrides.lookup (utf8 "String") = none → ∀ head,
        r.map maxDepth (map head string t).text = ⟨.record m.expr, m.diagnostics, false⟩) ∧
      r.map maxDepth (array t).text = (if t.isWrapper then r.misread t else m).array ∧
      r.map maxDepth (named t).text = (if t.isWrapper then r.misread t else m).array ∧
      (∀ name, r.map maxDepth (optional name t).text =
        if t.isBlocked then r.misread t else m) ∧
      (r.overrides = [] → (∀ n ∈ r.table.names, isIdent n) → t.isBlocked →
        (r.misread t).diagnostics ≠ []) := by
  intro m
  have hargument := fun root => (r.mapWithin_argument root h).1
  have hhalted : m.halted = false := (r.mapWithin_argument [] h).2
  have hroot : ∀ root, r.mapWithin root (depthLimit maxDepth + 1) t.text = m :=
    fun root => r.mapWithin_root_eq _ root _ _ hhalted
  have hrecord : ∀ head key, key.depth < depthLimit maxDepth →
      (r.map maxDepth key.text).expr.kind.isTextual →
      r.map maxDepth (map head key t).text = ⟨.record m.expr, m.diagnostics, false⟩ := by
    intro head key hkey htextual
    obtain ⟨hsame, hrunning⟩ :=
      r.mapWithin_argument (collapse (map head key t).text) hkey
    rw [Resolver.map, mapWithin_map, hsame, hargument]
    exact mapRecord_of_isTextual _ hrunning htextual (r.diagnostics_of_isTextual _ _ _ htextual)
      hhalted
  refine ⟨fun head => ?_, hrecord, fun hstring head => ?_, ?_, ?_, fun name => ?_, ?_⟩
  · rw [Resolver.map, mapWithin_list, hargument]
  · exact hrecord head string (Nat.zero_lt_of_lt h) (isTextual_string hstring maxDepth)
  · rw [Resolver.map, mapWithin_array, hroot]
  · rw [Resolver.map, mapWithin_named, mapWithin_array, hroot]
  · rw [Resolver.map, mapWithin_optional, hroot]
  · intro hoverrides htable hblocked
    obtain ⟨w, hw, rest, htext⟩ := exists_of_isBlocked hblocked
    rw [Resolver.misread, Resolver.iterate_array, htext]
    exact Resolver.diagnostics_leaf_wrapper hoverrides htable hw rest

/-- An array of mutable lists of arrays that are written with a name. -/
theorem map_wrapped_mutable :
    let int : WrappedType := .leaf ⟨[], ⟨"Int", by decide⟩⟩
    let t := array (list (.mutable ⟨"List", by decide⟩) (named int))
    t.text = utf8 "MutableList<Array<Int>>[]" ∧ t.depth < depthLimit 2 ∧
      ({} : Resolver).map 2 "MutableMap<String, MutableList<Array<Int>>[]>" =
        ⟨.record (.array (.array (.array .integer))), [], false⟩ ∧
      ({} : Resolver).map 2 "Array<MutableList<Array<Int>>[]>" =
        ⟨.array (.array (.array (.array .integer))), [], false⟩ := by
  intro int t
  have hdepth : t.depth < depthLimit 2 := by decide
  have hm : ({} : Resolver).map 2 t.text = ⟨.array (.array (.array .integer)), [], false⟩ := by
    decide +kernel
  obtain ⟨-, -, hstring, -, hnamed, -, -⟩ := map_wrapped {} 2 t hdepth
  refine ⟨by decide, hdepth, ?_, ?_⟩
  · have hrecord := hstring rfl (.mutable ⟨"Map", by decide⟩)
    rwa [hm] at hrecord
  · rwa [hm] at hnamed

/-- Two wrappers in another order than that in which they are looked for: the inner one is taken for
a name, although it is known what it is. -/
theorem map_wrapped_twice :
    let r : Resolver := {}
    let unknown (name : Text) : Mapped := ⟨.unknown, [unknownType name []], false⟩
    r.map 0 "Array<String>" = ⟨.array .string, [], false⟩ ∧
      r.map 0 "Array<Array<String>>" = (unknown "Array<String>").array ∧
      r.map 0 "Array<String>[]" = (unknown "Array<String>").array ∧
      r.map 0 "Optional<Array<String>>" = unknown "Array<String>" ∧
      r.map 0 "MutableList<String>" = ⟨.array .string, [], false⟩ ∧
      r.map 0 "Optional<MutableList<String>[]>" = (unknown "MutableList<String>").array ∧
      r.map 0 "Optional<String>" = ⟨.string, [], false⟩ ∧
      r.map 0 "Array<Optional<String>>" = (unknown "Optional<String>").array ∧
      r.map 0 "Optional<Optional<String>>" = unknown "Optional<String>" := by
  decide +kernel

end WrappedType

end DtoSchema.Schema
