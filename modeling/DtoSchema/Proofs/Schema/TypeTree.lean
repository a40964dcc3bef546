import DtoSchema.Proofs.Source.Name
import DtoSchema.Schema.Mapping

/-!
# The mapping of printed types

`TypeTree` is the language of types made of names, arrays, lists and maps, with its canonical
printing `TypeTree.text` and its meaning `TypeTree.translate`, which follows the tree and never
looks at a text.

The mapper works on texts: it strips wrappers and bracket pairs, takes what stands between the first
and the last angle bracket, and cuts that at commas.  `Resolver.map_text` says that on printed trees
all of this finds exactly the parts of the tree: the mapping of the text is the meaning of the tree,
whatever is declared and overridden, as long as the tree does not nest deeper than the limit.
-/

namespace DtoSchema.Schema

open Text Source

/-! ### Type trees -/

/-- The name of a collection with or without one of the qualifiers of collections. -/
structure CollectionHead (names : List Text) where
  /-- The qualifier. -/
  qualifier : Option {q : Text // q ∈ collectionQualifiers}
  /-- The name behind it. -/
  name : {n : Text // n ∈ names}

/-- The name of a collection as it is written. -/
def CollectionHead.text {names : List Text} (h : CollectionHead names) : Text :=
  h.qualifier.elim [] (·.1) ++ h.name.1

/-- A type made of names, arrays, lists and maps. -/
inductive TypeTree where
  /-- A name without arguments. -/
  | leaf (name : DottedName isIdent)
  /-- An array, written with a bracket pair. -/
  | array (member : TypeTree)
  /-- A collection with one argument. -/
  | list (head : CollectionHead listNames) (member : TypeTree)
  /-- A collection with a key and a value. -/
  | map (head : CollectionHead mapNames) (key value : TypeTree)

namespace TypeTree

/-- The type as it is written. -/
def text : TypeTree → Text
  | leaf name => name.text
  | array member => member.text ++ "[]"
  | list head member => head.text ++ "<" ++ member.text ++ ">"
  | map head key value => head.text ++ "<" ++ key.text ++ ", " ++ value.text ++ ">"

/-- The number of collections around the innermost name. -/
def depth : TypeTree → ℕ
  | leaf _ => 0
  | array member => member.depth
  | list _ member => member.depth + 1
  | map _ key value => max key.depth value.depth + 1

end TypeTree

/-! ### Meaning -/

/-- What a name may stand for, in the order in which it is looked up: a declared enumeration, an
override of the name as written, an override of the simple name, a built-in type, a date, a declared
class. -/
def Resolver.candidates (r : Resolver) (written simple : Text) : List (Option Expr) :=
  [if r.table.hasEnum simple then some (.enumRef simple) else none,
    (r.overrides.lookup written).map .verbatim,
    (r.overrides.lookup simple).map .verbatim,
    scalars.lookup simple,
    if isDate written simple then some .string else none,
    if r.table.hasClass simple then some (.classRef simple) else none]

/-- The meaning of a name: the first thing that it may stand for, and otherwise anything, with a
warning. -/
def Resolver.nameMeaning (r : Resolver) (written simple : Text) : Expr × List Diagnostic :=
  match (r.candidates written simple).findSome? id with
  | some e => (e, [])
  | none => (.unknown, [unknownType written (Naming.suggest simple r.table.names)])

/-- The meaning of a type: an expression and what there is to say about it.  A map whose key is not
written as a text has text keys and values of any kind; what there was to say about the key is
replaced by one warning behind what there is to say about the value. -/
def TypeTree.translate (r : Resolver) : TypeTree → Expr × List Diagnostic
  | leaf name => r.nameMeaning name.text name.last.1
  | array member => (.array (member.translate r).1, (member.translate r).2)
  | list _ member => (.array (member.translate r).1, (member.translate r).2)
  | map _ key value =>
    if (key.translate r).1.kind.isTextual then
      (.record (value.translate r).1, (value.translate r).2)
    else (.record .unknown, (value.translate r).2 ++ [unsupportedKey key.text])

/-- There is nothing to say about a type whose values are written as texts. -/
lemma TypeTree.translate_textual (r : Resolver) (t : TypeTree)
    (h : (t.translate r).1.kind.isTextual) : (t.translate r).2 = [] := by
  cases t with
  | leaf name =>
    simp only [translate, Resolver.nameMeaning] at h ⊢
    split
    · rfl
    · next hnone => simp [hnone, Expr.kind, Kind.isTextual] at h
  | array member => simp [translate, Expr.kind, Kind.isTextual] at h
  | list head member => simp [translate, Expr.kind, Kind.isTextual] at h
  | map head key value =>
    simp only [translate] at h
    split at h <;> simp [Expr.kind, Kind.isTextual] at h

/-! ### Names of collections -/

/-- What holds of all combinations of a qualifier and a name holds of every name of a collection. -/
lemma CollectionHead.forall_text {names : List Text} {p : Text → Bool}
    (h : ([] :: collectionQualifiers).all fun q => names.all fun n => p (q ++ n))
    (head : CollectionHead names) : p head.text := by
  obtain ⟨qualifier, name⟩ := head
  rw [List.all_eq_true] at h
  cases qualifier with
  | none => exact List.all_eq_true.mp (h [] (by simp)) name.1 name.2
  | some q => exact List.all_eq_true.mp (h q.1 (by simp [q.2])) name.1 name.2

/-- The types whose arguments take their place. -/
def wrappers : List Text :=
  ["Array", "Optional", "java.util.Optional", "MutableList", "MutableSet", "MutableMap"]

/-- The text starts like a name, is made of the bytes of names, and names no wrapper. -/
def isHead (s : Text) : Bool := s.head?.any isIdentStart && s.all isNamePart && s ∉ wrappers

lemma isHead_iff {s : Text} :
    isHead s ↔ s.head?.any isIdentStart ∧ s.all isNamePart ∧ s ∉ wrappers := by
  simp only [isHead, Bool.and_eq_true, decide_eq_true_eq, and_assoc]

/-- Collections with one argument are no wrappers. -/
lemma isHead_list (head : CollectionHead listNames) : isHead head.text :=
  head.forall_text (by decide +kernel)

/-- Collections with a key and a value are no wrappers. -/
lemma isHead_map (head : CollectionHead mapNames) : isHead head.text :=
  head.forall_text (by decide +kernel)

/-- Without its qualifier the name of a collection with one argument is one of these names. -/
lemma collectionName_list (head : CollectionHead listNames) :
    collectionName head.text ∈ listNames := by
  simpa using head.forall_text (p := fun s => collectionName s ∈ listNames) (by decide +kernel)

/-- Without its qualifier the name of a collection with a key and a value is one of these names. -/
lemma collectionName_map (head : CollectionHead mapNames) :
    collectionName head.text ∈ mapNames ∧ collectionName head.text ∉ listNames := by
  simpa using head.forall_text
    (p := fun s => collectionName s ∈ mapNames ∧ collectionName s ∉ listNames) (by decide +kernel)

/-! ### The shape of printed types -/

/-- A name with arguments has the shape of a type. -/
lemma hasTypeShape_generic {name : Text} (hname : name.all isNamePart) (rest : Text) :
    HasTypeShape (name ++ "<" ++ rest) name ("<" ++ rest) := by
  refine ⟨List.append_assoc .., hname, fun b hb => ?_⟩
  simp_all [utf8_openAngle]

/-- A printed type has the shape of a type, and arguments follow only names that are no wrappers. -/
lemma TypeTree.hasTypeShape (t : TypeTree) : ∃ name rest, HasTypeShape t.text name rest ∧
    (rest.head? = some (ascii '<') → name ∉ wrappers) := by
  induction t with
  | leaf name =>
    exact ⟨name.text, [], ⟨by simp [text], name.text_all fun _ h => h, by simp⟩, by simp⟩
  | array member ih =>
    obtain ⟨name, rest, hshape, hwrapper⟩ := ih
    have hpair : utf8 "[]" = [ascii '[', ascii ']'] := by decide
    refine ⟨name, rest ++ "[]", ⟨by simp [text, hshape.eq_append], hshape.name_all, ?_⟩, ?_⟩
    · intro b hb
      cases rest with
      | nil => simp_all
      | cons c rest => exact hshape.rest_head b (by simpa using hb)
    · intro hb
      cases rest with
      | nil => simp [hpair, show ascii '[' ≠ ascii '<' by decide] at hb
      | cons c rest => exact hwrapper (by simpa using hb)
  | list head member _ =>
    obtain ⟨-, hname, hwrapper⟩ := isHead_iff.mp (isHead_list head)
    have hshape := hasTypeShape_generic hname (member.text ++ ">")
    exact ⟨_, _, by simpa [text] using hshape, fun _ => hwrapper⟩
  | map head key value _ _ =>
    obtain ⟨-, hname, hwrapper⟩ := isHead_iff.mp (isHead_map head)
    have hshape := hasTypeShape_generic hname (key.text ++ ", " ++ value.text ++ ">")
    exact ⟨_, _, by simpa [text] using hshape, fun _ => hwrapper⟩

/-- Two tidy texts with a comma and a space between them are tidy. -/
lemma isTidy_comma {s t : Text} (hs : isTidy s) (ht : isTidy t) : isTidy (s ++ ", " ++ t) := by
  have hc : isInk (ascii ',') := by decide
  have hb : isInk (ascii ' ') = false := by decide
  have hrest : tidyFrom true (utf8 ", " ++ t) := by
    simpa [utf8_commaSpace, tidyFrom, hc, hb, isTidy] using ht
  rw [List.append_assoc]
  exact tidyFrom_append hs hrest

/-- A name is a sequence of visible bytes. -/
lemma isTidy_name {s : Text} (hhead : s.head?.any isIdentStart) (hname : s.all isNamePart) :
    isTidy s := by
  have hink : s.all isInk := by
    rw [List.all_eq_true] at hname ⊢
    exact fun b hb => isInk_of_isNamePart (hname b hb)
  cases s with
  | nil => simp at hhead
  | cons b s =>
    simp only [List.all_cons, Bool.and_eq_true] at hink
    simp [isTidy, tidyFrom, hink.1, tidyFrom_ink hink.2]

/-- A name with tidy arguments is tidy. -/
lemma isTidy_generic {name inner : Text} (hhead : name.head?.any isIdentStart)
    (hname : name.all isNamePart) (hinner : isTidy inner) :
    isTidy (name ++ "<" ++ inner ++ ">") := by
  have hopen : tidyFrom true (utf8 "<") := by decide
  have hclose : tidyFrom true (utf8 ">") := by decide
  exact tidyFrom_append (tidyFrom_append (tidyFrom_append (isTidy_name hhead hname) hopen)
    (tidyFrom_mono hinner)) hclose

/-- A printed type is a sequence of visible bytes with single spaces. -/
lemma TypeTree.isTidy_text (t : TypeTree) : isTidy t.text := by
  induction t with
  | leaf name => exact isTidy_name (name.text_head? fun _ h => h) (name.text_all fun _ h => h)
  | array member ih => exact tidyFrom_append ih (by decide)
  | list head member ih =>
    obtain ⟨hstart, hname, -⟩ := isHead_iff.mp (isHead_list head)
    exact isTidy_generic hstart hname ih
  | map head key value ihk ihv =>
    obtain ⟨hstart, hname, -⟩ := isHead_iff.mp (isHead_map head)
    simpa [text] using isTidy_generic hstart hname (isTidy_comma ihk ihv)

/-- A name is not cut at commas. -/
lemma nested_name {s : Text} (hname : s.all isNamePart) : Nested .all (· == ascii ',') s :=
  .of_class [ascii ','] (by simp) (by decide) (by decide) hname

/-- A name with arguments is not cut at commas. -/
lemma nested_generic {name inner : Text} (hname : name.all isNamePart)
    (hinner : Balanced .all inner) :
    Nested .all (· == ascii ',') (name ++ "<" ++ inner ++ ">") := by
  have hangle : (ascii '<', ascii '>') ∈ Brackets.all.pairs := by decide
  have h := (nested_name hname).append (.enclose hangle hinner)
  simpa [utf8_openAngle, utf8_closeAngle] using h

/-- A text with a bracket pair behind it is not cut at commas if the text is not. -/
lemma nested_array {s : Text} (h : Nested .all (· == ascii ',') s) :
    Nested .all (· == ascii ',') (s ++ "[]") := by
  have hpair : Nested .all (· == ascii ',') (utf8 "[]") :=
    .enclose (o := ascii '[') (c := ascii ']') (t := []) (by decide) .nil
  exact h.append hpair

/-- Brackets are closed in two texts with a comma between them. -/
lemma balanced_comma {s t : Text} (hs : Balanced .all s) (ht : Balanced .all t) :
    Balanced .all (s ++ ", " ++ t) := by
  have hcomma : Balanced .all (utf8 ", ") := .of_plain (by decide)
  exact (hs.append hcomma).append ht

/-- A printed type is not cut at commas. -/
lemma TypeTree.nested_text (t : TypeTree) : Nested .all (· == ascii ',') t.text := by
  induction t with
  | leaf name => exact nested_name (name.text_all fun _ h => h)
  | array member ih => exact nested_array ih
  | list head member ih =>
    exact nested_generic (isHead_iff.mp (isHead_list head)).2.1 ih.balanced
  | map head key value ihk ihv =>
    simpa [text] using nested_generic (isHead_iff.mp (isHead_map head)).2.1
      (balanced_comma ihk.balanced ihv.balanced)

/-! ### Wrappers -/

section Shape

variable {s name rest : Text}

/-- A type has no arguments behind another name than its own. -/
lemma argumentsOf?_eq_none (hs : HasTypeShape s name rest) {w : Text}
    (hw : w.all isNamePart) (hne : rest.head? = some (ascii '<') → name ≠ w) :
    argumentsOf? w s = none := by
  cases h : afterPrefix? w s with
  | none => simp [argumentsOf?, h]
  | some r =>
    obtain ⟨u, hname, rfl⟩ := hs.afterPrefix? hw h
    obtain ⟨hskip, hopen⟩ := hs.skipGaps hname
    have hnone : angleContent? (u ++ rest) = none := by
      unfold angleContent?
      rw [hskip]
      cases hcase : u ++ rest with
      | nil => rfl
      | cons b t =>
        have hb : b ≠ ascii '<' := by
          rintro rfl
          obtain ⟨hwname, hrest⟩ := hopen (by simp [hcase])
          exact hne hrest hwname
        simp [hb]
    simp [argumentsOf?, h, hnone]

/-- A type is no mutable collection if its name is none. -/
lemma dropMutable_eq_self (hs : HasTypeShape s name rest)
    (hname : rest.head? = some (ascii '<') → ∀ w ∈ mutableCollections, name ≠ utf8 "Mutable" ++ w) :
    dropMutable s = s := by
  have hmutable : ∀ w ∈ mutableCollections, (utf8 "Mutable" ++ w).all isNamePart := by
    decide +kernel
  have hnone : ∀ w ∈ mutableCollections, ∀ r₁ r₂ r₃, afterPrefix? "Mutable" s = some r₁ →
      afterPrefix? w r₁ = some r₂ → afterPrefix? "<" (skipGaps r₂) = some r₃ →
      False := by
    intro w hw r₁ r₂ r₃ h₁ h₂ h₃
    have h : afterPrefix? (utf8 "Mutable" ++ w) s = some r₂ := by
      rw [afterPrefix?_eq_some_iff] at h₁ h₂ ⊢
      rw [h₁, h₂, List.append_assoc]
    obtain ⟨u, hu, rfl⟩ := hs.afterPrefix? (hmutable w hw) h
    obtain ⟨hskip, hopen⟩ := hs.skipGaps hu
    rw [hskip, afterPrefix?_eq_some_iff] at h₃
    obtain ⟨hwname, hrest⟩ := hopen (by simp [h₃, show utf8 "<" = [ascii '<'] by decide])
    exact hname hrest w hw hwname
  cases h₁ : afterPrefix? "Mutable" s with
  | none => simp [dropMutable, h₁]
  | some r₁ =>
    have hfind : (mutableCollections.findSome? fun name =>
        (afterPrefix? name r₁).bind fun rest =>
          (afterPrefix? "<" (skipGaps rest)).map fun rest => name ++ "<" ++ rest) =
        none := by
      rw [List.findSome?_eq_none_iff]
      intro w hw
      cases h₂ : afterPrefix? w r₁ with
      | none => rfl
      | some r₂ =>
        cases h₃ : afterPrefix? "<" (skipGaps r₂) with
        | none => simp [h₃]
        | some r₃ => exact (hnone w hw r₁ r₂ r₃ h₁ h₂ h₃).elim
    simp only [dropMutable, h₁, Option.bind_some, hfind, Option.getD_none]

/-- A type is not optional if its name is no wrapper. -/
lemma unwrapOptional_eq_self (hs : HasTypeShape s name rest)
    (hwrapper : rest.head? = some (ascii '<') → name ∉ wrappers) : unwrapOptional s = s := by
  have hnone :
      argumentsOf? "Optional" ((afterPrefix? "java.util." s).getD s) = none := by
    cases h : afterPrefix? "java.util." s with
    | none =>
      refine argumentsOf?_eq_none hs (by decide) fun hrest hname => hwrapper hrest ?_
      rw [hname]
      decide
    | some r =>
      obtain ⟨u, hname, rfl⟩ := hs.afterPrefix? (by decide) h
      have hall := hs.name_all
      rw [hname, List.all_append, Bool.and_eq_true] at hall
      have hs' : HasTypeShape (u ++ rest) u rest := ⟨rfl, hall.2, hs.rest_head⟩
      refine argumentsOf?_eq_none hs' (by decide) fun hrest hu => hwrapper hrest ?_
      rw [hname, hu]
      decide
  simp [unwrapOptional, hnone]

/-- No type starts with the word `final` and a space. -/
lemma afterPrefix?_final (hs : HasTypeShape s name rest) :
    afterPrefix? "final " s = none := by
  have hfinal : utf8 "final " = utf8 "final" ++ [ascii ' '] := by decide
  cases h : afterPrefix? "final " s with
  | none => rfl
  | some r =>
    have h' : afterPrefix? "final" s = some (ascii ' ' :: r) := by
      rw [afterPrefix?_eq_some_iff] at h ⊢
      rw [h, hfinal, List.append_assoc]
      rfl
    obtain ⟨u, hname, hr⟩ := hs.afterPrefix? (by decide) h'
    have hskip := (hs.skipGaps hname).1
    rw [← hr] at hskip
    have hlen := congrArg List.length hskip
    have hgap : isGap (ascii ' ') := by decide
    have hle := (List.dropWhile_suffix isGap (l := r)).length_le
    simp only [skipGaps, List.dropWhile_cons, hgap, if_true, List.length_cons] at hlen
    omega

end Shape

/-- Nothing is removed from around a printed type. -/
lemma TypeTree.unwrap_text (t : TypeTree) : unwrap t.text = t.text := by
  obtain ⟨name, rest, hshape, hwrapper⟩ := t.hasTypeShape
  have harray : argumentsOf? "Array" t.text = none := by
    refine argumentsOf?_eq_none hshape (by decide) fun hrest hname => hwrapper hrest ?_
    rw [hname]
    decide
  have hmutable : ∀ w ∈ mutableCollections, utf8 "Mutable" ++ w ∈ wrappers := by decide +kernel
  have hplain : dropMutable t.text = t.text :=
    dropMutable_eq_self hshape fun hrest w hw hname => hwrapper hrest (hname ▸ hmutable w hw)
  simp [unwrap, collapse_eq_self t.isTidy_text, afterPrefix?_final hshape, unwrapArray, harray,
    hplain, unwrapOptional_eq_self hshape hwrapper]

/-! ### Bracket pairs -/

/-- The type without its bracket pairs. -/
def TypeTree.core : TypeTree → TypeTree
  | array member => member.core
  | t => t

/-- The number of bracket pairs of a type. -/
def TypeTree.pairs : TypeTree → ℕ
  | array member => member.pairs + 1
  | _ => 0

/-- The bracket pair at the end of an array is found. -/
lemma memberType?_array {s : Text} (h : isTidy s) : memberType? (s ++ "[]") = some s := by
  have hgap : isGap (ascii '[') = false := by decide
  simp [memberType?, utf8_pair, hgap, trim_eq_self (isTrimmed_of_isTidy h)]

/-- A text that ends with another byte than a closing bracket is no array. -/
lemma memberType?_eq_none {s : Text} (h : s.getLast? ≠ some (ascii ']')) :
    memberType? s = none := by
  induction s using List.reverseRecOn with
  | nil => rfl
  | append_singleton s b _ =>
    have hb : b ≠ ascii ']' := by simpa using h
    simp [memberType?, hb]

/-- A name does not end with a bracket. -/
lemma getLast?_ne_of_isNamePart {s : Text} (h : s.all isNamePart) :
    s.getLast? ≠ some (ascii ']') := by
  intro hlast
  have hb := List.all_eq_true.mp h _ (List.mem_of_getLast? hlast)
  exact absurd hb (by decide)

/-- A type that is no array has no bracket pairs. -/
lemma splitArrayWithin_eq_self {s : Text} (h : memberType? s = none) (limit : ℕ) :
    splitArrayWithin limit s = (s, 0) := by
  cases limit with
  | zero => rfl
  | succ limit => simp [splitArrayWithin, h]

/-- A type with arguments has no bracket pairs. -/
lemma splitArrayWithin_generic (s : Text) (limit : ℕ) :
    splitArrayWithin limit (s ++ ">") = (s ++ ">", 0) := by
  have hne : (ascii '>' : UInt8) ≠ ascii ']' := by decide
  exact splitArrayWithin_eq_self (memberType?_eq_none (by simp [utf8_closeAngle, hne])) limit

/-- A bracket pair is counted with those before it. -/
lemma splitArrayWithin_array {s core : Text} {pairs : ℕ} (hs : isTidy s)
    (h : ∀ limit, s.length ≤ limit → splitArrayWithin limit s = (core, pairs)) (limit : ℕ)
    (hlimit : (s ++ "[]").length ≤ limit) :
    splitArrayWithin limit (s ++ "[]") = (core, pairs + 1) := by
  simp only [utf8_pair, List.length_append, List.length_cons] at hlimit
  obtain ⟨limit, rfl⟩ : ∃ n, limit = n + 1 := ⟨limit - 1, by omega⟩
  simp only [splitArrayWithin, memberType?_array hs, h limit (by omega)]

/-- The bracket pairs at the end of a printed type are those of the tree. -/
lemma TypeTree.splitArray_text (t : TypeTree) : splitArray t.text = (t.core.text, t.pairs) := by
  suffices h : ∀ limit, t.text.length ≤ limit →
      splitArrayWithin limit t.text = (t.core.text, t.pairs) from h _ le_rfl
  induction t with
  | leaf name =>
    intro limit _
    exact splitArrayWithin_eq_self (memberType?_eq_none
      (getLast?_ne_of_isNamePart (name.text_all fun _ h => h))) limit
  | array member ih => exact splitArrayWithin_array member.isTidy_text ih
  | list head member _ => exact fun limit _ => splitArrayWithin_generic _ limit
  | map head key value _ _ => exact fun limit _ => splitArrayWithin_generic _ limit

/-! ### Arguments -/

/-- The content of angle brackets. -/
lemma angleContent?_brackets {inner : Text} (hinner : isTidy inner) :
    angleContent? (ascii '<' :: (inner ++ [ascii '>'])) = some inner := by
  have hgap : isGap (ascii '<') = false := by decide
  have hne : inner ≠ [] := by
    rintro rfl
    simp [isTidy, tidyFrom] at hinner
  simp [angleContent?, skipGaps, hgap, hne]

/-- The content of angle brackets behind a name. -/
lemma splitGeneric?_append {name inner : Text} (hhead : name.head?.any isIdentStart)
    (hname : name.all isNamePart) (hinner : isTidy inner) :
    splitGeneric? (name ++ "<" ++ inner ++ ">") = some (name, inner) := by
  have hpart : isNamePart (ascii '<') = false := by decide
  cases name with
  | nil => simp at hhead
  | cons b name =>
    have hb : isIdentStart b := by simpa using hhead
    simp only [List.all_cons, Bool.and_eq_true] at hname
    have htake : (name ++ ascii '<' :: (inner ++ [ascii '>'])).takeWhile isNamePart = name := by
      rw [List.takeWhile_append_of_pos (List.all_eq_true.mp hname.2)]
      simp [hpart]
    have hdrop : (name ++ ascii '<' :: (inner ++ [ascii '>'])).dropWhile isNamePart =
        ascii '<' :: (inner ++ [ascii '>']) := by
      rw [List.dropWhile_append_of_pos (List.all_eq_true.mp hname.2)]
      simp [hpart]
    have hfun : (fun c => isIdentPart c || c == ascii '.') = isNamePart := rfl
    simp only [utf8_openAngle, utf8_closeAngle, List.append_assoc, List.cons_append,
      List.nil_append, splitGeneric?, hb, if_true, hfun, htake, hdrop, Option.map_some,
      angleContent?_brackets hinner, trim_eq_self (isTrimmed_of_isTidy hinner)]

/-- A name has no arguments. -/
lemma splitGeneric?_name {name : Text} (hname : name.all isNamePart) :
    splitGeneric? name = none := by
  cases name with
  | nil => rfl
  | cons b name =>
    simp only [List.all_cons, Bool.and_eq_true] at hname
    have hdrop : name.dropWhile isNamePart = [] := by
      rw [List.dropWhile_eq_nil_iff]
      exact List.all_eq_true.mp hname.2
    have hfun : (fun c => isIdentPart c || c == ascii '.') = isNamePart := rfl
    simp [splitGeneric?, hfun, hdrop, angleContent?, skipGaps]

/-- Two arguments are cut at the comma between them. -/
lemma splitTopLevel_comma {s t : Text} (hs : Nested .all (· == ascii ',') s)
    (ht : Nested .all (· == ascii ',') t) :
    splitTopLevel (ascii ',') (s ++ ", " ++ t) = [s, ascii ' ' :: t] := by
  have hB : Brackets.all.isProper := by decide
  have hblank : Nested .all (· == ascii ',') (ascii ' ' :: t) := .byte (by decide) (by decide) ht
  rw [splitTopLevel, utf8_commaSpace, List.append_assoc, List.cons_append, List.cons_append,
    List.nil_append, segments_nested_cut hB hs (by decide) (by decide), segments_nested_self hB hblank]
  simp [dropEmptyEnd]

/-- The key and the value of a map are cut at the comma between them. -/
lemma TypeTree.splitTopLevel_arguments (key value : TypeTree) :
    splitTopLevel (ascii ',') (key.text ++ ", " ++ value.text) =
      [key.text, ascii ' ' :: value.text] :=
  splitTopLevel_comma key.nested_text value.nested_text

/-! ### Names -/

/-- A name without qualifiers is found behind nothing. -/
lemma simpleNameFrom_ident {w : Text} (hw : isIdent w) (found : Text) :
    simpleNameFrom found false w = found := by
  have hinside : ∀ {s : Text}, s.all isIdentPart → simpleNameFrom found true s = found := by
    intro s
    induction s with
    | nil => intro _; rfl
    | cons b s ih =>
      intro hs
      simp only [List.all_cons, Bool.and_eq_true] at hs
      have hdot : b ≠ ascii '.' := ne_of_class hs.1 (by decide)
      simp [simpleNameFrom, hdot, hs.1, ih hs.2]
  cases w with
  | nil => rfl
  | cons b s =>
    simp only [isIdent, Bool.and_eq_true] at hw
    simp [simpleNameFrom, hw.1, hinside hw.2]

/-- A qualifier and its dot are passed over. -/
lemma simpleNameFrom_qualifier {w : Text} (hw : isIdent w) (found s : Text) :
    simpleNameFrom found false (w ++ ascii '.' :: s) = simpleNameFrom s false s := by
  have hinside : ∀ {u : Text}, u.all isIdentPart →
      simpleNameFrom found true (u ++ ascii '.' :: s) = simpleNameFrom s false s := by
    intro u
    induction u with
    | nil => intro _; simp [simpleNameFrom]
    | cons b u ih =>
      intro hu
      simp only [List.all_cons, Bool.and_eq_true] at hu
      have hdot : b ≠ ascii '.' := ne_of_class hu.1 (by decide)
      simp [simpleNameFrom, hdot, hu.1, ih hu.2]
  cases w with
  | nil => simp [isIdent] at hw
  | cons b u =>
    simp only [isIdent, Bool.and_eq_true] at hw
    simp [simpleNameFrom, hw.1, hinside hw.2]

/-- The simple name of a dotted name is its last identifier. -/
lemma simpleName_text (name : DottedName isIdent) : simpleName name.text = name.last.1 := by
  obtain ⟨qualifiers, last⟩ := name
  unfold simpleName
  induction qualifiers with
  | nil => exact simpleNameFrom_ident last.2 _
  | cons w ws ih =>
    rw [DottedName.text_cons, simpleNameFrom_qualifier w.2]
    exact ih

/-- A name is looked up in the order of its candidates. -/
lemma Resolver.leaf_text (r : Resolver) (name : DottedName isIdent) :
    r.leaf name.text = ⟨(r.nameMeaning name.text name.last.1).1,
      (r.nameMeaning name.text name.last.1).2, false⟩ := by
  unfold Resolver.leaf Resolver.nameMeaning Resolver.candidates Resolver.override?
  rw [simpleName_text]
  by_cases henum : r.table.hasEnum name.last.1
  · simp [henum]
  cases hwritten : r.overrides.lookup name.text with
  | some text => simp [henum]
  | none =>
    cases hsimple : r.overrides.lookup name.last.1 with
    | some text => simp [henum, hsimple]
    | none =>
      cases hscalar : scalars.lookup name.last.1 with
      | some e => simp [henum, hsimple, hscalar]
      | none =>
        by_cases hdate : isDate name.text name.last.1
        · simp [henum, hsimple, hscalar, hdate]
        by_cases hclass : r.table.hasClass name.last.1
        · simp [henum, hsimple, hscalar, hdate, hclass]
        · simp [henum, hsimple, hscalar, hdate, hclass]

/-! ### The mapping of a tree -/

/-- One level of the mapping of a printed type: its bracket pairs are counted, and what is left is
mapped without them. -/
lemma Resolver.mapWithin_text (r : Resolver) (root : Text) (allowance : ℕ) (t : TypeTree) :
    r.mapWithin root (allowance + 1) t.text =
      { r.base (r.mapWithin root allowance) t.core.text with
        expr := (r.base (r.mapWithin root allowance) t.core.text).expr.arrays t.pairs } := by
  simp [Resolver.mapWithin, t.unwrap_text, t.splitArray_text]

/-- The mapping of a printed type within enough levels is its meaning. -/
lemma Resolver.mapWithin_text_eq_translate (r : Resolver) (root : Text) (t : TypeTree)
    (allowance : ℕ) (h : t.depth ≤ allowance) :
    r.mapWithin root (allowance + 1) t.text =
      ⟨(t.translate r).1, (t.translate r).2, false⟩ := by
  induction t generalizing allowance with
  | leaf name =>
    have hname := name.text_all fun _ h => h
    rw [mapWithin_text]
    simp only [TypeTree.core, TypeTree.pairs, TypeTree.text, Resolver.base,
      splitGeneric?_name hname, leaf_text, TypeTree.translate, Expr.arrays]
  | array member ih =>
    -- an array has the core of its member and one more bracket pair
    have hmember := ih allowance h
    rw [mapWithin_text] at hmember ⊢
    simp only [TypeTree.core, TypeTree.pairs, Expr.arrays, TypeTree.translate]
    simp only [Mapped.mk.injEq] at hmember ⊢
    exact ⟨by rw [hmember.1], hmember.2⟩
  | list head member ih =>
    simp only [TypeTree.depth, Nat.add_one_le_iff] at h
    obtain ⟨allowance, rfl⟩ := Nat.exists_eq_add_one_of_ne_zero (by omega : allowance ≠ 0)
    obtain ⟨hstart, hname, -⟩ := isHead_iff.mp (isHead_list head)
    have hmember := ih allowance (by omega)
    rw [mapWithin_text]
    simp only [TypeTree.core, TypeTree.pairs, TypeTree.text, Resolver.base,
      splitGeneric?_append hstart hname member.isTidy_text, collectionName_list, if_true,
      hmember, TypeTree.translate, Expr.arrays]
  | map head key value ihk ihv =>
    simp only [TypeTree.depth, Nat.add_one_le_iff] at h
    obtain ⟨allowance, rfl⟩ := Nat.exists_eq_add_one_of_ne_zero (by omega : allowance ≠ 0)
    obtain ⟨hstart, hname, -⟩ := isHead_iff.mp (isHead_map head)
    obtain ⟨hmap, hlist⟩ := collectionName_map head
    have hkey := ihk allowance (by omega)
    have hvalue := ihv allowance (by omega)
    have hgeneric := splitGeneric?_append hstart hname
      (isTidy_comma key.isTidy_text value.isTidy_text)
    simp only [← List.append_assoc] at hgeneric
    rw [mapWithin_text]
    simp only [TypeTree.core, TypeTree.pairs, TypeTree.text, Resolver.base, hgeneric, hlist, hmap,
      if_true, if_false, TypeTree.splitTopLevel_arguments, trim_blank,
      trim_eq_self (isTrimmed_of_isTidy key.isTidy_text),
      trim_eq_self (isTrimmed_of_isTidy value.isTidy_text), hkey, hvalue, Expr.arrays,
      mapRecord, TypeTree.translate]
    by_cases htext : (key.translate r).1.kind.isTextual
    · simp [htext, key.translate_textual r htext]
    · simp [htext]

/-- The mapping of a printed type is its meaning, whatever is declared and overridden, if the type
does not nest deeper than the limit. -/
theorem Resolver.map_text (r : Resolver) (maxDepth : ℤ) (t : TypeTree)
    (h : t.depth ≤ depthLimit maxDepth) :
    r.map maxDepth t.text = ⟨(t.translate r).1, (t.translate r).2, false⟩ :=
  r.mapWithin_text_eq_translate (collapse t.text) t (depthLimit maxDepth) h

/-- A map with a list as its key and an array of sets as its value, at the limit of nesting. -/
theorem Resolver.map_text_nested :
    let user : TypeTree := .leaf ⟨[], ⟨"User", by decide⟩⟩
    let string : TypeTree :=
      .leaf ⟨[⟨"java", by decide⟩, ⟨"lang", by decide⟩], ⟨"String", by decide⟩⟩
    let t : TypeTree := .map ⟨none, ⟨"Map", by decide⟩⟩ (.list ⟨none, ⟨"List", by decide⟩⟩ string)
      (.array (.list ⟨some ⟨"java.util.", by decide⟩, ⟨"Set", by decide⟩⟩ (.array user)))
    t.text = utf8 "Map<List<java.lang.String>, java.util.Set<User[]>[]>" ∧
      t.depth ≤ depthLimit 2 ∧
      ({} : Resolver).map 2 t.text =
        ⟨.record .unknown, [unknownType "User" [], unsupportedKey "List<java.lang.String>"],
          false⟩ := by
  intro user string t
  have hdepth : t.depth ≤ depthLimit 2 := by decide
  refine ⟨by decide, hdepth, ?_⟩
  rw [Resolver.map_text {} 2 t hdepth]
  decide +kernel

end DtoSchema.Schema
