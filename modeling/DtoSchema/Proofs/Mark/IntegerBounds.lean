import DtoSchema.Proofs.Mark.Order
import DtoSchema.Proofs.Text.Numeral
import DtoSchema.Schema.Refinement

/-!
# Integer bounds

An integer bound goes from the argument of an annotation into a call behind the schema of the field.
On this way it is cut out of the annotation, its marks of a long number are dropped, it is read into
64 bits and it is printed again.

A numeral is read as its value or not at all (`integerLiteral?_text`).  So an annotation that stands
alone on a field adds the calls for the numerals that it gives, each in its own place and with the
whole value, and it adds none for a numeral that is too large or too small
(`refine_eq_boundCalls`).
-/

namespace DtoSchema.Text

/-- A numeral is made of visible bytes that start no target. -/
lemma numeral_byte {b : UInt8} (hb : isDigit b || isLongMark b || b == ascii '-') :
    isInk b ∧ b ≠ ascii '@' := by
  revert b
  decide +kernel

namespace Numeral

lemma byte_of_mem {n : Numeral} {b : UInt8} (hb : b ∈ n.text) : isInk b ∧ b ≠ ascii '@' := by
  apply numeral_byte
  rw [text, plain, List.mem_append, List.mem_append] at hb
  rcases hb with (hsign | hdigit) | hmark
  · have hminus : utf8 "-" = [ascii '-'] := by decide
    have hb : b = ascii '-' := by
      unfold onlyIf at hsign
      split at hsign
      · simpa [hminus] using hsign
      · simp at hsign
    simp [hb]
  · simp [List.all_eq_true.mp n.digits_isDigit b hdigit]
  · simp [List.all_eq_true.mp n.marks_isLongMark b hmark]

lemma trim_text (n : Numeral) : trim n.text = n.text := by
  have hink : ∀ b ∈ n.text, isInk b := fun b hb => (byte_of_mem hb).1
  refine trim_eq_self (Bool.and_eq_true_iff.mpr ⟨?_, ?_⟩)
  · exact (Option.all_eq_true _ _).mpr fun b hb => hink b (List.mem_of_mem_head? hb)
  · exact (Option.all_eq_true _ _).mpr fun b hb => hink b (List.mem_of_mem_getLast? hb)

lemma dropTargets_text (n : Numeral) : Constraints.dropTargets n.text = n.text :=
  Constraints.dropTargets_of_notMem fun h => (byte_of_mem h).2 rfl

/-- A numeral is read as its value if that is a signed 64-bit integer, and is not read otherwise. -/
lemma integerLiteral?_text (n : Numeral) : Constraints.integerLiteral? n.text =
    if -2 ^ 63 ≤ n.value ∧ n.value < 2 ^ 63 then some n.value else none := by
  have hplain : dropWhileEnd (fun b => b == ascii 'l' || b == ascii 'L') n.text = n.plain :=
    n.dropWhileEnd_text
  rw [Constraints.integerLiteral?, trim_text, hplain, int64?_plain]

end Numeral

end DtoSchema.Text

namespace DtoSchema.Mark.Written

open Text Source Declaration

/-- The simple name of a printed annotation is the last identifier of its name. -/
lemma simpleName_mark (a : Written) : a.mark.simpleName = a.name.last.1 := by
  have hlast : ascii '.' ∉ a.name.last.1.reverse := by
    rw [List.mem_reverse]
    exact Ident.notMem a.name.last (by decide)
  have hname : a.mark.name.reverse =
      a.name.last.1.reverse ++ (DottedName.qualification a.name.qualifiers).reverse := by
    simp [mark, DottedName.text]
  rw [Mark.simpleName, cutLast?, hname]
  -- only the qualifiers end in a dot
  rcases List.eq_nil_or_concat a.name.qualifiers with hnil | ⟨init, w, hconcat⟩
  · have hall : a.mark.name = a.name.last.1 := by
      simp [mark, DottedName.text, DottedName.qualification, hnil]
    simp [hnil, DottedName.qualification, cut?_eq_none hlast, hall]
  · have hqualification : (DottedName.qualification a.name.qualifiers).reverse =
        ascii '.' :: (DottedName.qualification init ++ w.1).reverse := by
      simp [hconcat, DottedName.qualification, utf8_dot]
    rw [hqualification, cut?_append_cons hlast]
    simp

/-- The value of an annotation is its first argument with the key `value`, or else its first argument
without key. -/
lemma value?_mark (a : Written) :
    a.mark.value? = (a.values (some "value") ++ a.values none).head? := by
  have hnamed := a.named?_mark ⟨"value", by decide⟩
  rw [Mark.value?, hnamed, positional?_mark, List.head?_append, ← List.head?_eq_getElem?]

end DtoSchema.Mark.Written

namespace DtoSchema.Schema

open Text Declaration Mark Written Constraints

/-! ### Bounds that an annotation gives -/

/-- The call for a bound: it has the value of the numeral if that is a signed 64-bit integer, and
there is none otherwise. -/
def boundCall (method : Text) : Option Numeral → Text
  | some n =>
    if -2 ^ 63 ≤ n.value ∧ n.value < 2 ^ 63 then "." ++ method ++ "(" ++ ofInt n.value ++ ")" else []
  | none => []

/-- The annotation gives these numerals as the lower and the upper bound of a field whose schema has
this kind. -/
inductive GivesBounds (a : Written) : Kind → Option Numeral → Option Numeral → Prop
  /-- The value of `Min` bounds a number from below. -/
  | least {n : Numeral} : a.name.last.1 = "Min" →
      (a.values (some "value") ++ a.values none).head? = some n.text →
      GivesBounds a .number (some n) none
  /-- The value of `Max` bounds a number from above. -/
  | greatest {n : Numeral} : a.name.last.1 = "Max" →
      (a.values (some "value") ++ a.values none).head? = some n.text →
      GivesBounds a .number none (some n)
  /-- The arguments of `Size` bound the size of a text or of an array. -/
  | size {kind : Kind} {lower upper : Option Numeral} : a.name.last.1 = "Size" →
      kind = .string ∨ kind = .array →
      (a.values (some "min")).head? = lower.map (·.text) →
      (a.values (some "max")).head? = upper.map (·.text) →
      GivesBounds a kind lower upper

section

variable {a : Written} {kind : Kind} {lower upper : Option Numeral}

/-- The bounds do not depend on what the annotation applies to. -/
lemma GivesBounds.applied (h : GivesBounds a kind lower upper) (site : UseSite) :
    GivesBounds (a.applied site) kind lower upper := by
  cases h with
  | least hname hvalue => exact .least hname hvalue
  | greatest hname hvalue => exact .greatest hname hvalue
  | size hname hkind hlower hupper => exact .size hname hkind hlower hupper

/-- Numerals hold no targets that could be dropped. -/
lemma GivesBounds.untargeted (h : GivesBounds a kind lower upper) :
    GivesBounds a.untargeted kind lower upper := by
  have hkept : ∀ n : Option Numeral, (n.map (·.text)).map dropTargets = n.map (·.text) := by
    intro n
    rw [Option.map_map]
    exact congrArg (n.map ·) (funext fun n => n.dropTargets_text)
  have hvalue : ∀ {n : Numeral},
      (a.values (some "value") ++ a.values none).head? = some n.text →
      (a.untargeted.values (some "value") ++ a.untargeted.values none).head? = some n.text := by
    intro n hn
    rw [values_untargeted, values_untargeted, ← List.map_append, List.head?_map, hn]
    exact hkept (some n)
  cases h with
  | least hname hn => exact .least hname (hvalue hn)
  | greatest hname hn => exact .greatest hname (hvalue hn)
  | size hname hkind hlower hupper =>
    refine .size hname hkind ?_ ?_
    · rw [values_untargeted, List.head?_map, hlower, hkept]
    · rw [values_untargeted, List.head?_map, hupper, hkept]

end

/-! ### Refinements -/

lemma integerCall_numeral (method : Text) (n : Option Numeral) :
    integerCall method ((n.map (·.text)).bind integerLiteral?) = boundCall method n := by
  cases n with
  | none => rfl
  | some n =>
    rw [Option.map_some, Option.bind_some, n.integerLiteral?_text, boundCall]
    split_ifs <;> rfl

/-- The name of a field does not refine its schema. -/
lemma refinements_rename (c : Constraints) (name : Text) (kind : Kind) :
    refinements { c with rename := name } kind = refinements c kind := by
  cases kind <;> rfl

/-- An annotation that has a role refines a schema by what it says in this role. -/
lemma refinements_single {a : Mark} {r : Role} (hr : Role.of? a = some r) (kind : Kind) :
    refinements (single a) kind = refinements (r.contribution a) kind := by
  have hsingle : single a = merge { raw := [a.text] } (r.contribution a) := by
    rw [single_eq_merge, said, hr, Option.elim_some]
  rw [hsingle]
  cases kind <;> rfl

/-- An annotation without target is read in the role that its name has. -/
lemma role_mark {a : Written} (htarget : a.target = none) :
    Role.of? a.mark = Role.names.lookup a.name.last.1 := by
  have hnone : a.mark.target = [] := by rw [mark, htarget, Option.elim_none]
  rw [Role.of?, hnone, List.isEmpty_nil, if_pos rfl, simpleName_mark]

/-- A size annotation limits a size by its arguments; one without parentheses has no arguments. -/
lemma sizeCalls_sizeOf? (a : Mark) : sizeCalls (sizeOf? a) =
    integerCall "min" ((a.named? "min").bind integerLiteral?) ++
      integerCall "max" ((a.named? "max").bind integerLiteral?) := by
  unfold sizeOf?
  split
  · rfl
  · next hbody =>
    have hnone : ∀ key, a.named? key = none := by
      intro key
      rw [Mark.named?, Mark.arguments, Option.not_isSome_iff_eq_none.mp hbody]
      rfl
    rw [hnone, hnone]
    rfl

lemma refinements_givesBounds {a : Written} {kind : Kind} {lower upper : Option Numeral}
    (h : GivesBounds a kind lower upper) (htarget : a.target = none) :
    refinements (single a.mark) kind = boundCall "min" lower ++ boundCall "max" upper := by
  have hrole := role_mark htarget
  have hread : ∀ {n : Numeral}, (a.values (some "value") ++ a.values none).head? = some n.text →
      integerOf? a.mark = (some n.text).bind integerLiteral? := by
    intro n hn
    rw [integerOf?, value?_mark, hn]
  cases h with
  | least hname hvalue =>
    have hmin : Role.of? a.mark = some .min := by rw [hrole, hname]; rfl
    rw [refinements_single hmin, ← integerCall_numeral, Role.contribution, hread hvalue]
    simp [refinements, integerCall, decimalCall, onlyIf, boundCall]
  | greatest hname hvalue =>
    have hmax : Role.of? a.mark = some .max := by rw [hrole, hname]; rfl
    rw [refinements_single hmax, ← integerCall_numeral "max", Role.contribution, hread hvalue]
    simp [refinements, integerCall, decimalCall, onlyIf, boundCall]
  | size hname hkind hlower hupper =>
    have hsize : Role.of? a.mark = some .size := by rw [hrole, hname]; rfl
    have hmin := a.named?_mark ⟨"min", by decide⟩
    have hmax := a.named?_mark ⟨"max", by decide⟩
    rw [refinements_single hsize, ← integerCall_numeral, ← integerCall_numeral, ← hlower, ← hupper,
      ← hmin, ← hmax, ← sizeCalls_sizeOf?]
    rcases hkind with rfl | rfl <;> simp [refinements, Role.contribution, onlyIf]

/-! ### Annotations that stand alone -/

lemma ofJava_alone (before : Gaps) (a : Written) (behind : Gaps) :
    ofJava (before.1 ++ texts [(a, behind)]) = single a.mark := by
  rw [ofJava, readAll_skip (before.notMem (by decide)), readAll_texts]
  rfl

lemma refine_ofJava {a : Written} {kind : Kind} {lower upper : Option Numeral}
    (h : GivesBounds a kind lower upper) (htarget : a.target = none) (text : Text)
    (before behind : Gaps) :
    refine text (some kind) (ofJava (before.1 ++ texts [(a, behind)])) =
      text ++ boundCall "min" lower ++ boundCall "max" upper := by
  rw [refine, ofJava_alone, Option.map_some, Option.getD_some, refinements_givesBounds h htarget,
    List.append_assoc]

lemma refine_ofKotlin (text : Text) (kind : Option Kind) (s : Text) :
    refine text kind (ofKotlin s) = refine text kind (ofJava (dropTargets s)) := by
  rw [ofKotlin_eq, refine, refine]
  cases kind with
  | none => rfl
  | some kind => rw [Option.map_some, Option.map_some, refinements_rename]

/-- An annotation that stands alone on a field carries its integer bounds exactly or not at all.  In
both dialects, and whatever the annotation applies to, the schema is followed by the call for the
lower bound and the call for the upper one, each with its own numeral; a numeral that is no signed
64-bit integer gives no call.  The number in a call is the canonical numeral of the value. -/
theorem refine_eq_boundCalls {a : Written} {kind : Kind} {lower upper : Option Numeral}
    (h : GivesBounds a kind lower upper) (text : Text) (before behind : Gaps) (site : UseSite) :
    refine text (some kind) (ofJava (before.1 ++ textsOn [(.plain, a, behind)])) =
        text ++ boundCall "min" lower ++ boundCall "max" upper ∧
      refine text (some kind) (ofKotlin (before.1 ++ textsOn [(site, a, behind)])) =
        text ++ boundCall "min" lower ++ boundCall "max" upper ∧
      ∀ n : ℤ, ∃ m : Numeral, m.isCanonical ∧ m.value = n ∧ m.text = ofInt n := by
  refine ⟨?_, ?_, Numeral.exists_isCanonical⟩
  · exact refine_ofJava (h.applied .plain) rfl text before behind
  · rw [refine_ofKotlin, dropTargets_append (before.notMem (by decide)), dropTargets_textsOn]
    exact refine_ofJava (h.applied .plain).untargeted rfl text before behind

/-- The least 64-bit integer is kept, and the number behind the greatest one is not. -/
theorem refine_eq_boundCalls_size :
    refine "z.string()" (some .string)
        (ofKotlin "@get:Size(max = 9223372036854775808, min = -9223372036854775808L)") =
      utf8 "z.string().min(-9223372036854775808)" := by
  let bare : Gaps := ⟨[], rfl⟩
  let blank : Gaps := ⟨" ", by decide⟩
  let lower : Numeral := ⟨true, "9223372036854775808", "L", by decide, by decide, by decide⟩
  let upper : Numeral := ⟨false, "9223372036854775808", [], by decide, by decide, by decide⟩
  let a : Written := ⟨none, ⟨[], ⟨"Size", by decide⟩⟩,
    some (bare, [(bare, .named ⟨"max", by decide⟩ blank blank { text := upper.text }, bare),
      (blank, .named ⟨"min", by decide⟩ blank blank { text := lower.text }, bare)])⟩
  have hbounds : GivesBounds a .string (some lower) (some upper) :=
    .size (by decide) (Or.inl rfl) (by decide) (by decide)
  have htext : bare.1 ++ textsOn [(.get, a, bare)] =
      utf8 "@get:Size(max = 9223372036854775808, min = -9223372036854775808L)" := by decide
  have hcalls : utf8 "z.string()" ++ boundCall "min" (some lower) ++ boundCall "max" (some upper) =
      utf8 "z.string().min(-9223372036854775808)" := by decide
  rw [← htext, ← hcalls]
  exact (refine_eq_boundCalls hbounds "z.string()" bare bare .get).2.1

end DtoSchema.Schema
