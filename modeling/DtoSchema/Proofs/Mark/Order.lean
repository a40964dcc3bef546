import DtoSchema.Proofs.Mark.Targets

/-!
# The order of annotations

The constraints of a printed list of annotations are the merge of what its members say when they are
read alone (`ofJava_texts`).  If no two of them share a name, their order shows in the record of
what was written and nowhere else, in both dialects (`sameUpToOrder_ofJava`,
`sameUpToOrder_ofKotlin`).  In the dialect with targets the name that the serializer's own
annotation gives comes before every other one, wherever it stands (`rename_ofKotlin`).
-/

namespace DtoSchema.Constraints

open Text Declaration Mark Written

/-! ### Merging -/

lemma texts_singleton (a : Written) : texts [(a, ⟨[], rfl⟩)] = a.text := by
  simp [texts]

lemma ofJava_text (a : Written) : ofJava a.text = single a.mark := by
  rw [ofJava, ← texts_singleton, readAll_texts]
  rfl

/-- The constraints of printed annotations are the merge of what each of them says alone. -/
lemma ofJava_texts (l : List (Written × Gaps)) :
    ofJava (texts l) = (l.map fun p => ofJava p.1.text).foldl merge {} := by
  rw [ofJava, readAll_texts, foldl_add_eq_merge, List.map_map]
  simp only [ofJava_text, Function.comp_def]

/-! ### Permutations -/

/-- The constraints say the same, and they record the same annotations in some order. -/
def SameUpToOrder (c d : Constraints) : Prop := c.withoutRaw = d.withoutRaw ∧ c.raw.Perm d.raw

lemma sameUpToOrder_ofJava {l l' : List (Written × Gaps)}
    (hperm : (l.map (·.1)).Perm (l'.map (·.1)))
    (hnames : (l.map (·.1.mark.simpleName)).Nodup) :
    SameUpToOrder (ofJava (texts l)) (ofJava (texts l')) := by
  have hmarks : (l.map (·.1.mark)).Perm (l'.map (·.1.mark)) := by
    simpa [Function.comp_def] using hperm.map Written.mark
  have hnodup : ((l.map (·.1.mark)).map Mark.simpleName).Nodup := by
    rw [List.map_map]
    exact hnames
  rw [ofJava, ofJava, readAll_texts, readAll_texts]
  refine ⟨withoutRaw_foldl_of_perm hmarks hnodup {}, ?_⟩
  rw [foldl_add_eq_merge, foldl_add_eq_merge, raw_foldl_merge, raw_foldl_merge]
  exact hmarks.map (·.text)

lemma jsonNameOf?_of_simpleName {a : Mark} (h : a.simpleName ≠ "Json") : jsonNameOf? a = none :=
  if_neg fun hjson => h hjson.2

/-- The first name that a serializer's annotation gives does not depend on the order if there is one
such annotation at most. -/
lemma findSome?_jsonNameOf?_of_perm {marks marks' : List Mark} (hperm : marks.Perm marks')
    (hnames : (marks.map Mark.simpleName).Nodup) :
    marks.findSome? jsonNameOf? = marks'.findSome? jsonNameOf? := by
  have hjson : ∀ {a : Mark} {x : Text}, jsonNameOf? a = some x → a.simpleName = "Json" := by
    intro a x ha
    by_contra hne
    rw [jsonNameOf?_of_simpleName hne] at ha
    simp at ha
  cases hfind : marks.findSome? jsonNameOf? with
  | none =>
    rw [List.findSome?_eq_none_iff] at hfind
    exact (List.findSome?_eq_none_iff.mpr fun a ha => hfind a (hperm.mem_iff.mpr ha)).symm
  | some x =>
    obtain ⟨a, ha, hx⟩ := List.exists_of_findSome?_eq_some hfind
    cases hfind' : marks'.findSome? jsonNameOf? with
    | none =>
      rw [List.findSome?_eq_none_iff.mp hfind' a (hperm.mem_iff.mp ha)] at hx
      simp at hx
    | some y =>
      obtain ⟨b, hb, hy⟩ := List.exists_of_findSome?_eq_some hfind'
      have hsame : a = b := List.inj_on_of_nodup_map hnames ha (hperm.mem_iff.mpr hb)
        ((hjson hx).trans (hjson hy).symm)
      rw [← hx, ← hy, hsame]

lemma withoutRaw_named {c d : Constraints} (h : c.withoutRaw = d.withoutRaw) (name : Option Text) :
    ({ c with rename := name.getD c.rename } : Constraints).withoutRaw =
      ({ d with rename := name.getD d.rename } : Constraints).withoutRaw := by
  have hnamed : ∀ c : Constraints, ({ c with rename := name.getD c.rename }).withoutRaw =
      { c.withoutRaw with rename := name.getD c.withoutRaw.rename } := fun _ => rfl
  rw [hnamed, hnamed, h]

lemma sameUpToOrder_ofKotlin {l l' : List (Written × Gaps)}
    (hperm : (l.map (·.1)).Perm (l'.map (·.1)))
    (hnames : (l.map (·.1.mark.simpleName)).Nodup) :
    SameUpToOrder (ofKotlin (texts l)) (ofKotlin (texts l')) := by
  let drop : Written × Gaps → Written × Gaps := fun p => (p.1.untargeted, p.2)
  have hdropped : ((l.map drop).map (·.1)).Perm ((l'.map drop).map (·.1)) := by
    simpa [drop, Function.comp_def] using hperm.map Written.untargeted
  -- the targets are no part of the names
  have hnodup : ((l.map drop).map (·.1.mark.simpleName)).Nodup := by
    rw [List.map_map]
    exact hnames
  have hmarks : ((l.map drop).map (·.1.mark)).Perm ((l'.map drop).map (·.1.mark)) := by
    simpa [Function.comp_def] using hdropped.map Written.mark
  have hjson : ((l.map drop).map (·.1.mark)).findSome? jsonNameOf? =
      ((l'.map drop).map (·.1.mark)).findSome? jsonNameOf? := by
    refine findSome?_jsonNameOf?_of_perm hmarks ?_
    rw [List.map_map]
    exact hnodup
  obtain ⟨hsame, hraw⟩ := sameUpToOrder_ofJava hdropped hnodup
  rw [ofKotlin_eq, ofKotlin_eq, dropTargets_texts, dropTargets_texts, readAll_texts, readAll_texts]
  exact ⟨by rw [hjson]; exact withoutRaw_named hsame _, hraw⟩

/-! ### The name that comes first -/

/-- The annotation is the serializer's own one. -/
def isJson (a : Written) : Bool := a.mark.simpleName == utf8 "Json"

lemma jsonNameOf?_of_isJson {a : Written} (h : ¬ isJson a) :
    jsonNameOf? a.untargeted.mark = none :=
  jsonNameOf?_of_simpleName fun hname => h (beq_iff_eq.mpr hname)

lemma text?_jsonNameOf? {a : Mark} {name : Text} (h : jsonNameOf? a = some name) :
    text? name = some name := by
  unfold jsonNameOf? at h
  split at h
  · have hne := (Option.filter_eq_some_iff.mp h).2
    exact text?_eq_some_iff.mpr ⟨rfl, by simpa using hne⟩
  · simp at h

lemma rename_ofKotlin_marks (l : List (Written × Gaps)) :
    text? (ofKotlin (texts l)).rename =
      (l.findSome? fun p => jsonNameOf? p.1.untargeted.mark).or
        (l.findSome? fun p => text? (single p.1.untargeted.mark).rename) := by
  have hjava : text? (ofJava (dropTargets (texts l))).rename =
      l.findSome? fun p => text? (single p.1.untargeted.mark).rename := by
    rw [ofJava, dropTargets_texts, readAll_texts, List.map_map]
    exact (isKept_rename.foldl_add _).trans List.findSome?_map
  have hjson : (Mark.readAll (dropTargets (texts l))).findSome? jsonNameOf? =
      l.findSome? fun p => jsonNameOf? p.1.untargeted.mark := by
    rw [dropTargets_texts, readAll_texts, List.map_map, List.findSome?_map]
    rfl
  rw [ofKotlin_eq, hjson]
  cases hfind : l.findSome? fun p => jsonNameOf? p.1.untargeted.mark with
  | none => exact hjava
  | some name =>
    obtain ⟨p, -, hp⟩ := List.exists_of_findSome?_eq_some hfind
    exact text?_jsonNameOf? hp

/-- The serializer's own annotation gives no other name. -/
lemma rename_single_of_isJson {a : Written} (ha : isJson a) :
    text? (single a.untargeted.mark).rename = none := by
  have hnames : ∀ p ∈ Role.names, p.2 = .rename → p.1 ≠ utf8 "Json" := by decide
  refine (isKept_rename.role _).resolve_right fun hr => ?_
  exact hnames _ (mem_names_of_of? hr) rfl (beq_iff_eq.mp ha)

lemma rename_ofKotlin_text (a : Written) : text? (ofKotlin a.text).rename =
    if isJson a then jsonNameOf? a.untargeted.mark
    else text? (single a.untargeted.mark).rename := by
  have hmarks := rename_ofKotlin_marks [(a, ⟨[], rfl⟩)]
  simp only [texts_singleton, List.findSome?_singleton] at hmarks
  rw [hmarks]
  split
  · next hjson => rw [rename_single_of_isJson hjson, Option.or_none]
  · next hjson => rw [jsonNameOf?_of_isJson hjson, Option.none_or]

/-- The name is the first one that a serializer's own annotation gives, and the first other one if
there is none. -/
lemma rename_ofKotlin (l : List (Written × Gaps)) :
    text? (ofKotlin (texts l)).rename =
      (l.findSome? fun p => if isJson p.1 then text? (ofKotlin p.1.text).rename else none).or
        (l.findSome? fun p => if isJson p.1 then none else text? (ofKotlin p.1.text).rename) := by
  have hjson : ∀ a : Written, (if isJson a then text? (ofKotlin a.text).rename else none) =
      jsonNameOf? a.untargeted.mark := by
    intro a
    rw [rename_ofKotlin_text]
    split
    · rfl
    · next hjson => exact (jsonNameOf?_of_isJson hjson).symm
  have hother : ∀ a : Written, (if isJson a then none else text? (ofKotlin a.text).rename) =
      text? (single a.untargeted.mark).rename := by
    intro a
    rw [rename_ofKotlin_text]
    split
    · next hjson => exact (rename_single_of_isJson hjson).symm
    · rfl
  simp only [hjson, hother]
  exact rename_ofKotlin_marks l

end DtoSchema.Constraints
