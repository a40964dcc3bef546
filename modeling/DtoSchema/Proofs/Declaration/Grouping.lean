import Mathlib
import DtoSchema.Proofs.Declaration.Merging

/-!
# Merging as grouping

Classes are merged one at a time, and the fields of the class that grows are looked through again
each time.  What comes out can be said at once: the classes are grouped by their names, in the order
in which these occur first, and of the fields of a group, one class after the other, those stay
whose key does not occur before (`coalesce_eq_groups`).

The choice of fields absorbs an earlier choice in the front part of a list (`keepFirst_absorb`) and
in each part of it (`keepFirst_flatMap`).  So it makes no difference whether classes are merged in
one go or in several (`coalesce_groups`).
-/

namespace DtoSchema

open Text

/-- The fields whose key no field before them has. -/
def unrepeated (fs : List Field) : List Field :=
  (List.range fs.length).filterMap fun i =>
    fs[i]?.filter fun f => f.key ∉ (fs.take i).map Field.key

/-- The fields of all classes of a name, one class after the other. -/
def fieldsNamed (n : Text) (cs : List ClassDecl) : List Field :=
  (cs.filter (·.name = n)).flatMap ClassDecl.fields

/-- One class for each name, in the order in which the names occur first, with the fields of all
classes of that name whose key does not occur before. -/
def groups (cs : List ClassDecl) : List ClassDecl :=
  (cs.map ClassDecl.name).eraseDups.map fun n => ⟨n, unrepeated (fieldsNamed n cs)⟩

/-! ### The choice of fields -/

/-- The keys are those of all fields. -/
lemma mem_key_keepFirst {k : Text} {fs : List Field} :
    k ∈ (keepFirst fs).map Field.key ↔ k ∈ fs.map Field.key := by
  induction fs with
  | nil => rfl
  | cons f fs ih =>
    by_cases hk : k = f.key
    · simp [keepFirst, hk]
    · have hrest : k ∈ ((keepFirst fs).filter fun g => g.key ≠ f.key).map Field.key ↔
          k ∈ (keepFirst fs).map Field.key := by
        simp only [List.mem_map, List.mem_filter, decide_eq_true_eq]
        constructor
        · rintro ⟨g, ⟨hg, -⟩, rfl⟩
          exact ⟨g, hg, rfl⟩
        · rintro ⟨g, hg, rfl⟩
          exact ⟨g, ⟨hg, hk⟩, rfl⟩
      rw [keepFirst, List.map_cons, List.mem_cons, hrest, ih, List.map_cons, List.mem_cons]

/-- Of the fields of two lists those of the second one stay whose key is not in the first one. -/
lemma keepFirst_append (fs gs : List Field) :
    keepFirst (fs ++ gs) =
      keepFirst fs ++ (keepFirst gs).filter fun g => g.key ∉ fs.map Field.key := by
  induction fs with
  | nil => simp [keepFirst]
  | cons f fs ih =>
    rw [List.cons_append, keepFirst, ih, List.filter_append, List.filter_filter, keepFirst,
      List.cons_append]
    congr 2
    refine List.filter_congr fun g _ => ?_
    simp

/-- A choice among the fields in front is absorbed by the choice among all. -/
lemma keepFirst_absorb (fs gs : List Field) :
    keepFirst (keepFirst fs ++ gs) = keepFirst (fs ++ gs) := by
  simp only [keepFirst_append, keepFirst_keepFirst, mem_key_keepFirst]

/-- Choices in the parts of a list are absorbed by the choice among all. -/
lemma keepFirst_flatMap (cs : List ClassDecl) :
    keepFirst (cs.flatMap fun c => keepFirst c.fields) =
      keepFirst (cs.flatMap ClassDecl.fields) := by
  induction cs with
  | nil => rfl
  | cons c cs ih =>
    rw [List.flatMap_cons, keepFirst_absorb, keepFirst_append, ih, ← keepFirst_append,
      List.flatMap_cons]

lemma unrepeated_concat (fs : List Field) (g : Field) :
    unrepeated (fs ++ [g]) =
      unrepeated fs ++ [g].filter fun f => f.key ∉ fs.map Field.key := by
  have hbefore : ∀ i ∈ List.range fs.length,
      ((fs ++ [g])[i]?.filter fun f => f.key ∉ ((fs ++ [g]).take i).map Field.key) =
        fs[i]?.filter fun f => f.key ∉ (fs.take i).map Field.key := by
    intro i hi
    have hlt : i < fs.length := List.mem_range.mp hi
    rw [List.getElem?_append_left hlt, List.take_append_of_le_length hlt.le]
  rw [unrepeated, List.length_append, List.length_singleton, List.range_succ,
    List.filterMap_append, List.filterMap_congr hbefore, unrepeated]
  congr 1
  rw [List.filterMap_cons, List.filterMap_nil, List.getElem?_concat_length, List.take_left]
  by_cases hg : g.key ∈ fs.map Field.key
  · rw [List.filter_cons_of_neg (by simpa using hg)]
    simp only [Option.filter, hg, not_true_eq_false, decide_false]
    rfl
  · rw [List.filter_cons_of_pos (by simpa using hg)]
    simp only [Option.filter, hg, not_false_eq_true, decide_true]
    rfl

/-- The first field of each key is the one whose key no field before it has. -/
lemma keepFirst_eq_unrepeated (fs : List Field) : keepFirst fs = unrepeated fs := by
  induction fs using List.reverseRecOn with
  | nil => rfl
  | append_singleton fs g ih =>
    rw [unrepeated_concat, keepFirst_append, ih]
    rfl

/-! ### One more class -/

lemma coalesce_concat (cs : List ClassDecl) (c : ClassDecl) :
    coalesce (cs ++ [c]) = mergeClass c (coalesce cs) := by
  simp [coalesce, List.foldl_append]

/-- Classes that are merged after others are merged into what came out of these. -/
lemma coalesce_append (cs ds : List ClassDecl) :
    coalesce (cs ++ ds) = ds.foldl (fun merged c => mergeClass c merged) (coalesce cs) := by
  simp [coalesce, List.foldl_append]

/-- The fields of a class join those of the class of its name, if that is there. -/
lemma mergeClass_of_mem {c : ClassDecl} {ds : List ClassDecl}
    (hnodup : (ds.map ClassDecl.name).Nodup) (h : c.name ∈ ds.map ClassDecl.name) :
    mergeClass c ds = ds.map fun d =>
      if d.name = c.name then ⟨d.name, keepFirst (d.fields ++ c.fields)⟩ else d := by
  induction ds with
  | nil => simp at h
  | cons d ds ih =>
    rw [List.map_cons, List.nodup_cons] at hnodup
    by_cases hname : d.name = c.name
    · -- no other class has this name
      have hrest : ds.map (fun d =>
          if d.name = c.name then ⟨d.name, keepFirst (d.fields ++ c.fields)⟩ else d) = ds := by
        conv_rhs => rw [← List.map_id ds]
        refine List.map_congr_left fun e he => if_neg fun heq => hnodup.1 ?_
        rw [hname, ← heq]
        exact List.mem_map_of_mem he
      rw [mergeClass, if_pos hname, List.map_cons, if_pos hname, hrest, dedupFields_eq_keepFirst]
    · have hmem : c.name ∈ ds.map ClassDecl.name := by
        simpa [Ne.symm hname] using h
      rw [mergeClass, if_neg hname, List.map_cons, if_neg hname, ih hnodup.2 hmem]

/-- A class of another name changes nothing about the fields of a name. -/
lemma fieldsNamed_concat_of_ne {n : Text} {c : ClassDecl} (h : c.name ≠ n) (cs : List ClassDecl) :
    fieldsNamed n (cs ++ [c]) = fieldsNamed n cs := by
  simp [fieldsNamed, h]

lemma fieldsNamed_concat_self (cs : List ClassDecl) (c : ClassDecl) :
    fieldsNamed c.name (cs ++ [c]) = fieldsNamed c.name cs ++ c.fields := by
  simp [fieldsNamed]

/-- There are no fields of a name that does not occur. -/
lemma fieldsNamed_of_not_mem {n : Text} {cs : List ClassDecl} (h : n ∉ cs.map ClassDecl.name) :
    fieldsNamed n cs = [] := by
  have hnone : cs.filter (·.name = n) = [] := by
    refine List.filter_eq_nil_iff.mpr fun c hc hname => h ?_
    exact of_decide_eq_true hname ▸ List.mem_map_of_mem hc
  rw [fieldsNamed, hnone, List.flatMap_nil]

/-- The names with one more behind them. -/
lemma eraseDups_concat (ns : List Text) (n : Text) :
    (ns ++ [n]).eraseDups = if n ∈ ns then ns.eraseDups else ns.eraseDups ++ [n] := by
  rw [List.eraseDups_append]
  split
  · next h => simp [List.removeAll, h]
  · next h => simp [List.removeAll, h, List.eraseDups_cons]

/-! ### All classes -/

/-- The classes that come out are the groups of the classes that go in. -/
lemma coalesce_eq_groups (cs : List ClassDecl) : coalesce cs = groups cs := by
  induction cs using List.reverseRecOn with
  | nil => rfl
  | append_singleton cs c ih =>
    have hnames : (groups cs).map ClassDecl.name = (cs.map ClassDecl.name).eraseDups := by
      simp [groups, Function.comp_def]
    have hnodup : ((groups cs).map ClassDecl.name).Nodup := ih ▸ nodup_name_coalesce cs
    have hmem : c.name ∈ (groups cs).map ClassDecl.name ↔ c.name ∈ cs.map ClassDecl.name := by
      rw [hnames, List.mem_eraseDups]
    rw [coalesce_concat, ih]
    conv_rhs => rw [groups, List.map_append, List.map_singleton, eraseDups_concat]
    by_cases hc : c.name ∈ cs.map ClassDecl.name
    · rw [if_pos hc, mergeClass_of_mem hnodup (hmem.mpr hc), groups, List.map_map]
      refine List.map_congr_left fun n _ => ?_
      simp only [Function.comp_apply]
      split
      · next hname =>
        subst hname
        rw [← keepFirst_eq_unrepeated, ← keepFirst_eq_unrepeated, keepFirst_absorb,
          fieldsNamed_concat_self]
      · next hname => rw [fieldsNamed_concat_of_ne (Ne.symm hname)]
    · rw [if_neg hc, mergeClass_of_not_mem (fun h => hc (hmem.mp h)), groups, List.map_append,
        List.map_singleton]
      congr 1
      · refine List.map_congr_left fun n hn => ?_
        have hne : c.name ≠ n := by
          rintro rfl
          exact hc (List.mem_eraseDups.mp hn)
        rw [fieldsNamed_concat_of_ne hne]
      · rw [fieldsNamed_concat_self, fieldsNamed_of_not_mem hc, List.nil_append,
          keepFirst_eq_unrepeated]

/-- What comes out is not changed by merging it again. -/
lemma coalesce_coalesce (cs : List ClassDecl) : coalesce (coalesce cs) = coalesce cs := by
  rw [coalesce_of_nodup (nodup_name_coalesce cs), coalesce_eq_groups, groups, List.map_map]
  refine List.map_congr_left fun n _ => ?_
  simp only [Function.comp_apply, ← keepFirst_eq_unrepeated, keepFirst_keepFirst]

/-- Choosing the fields of each class beforehand makes no difference. -/
lemma coalesce_map_dedupFields (cs : List ClassDecl) :
    coalesce (cs.map fun c => { c with fields := dedupFields c.fields }) = coalesce cs := by
  simp only [coalesce_eq_groups, groups, List.map_map, Function.comp_def]
  refine List.map_congr_left fun n _ => ?_
  have hfields : fieldsNamed n (cs.map fun c => { c with fields := dedupFields c.fields }) =
      (cs.filter (·.name = n)).flatMap fun c => keepFirst c.fields := by
    simp only [fieldsNamed, List.filter_map, List.flatMap_map, Function.comp_def,
      dedupFields_eq_keepFirst]
  rw [hfields, ← keepFirst_eq_unrepeated, ← keepFirst_eq_unrepeated, keepFirst_flatMap, fieldsNamed]

/-- Every class is found under its name, with a field for each of its keys. -/
lemma exists_mem_coalesce {c : ClassDecl} {cs : List ClassDecl} (h : c ∈ cs) :
    ∃ d ∈ coalesce cs, d.name = c.name ∧
      ∀ f ∈ c.fields, f.key ∈ d.fields.map Field.key := by
  refine ⟨⟨c.name, unrepeated (fieldsNamed c.name cs)⟩, ?_, rfl, fun f hf => ?_⟩
  · rw [coalesce_eq_groups, groups]
    exact List.mem_map_of_mem (List.mem_eraseDups.mpr (List.mem_map_of_mem h))
  · rw [← keepFirst_eq_unrepeated, mem_key_keepFirst]
    refine List.mem_map_of_mem (List.mem_flatMap.mpr ⟨c, List.mem_filter.mpr ⟨h, ?_⟩, hf⟩)
    exact decide_eq_true rfl

/-- Merging loses nothing and keeps the first.  Classes are grouped by name, in the order of first
occurrence; of all fields of a name, one class after the other, exactly those stay whose key does
not occur before, so every class and every key of its fields is still there.  Merging again changes
nothing, nor does a choice of fields in each class beforehand, and classes may be merged in several
goes. -/
theorem coalesce_groups (cs ds : List ClassDecl) :
    coalesce cs = (cs.map ClassDecl.name).eraseDups.map
        (fun n => ⟨n, unrepeated ((cs.filter (·.name = n)).flatMap ClassDecl.fields)⟩) ∧
      (∀ c ∈ cs, ∃ d ∈ coalesce cs, d.name = c.name ∧
        ∀ f ∈ c.fields, f.key ∈ d.fields.map Field.key) ∧
      coalesce (coalesce cs) = coalesce cs ∧
      coalesce (cs.map fun c => { c with fields := dedupFields c.fields }) = coalesce cs ∧
      coalesce (coalesce cs ++ ds) = coalesce (cs ++ ds) := by
  refine ⟨coalesce_eq_groups cs, fun c hc => exists_mem_coalesce hc, coalesce_coalesce cs,
    coalesce_map_dedupFields cs, ?_⟩
  rw [coalesce_append, coalesce_coalesce, ← coalesce_append]

/-- Three classes, two of them of one name and with a key in common: the field that was declared
first stays, at its place, and the class of the other name stays behind. -/
example :
    let f (name : Text) : Field := { name := name, type := "int" }
    coalesce [⟨"A", [f "x", f "y"]⟩, ⟨"B", [f "x", f "x"]⟩, ⟨"A", [f "z", f "y"]⟩] =
      [⟨"A", [f "x", f "y", f "z"]⟩, ⟨"B", [f "x"]⟩] := by
  decide

end DtoSchema
