import Mathlib
import DtoSchema.Declaration.Basic

/-!
# Merging of declared classes

Classes of one name are merged, and of the fields of one key the first stays: `keepFirst` says which
fields these are.  Where the names differ, merging changes nothing but this choice of fields.
Behind it no two classes have the same name and no two fields of a class the same key
(`nodup_name_coalesce`, `keeps_coalesce`).  Merging looks at names and keys only, so it invents no
names and commutes with maps of fields that keep their keys.  For the same reason it keeps relations
of fields under which the keys are the same (`rel_coalesce`).
-/

namespace DtoSchema

open Text

/-- The first field of each key: every field removes the later ones of its key. -/
def keepFirst : List Field → List Field
  | [] => []
  | f :: fs => f :: (keepFirst fs).filter fun g => g.key ≠ f.key

/-- A condition on keys that the key `k` does not meet implies that a key is another one. -/
lemma filter_ne_filter {p : Text → Bool} {k : Text} (hk : p k = false) (fs : List Field) :
    (fs.filter fun g => g.key ≠ k).filter (fun g => p g.key) = fs.filter fun g => p g.key := by
  rw [List.filter_filter]
  refine List.filter_congr fun g _ => ?_
  by_cases hg : g.key = k
  · simp [hg, hk]
  · simp [hg]

/-- A condition on keys can be asked before or after the choice. -/
lemma keepFirst_filter (p : Text → Bool) (fs : List Field) :
    keepFirst (fs.filter fun f => p f.key) = (keepFirst fs).filter fun f => p f.key := by
  induction fs with
  | nil => rfl
  | cons f fs ih =>
    by_cases hf : p f.key
    · simp [keepFirst, hf, ih, List.filter_filter, Bool.and_comm]
    · have hk : p f.key = false := Bool.eq_false_of_not_eq_true hf
      rw [List.filter_cons_of_neg (by simpa using hf), ih, keepFirst,
        List.filter_cons_of_neg (by simpa using hf), filter_ne_filter hk]

/-- Choosing the first field of each key twice is choosing once. -/
lemma keepFirst_keepFirst (fs : List Field) : keepFirst (keepFirst fs) = keepFirst fs := by
  induction fs with
  | nil => rfl
  | cons f fs ih =>
    have hfilter := keepFirst_filter (fun k => decide (k ≠ f.key)) (keepFirst fs)
    rw [keepFirst, keepFirst, hfilter, ih, List.filter_filter]
    simp

/-- The fields whose key was not seen, one for each key, are the first ones. -/
lemma dedupFrom_eq_filter (seen : List Text) (fs : List Field) :
    dedupFrom seen fs = (keepFirst fs).filter fun f => f.key ∉ seen := by
  induction fs generalizing seen with
  | nil => rfl
  | cons f fs ih =>
    by_cases hf : f.key ∈ seen
    · have hfilter := filter_ne_filter (p := fun k => decide (k ∉ seen)) (k := f.key)
        (by simpa using hf) (keepFirst fs)
      rw [dedupFrom, if_pos hf, ih, keepFirst, List.filter_cons_of_neg (by simpa using hf), hfilter]
    · rw [dedupFrom, if_neg hf, ih, keepFirst, List.filter_cons_of_pos (by simpa using hf),
        List.filter_filter]
      congr 1
      refine List.filter_congr fun g _ => ?_
      simp [Bool.and_comm]

/-- Of the fields of one key the first stays. -/
lemma dedupFields_eq_keepFirst (fs : List Field) : dedupFields fs = keepFirst fs := by
  simp [dedupFields, dedupFrom_eq_filter]

/-- A class of a new name comes last. -/
lemma mergeClass_of_not_mem {c : ClassDecl} {ds : List ClassDecl}
    (h : c.name ∉ ds.map ClassDecl.name) :
    mergeClass c ds = ds ++ [{ c with fields := keepFirst c.fields }] := by
  induction ds with
  | nil => simp [mergeClass, dedupFields_eq_keepFirst]
  | cons d ds ih =>
    simp only [List.map_cons, List.mem_cons, not_or] at h
    simp [mergeClass, Ne.symm h.1, ih h.2]

/-- Classes of different names stay in their order. -/
lemma coalesce_of_nodup {cs : List ClassDecl} (h : (cs.map ClassDecl.name).Nodup) :
    coalesce cs = cs.map fun c => { c with fields := keepFirst c.fields } := by
  suffices hfold : ∀ merged : List ClassDecl,
      (merged.map ClassDecl.name ++ cs.map ClassDecl.name).Nodup →
        cs.foldl (fun merged c => mergeClass c merged) merged =
          merged ++ cs.map fun c => { c with fields := keepFirst c.fields } from
    hfold [] (by simpa using h)
  clear h
  induction cs with
  | nil => simp
  | cons c cs ih =>
    intro merged hnodup
    have hnew : c.name ∉ merged.map ClassDecl.name := by
      intro hmem
      exact (List.nodup_append.mp hnodup).2.2 _ hmem _ List.mem_cons_self rfl
    rw [List.foldl_cons, mergeClass_of_not_mem hnew, ih _ (by simpa using hnodup)]
    simp

/-- Merging in one more class invents no names. -/
lemma exists_name_of_mem_mergeClass {c d : ClassDecl} {ds : List ClassDecl}
    (h : d ∈ mergeClass c ds) : d.name = c.name ∨ ∃ d' ∈ ds, d.name = d'.name := by
  induction ds with
  | nil =>
    rw [mergeClass, List.mem_singleton] at h
    exact Or.inl (by rw [h])
  | cons e ds ih =>
    rw [mergeClass] at h
    by_cases hname : e.name = c.name
    · rw [if_pos hname] at h
      rcases List.mem_cons.mp h with rfl | hmem
      · exact Or.inl hname
      · exact Or.inr ⟨d, List.mem_cons_of_mem e hmem, rfl⟩
    · rw [if_neg hname] at h
      rcases List.mem_cons.mp h with rfl | hmem
      · exact Or.inr ⟨d, List.mem_cons_self, rfl⟩
      · rcases ih hmem with hc | ⟨d', hd', heq⟩
        · exact Or.inl hc
        · exact Or.inr ⟨d', List.mem_cons_of_mem e hd', heq⟩

/-- Merging invents no names. -/
lemma exists_name_of_mem_coalesce {d : ClassDecl} {cs : List ClassDecl} (h : d ∈ coalesce cs) :
    ∃ c ∈ cs, d.name = c.name := by
  suffices hfold : ∀ merged : List ClassDecl,
      d ∈ cs.foldl (fun merged c => mergeClass c merged) merged →
        ∃ c ∈ merged ++ cs, d.name = c.name by
    simpa using hfold [] h
  clear h
  induction cs with
  | nil => intro merged h; exact ⟨d, by simpa using h, rfl⟩
  | cons c cs ih =>
    intro merged h
    obtain ⟨e, he, hname⟩ := ih _ h
    rcases List.mem_append.mp he with hmerged | hcs
    · rcases exists_name_of_mem_mergeClass hmerged with hc | ⟨d', hd', heq⟩
      · exact ⟨c, by simp, hname.trans hc⟩
      · exact ⟨d', by simp [hd'], hname.trans heq⟩
    · exact ⟨e, by simp [hcs], hname⟩

/-- A class stays when one of another name is merged in. -/
lemma mem_mergeClass_of_ne {c d : ClassDecl} {ds : List ClassDecl} (h : d ∈ ds)
    (hne : d.name ≠ c.name) : d ∈ mergeClass c ds := by
  induction ds with
  | nil => simp at h
  | cons e ds ih =>
    rw [mergeClass]
    rcases List.mem_cons.mp h with rfl | hmem
    · rw [if_neg hne]
      exact List.mem_cons_self
    · split
      · exact List.mem_cons_of_mem _ hmem
      · exact List.mem_cons_of_mem _ (ih hmem)

/-- A class whose name no other one has is merged with none. -/
lemma mem_coalesce_of_count {c : ClassDecl} {cs : List ClassDecl} (h : c ∈ cs)
    (hcount : (cs.map ClassDecl.name).count c.name = 1) :
    { c with fields := keepFirst c.fields } ∈ coalesce cs := by
  obtain ⟨before, after, rfl⟩ := List.append_of_mem h
  simp only [List.map_append, List.map_cons, List.count_append, List.count_cons_self] at hcount
  have hbefore : c.name ∉ before.map ClassDecl.name := List.count_eq_zero.mp (by omega)
  have hafter : c.name ∉ after.map ClassDecl.name := List.count_eq_zero.mp (by omega)
  have hnew : c.name ∉ (coalesce before).map ClassDecl.name := by
    intro hmem
    obtain ⟨d, hd, hname⟩ := List.mem_map.mp hmem
    obtain ⟨c', hc', hname'⟩ := exists_name_of_mem_coalesce hd
    exact hbefore (List.mem_map.mpr ⟨c', hc', by rw [← hname', hname]⟩)
  have hkept : ∀ merged : List ClassDecl, { c with fields := keepFirst c.fields } ∈ merged →
      { c with fields := keepFirst c.fields } ∈
        after.foldl (fun merged c => mergeClass c merged) merged := by
    intro merged hmem
    refine List.foldlRecOn after (fun merged c => mergeClass c merged) hmem ?_
    intro ds hds d hd
    exact mem_mergeClass_of_ne hds fun heq => hafter (List.mem_map.mpr ⟨d, hd, heq.symm⟩)
  rw [coalesce, List.foldl_append, List.foldl_cons]
  refine hkept _ ?_
  change _ ∈ mergeClass c (coalesce before)
  rw [mergeClass_of_not_mem hnew]
  simp

/-! ### What merging keeps -/

/-- What holds of no classes, and is kept when one of the given classes is merged in, holds of the
merged classes. -/
lemma coalesce_induction {Q : List ClassDecl → Prop} {cs : List ClassDecl} (nil : Q [])
    (merge : ∀ c ∈ cs, ∀ ds, Q ds → Q (mergeClass c ds)) : Q (coalesce cs) :=
  List.foldlRecOn cs (fun merged c => mergeClass c merged) nil fun ds hds c hc => merge c hc ds hds

/-- The names after one more class has been merged in. -/
lemma map_name_mergeClass (c : ClassDecl) (ds : List ClassDecl) :
    (mergeClass c ds).map ClassDecl.name =
      if c.name ∈ ds.map ClassDecl.name then ds.map ClassDecl.name
      else ds.map ClassDecl.name ++ [c.name] := by
  induction ds with
  | nil => simp [mergeClass]
  | cons d ds ih =>
    by_cases hname : d.name = c.name
    · simp [mergeClass, hname]
    · rw [mergeClass, if_neg hname, List.map_cons, ih]
      simp only [List.map_cons, List.mem_cons, Ne.symm hname, false_or]
      split <;> rfl

/-- No two of the merged classes have the same name. -/
lemma nodup_name_coalesce (cs : List ClassDecl) : ((coalesce cs).map ClassDecl.name).Nodup := by
  refine coalesce_induction (Q := fun ds => (ds.map ClassDecl.name).Nodup) List.nodup_nil ?_
  intro c _ ds hds
  rw [map_name_mergeClass]
  split
  · exact hds
  · next hnew => simpa using hds.concat hnew

/-- The chosen fields are some of the given ones, in their order. -/
lemma keepFirst_sublist (fs : List Field) : (keepFirst fs).Sublist fs := by
  induction fs with
  | nil => exact .slnil
  | cons f fs ih => exact (List.filter_sublist.trans ih).cons_cons f

/-- No two of the chosen fields have the same key. -/
lemma nodup_key_keepFirst (fs : List Field) : ((keepFirst fs).map Field.key).Nodup := by
  induction fs with
  | nil => exact List.nodup_nil
  | cons f fs ih =>
    rw [keepFirst, List.map_cons, List.nodup_cons]
    exact ⟨by simp, ih.sublist (List.filter_sublist.map _)⟩

/-- All fields of the class have the property `P`, and no two of them the same key. -/
structure ClassDecl.Keeps (P : Field → Prop) (c : ClassDecl) : Prop where
  fields : ∀ f ∈ c.fields, P f
  keys : (c.fields.map Field.key).Nodup

section Keeps

variable {P : Field → Prop} {c : ClassDecl}

/-- Choosing the first field of each key leaves fields of the property with different keys. -/
lemma keeps_dedupFields {fs : List Field} (h : ∀ f ∈ fs, P f) (name : Text) :
    ClassDecl.Keeps P ⟨name, dedupFields fs⟩ := by
  rw [dedupFields_eq_keepFirst]
  exact ⟨fun f hf => h f ((keepFirst_sublist fs).subset hf), nodup_key_keepFirst fs⟩

lemma keeps_mergeClass (hc : ∀ f ∈ c.fields, P f) {ds : List ClassDecl}
    (hds : ∀ d ∈ ds, d.Keeps P) : ∀ d ∈ mergeClass c ds, d.Keeps P := by
  induction ds with
  | nil => simpa [mergeClass] using keeps_dedupFields hc c.name
  | cons e ds ih =>
    obtain ⟨he, hds⟩ := List.forall_mem_cons.mp hds
    rw [mergeClass]
    split
    · have hjoined : ∀ f ∈ e.fields ++ c.fields, P f := by
        intro f hf
        exact (List.mem_append.mp hf).elim (he.fields f) (hc f)
      exact List.forall_mem_cons.mpr ⟨keeps_dedupFields hjoined e.name, hds⟩
    · exact List.forall_mem_cons.mpr ⟨he, ih hds⟩

/-- What holds of all fields of the given classes holds of those of the merged ones, and the keys in
a merged class differ. -/
lemma keeps_coalesce {cs : List ClassDecl} (h : ∀ c ∈ cs, ∀ f ∈ c.fields, P f) :
    ∀ d ∈ coalesce cs, d.Keeps P :=
  coalesce_induction (Q := fun ds => ∀ d ∈ ds, d.Keeps P) (by simp) fun c hc _ hds =>
    keeps_mergeClass (h c hc) hds

end Keeps

/-! ### Maps of fields -/

/-- The class with each of its fields replaced. -/
def ClassDecl.mapFields (g : Field → Field) (c : ClassDecl) : ClassDecl := ⟨c.name, c.fields.map g⟩

section Map

variable {g : Field → Field} (hg : ∀ f, (g f).key = f.key)

include hg

/-- The first fields of their keys are the same ones before and after a map. -/
lemma keepFirst_map (fs : List Field) : keepFirst (fs.map g) = (keepFirst fs).map g := by
  induction fs with
  | nil => rfl
  | cons f fs ih => simp [keepFirst, ih, List.filter_map, Function.comp_def, hg]

/-- A class is merged the same way before and after a map. -/
lemma mergeClass_mapFields (c : ClassDecl) (ds : List ClassDecl) :
    mergeClass (c.mapFields g) (ds.map (ClassDecl.mapFields g)) =
      (mergeClass c ds).map (ClassDecl.mapFields g) := by
  induction ds with
  | nil => simp [mergeClass, ClassDecl.mapFields, dedupFields_eq_keepFirst, keepFirst_map hg]
  | cons d ds ih =>
    by_cases hname : d.name = c.name
    · simp [mergeClass, ClassDecl.mapFields, hname, dedupFields_eq_keepFirst, ← keepFirst_map hg]
    · have hrest : mergeClass (c.mapFields g) ((d :: ds).map (ClassDecl.mapFields g)) =
          d.mapFields g :: mergeClass (c.mapFields g) (ds.map (ClassDecl.mapFields g)) :=
        if_neg hname
      rw [hrest, ih, mergeClass, if_neg hname, List.map_cons]

/-- Classes are merged the same way before and after a map. -/
lemma coalesce_mapFields (cs : List ClassDecl) :
    coalesce (cs.map (ClassDecl.mapFields g)) = (coalesce cs).map (ClassDecl.mapFields g) := by
  suffices hfold : ∀ merged : List ClassDecl,
      (cs.map (ClassDecl.mapFields g)).foldl (fun merged c => mergeClass c merged)
          (merged.map (ClassDecl.mapFields g)) =
        (cs.foldl (fun merged c => mergeClass c merged) merged).map (ClassDecl.mapFields g) from
    hfold []
  induction cs with
  | nil => intro merged; rfl
  | cons c cs ih =>
    intro merged
    rw [List.map_cons, List.foldl_cons, mergeClass_mapFields hg, ih, List.foldl_cons]

end Map

/-! ### Related fields -/

/-- Two classes have the same name and related fields. -/
def ClassDecl.Related (F : List Field → List Field → Prop) (c d : ClassDecl) : Prop :=
  c.name = d.name ∧ F c.fields d.fields

/-- Fields of the same keys are chosen at the same places. -/
lemma rel_dedupFields {R : Field → Field → Prop} (hR : ∀ f g, R f g → f.key = g.key)
    {fs gs : List Field} (h : List.Forall₂ R fs gs) :
    List.Forall₂ R (dedupFields fs) (dedupFields gs) := by
  suffices hfrom : ∀ seen, List.Forall₂ R (dedupFrom seen fs) (dedupFrom seen gs) from hfrom []
  induction h with
  | nil => exact fun _ => .nil
  | cons hfg _ ih =>
    intro seen
    simp only [dedupFrom, hR _ _ hfg]
    split
    · exact ih seen
    · exact .cons hfg (ih _)

section Related

variable {F : List Field → List Field → Prop}
  (hdedup : ∀ fs gs, F fs gs → F (dedupFields fs) (dedupFields gs))
  (happend : ∀ fs gs fs' gs', F fs gs → F fs' gs' → F (fs ++ fs') (gs ++ gs'))

include hdedup happend

lemma rel_mergeClass {c c' : ClassDecl} (hc : c.Related F c') {ds ds' : List ClassDecl}
    (hds : List.Forall₂ (ClassDecl.Related F) ds ds') :
    List.Forall₂ (ClassDecl.Related F) (mergeClass c ds) (mergeClass c' ds') := by
  induction hds with
  | nil => exact .cons ⟨hc.1, hdedup _ _ hc.2⟩ .nil
  | @cons d d' ds ds' hd hds ih =>
    simp only [mergeClass, hc.1, hd.1]
    split
    · exact .cons ⟨rfl, hdedup _ _ (happend _ _ _ _ hd.2 hc.2)⟩ hds
    · exact .cons hd ih

/-- Merging keeps a relation of classes, if it is one that choosing and joining fields keeps. -/
lemma rel_coalesce {cs cs' : List ClassDecl} (h : List.Forall₂ (ClassDecl.Related F) cs cs') :
    List.Forall₂ (ClassDecl.Related F) (coalesce cs) (coalesce cs') := by
  suffices hfold : ∀ {ds ds' : List ClassDecl}, List.Forall₂ (ClassDecl.Related F) ds ds' →
      List.Forall₂ (ClassDecl.Related F) (cs.foldl (fun merged c => mergeClass c merged) ds)
        (cs'.foldl (fun merged c => mergeClass c merged) ds') from hfold .nil
  induction h with
  | nil => exact fun hds => hds
  | cons hc _ ih => exact fun hds => ih (rel_mergeClass hdedup happend hc hds)

end Related

end DtoSchema
