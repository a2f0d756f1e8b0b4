import Aniani.ForMathlib.CountLe
import Aniani.ForMathlib.KeyedPerm
import Aniani.Query.PromQL.Binary

/-!
# Sorted labels

A series lists its labels in some order. Sorted by name and value they are one list for each label
set. Keys of the sorted labels are the keys of the labels, sorted. The labels that a grouped join
puts in overwrite the first label of their name, and of several values put in the last one stays; so
where a series lists a name twice the outcome depends on the order.

## Main definitions

* `canonicalLabels`
* `valuesOf` — the values a list of labels has for a name
* `LabelsLe` — one list of labels below another one

## Main results

* `canonicalLabels_eq_iff` — one sorted list for each label set
* `valuesOf_foldl_assignLabel` — what labels put in one after the other make of the values of a name
* `carryLabels_labelsLe`, `carryLabels_perm_of_nodup`
-/

namespace Aniani

namespace PromQL

variable {F64 : Type}

/-! ### Sorted labels -/

/-- Labels in the order of name and value. -/
def canonicalLabels (labels : SeriesLabelSet) : SeriesLabelSet :=
  labels.sortByKey (toLex : String × String → String ×ₗ String)

/-- A series with its labels sorted. -/
def SeriesResult.canonical (sr : SeriesResult F64) : SeriesResult F64 :=
  { sr with labels := canonicalLabels sr.labels }

theorem canonicalLabels_perm (labels : SeriesLabelSet) : (canonicalLabels labels).Perm labels :=
  List.sortByKey_perm _ labels

/-- **One sorted list** for each label set. -/
theorem canonicalLabels_eq_iff {labels labels' : SeriesLabelSet} :
    canonicalLabels labels = canonicalLabels labels' ↔ labels.Perm labels' := by
  constructor
  · intro h
    exact (canonicalLabels_perm labels).symm.trans (h ▸ canonicalLabels_perm labels')
  · intro h
    have hperm : (canonicalLabels labels).Perm (canonicalLabels labels') :=
      (canonicalLabels_perm labels).trans (h.trans (canonicalLabels_perm labels').symm)
    exact hperm.eq_of_pairwise (fun _ _ _ _ hab hba => toLex.injective (le_antisymm hab hba))
      (List.sortedBy_sortByKey _ _) (List.sortedBy_sortByKey _ _)

@[simp] theorem canonicalLabels_canonicalLabels (labels : SeriesLabelSet) :
    canonicalLabels (canonicalLabels labels) = canonicalLabels labels :=
  canonicalLabels_eq_iff.mpr (canonicalLabels_perm labels)

@[simp] theorem SeriesResult.canonical_canonical (sr : SeriesResult F64) :
    sr.canonical.canonical = sr.canonical :=
  congrArg (fun labels => ({ sr with labels } : SeriesResult F64))
    (canonicalLabels_canonicalLabels sr.labels)

theorem canonicalLabels_filter (p : String × String → Bool) (labels : SeriesLabelSet) :
    canonicalLabels (labels.filter p) = (canonicalLabels labels).filter p := by
  have hperm : (canonicalLabels (labels.filter p)).Perm ((canonicalLabels labels).filter p) :=
    (canonicalLabels_perm _).trans ((canonicalLabels_perm labels).filter p).symm
  exact hperm.eq_of_pairwise (fun _ _ _ _ hab hba => toLex.injective (le_antisymm hab hba))
    (List.sortedBy_sortByKey _ _) ((List.sortedBy_sortByKey _ labels).sublist List.filter_sublist)

/-! ### Keys -/

/-- The labels a match key keeps. -/
def MatchMode.keeps (mode : MatchMode) (name : String) : Bool :=
  match mode with
  | .allLabels => name != "__name__"
  | .on names => names.contains name
  | .ignoring names => name != "__name__" && !names.contains name

theorem matchKey_eq_filter (mode : MatchMode) (labels : SeriesLabelSet) :
    mode.matchKey labels = labels.filter fun label => mode.keeps label.1 := by
  cases mode <;> rfl

/-- The key of sorted labels is the key, sorted. -/
theorem matchKey_canonicalLabels (mode : MatchMode) (labels : SeriesLabelSet) :
    mode.matchKey (canonicalLabels labels) = canonicalLabels (mode.matchKey labels) := by
  rw [matchKey_eq_filter, matchKey_eq_filter, canonicalLabels_filter]

@[inherit_doc MatchMode.keeps]
def groupKeeps (modifier : Option LabelModifier) (name : String) : Bool :=
  match modifier with
  | some (.include names) => names.contains name
  | some (.exclude names) => !names.contains name
  | none => false

theorem computeGroupLabels_eq_filter (modifier : Option LabelModifier) (labels : SeriesLabelSet) :
    computeGroupLabels modifier labels = labels.filter fun label => groupKeeps modifier label.1 := by
  match modifier with
  | some (.include names) => rfl
  | some (.exclude names) => rfl
  | none => exact (List.filter_eq_nil_iff.mpr fun _ _ => by simp [groupKeeps]).symm

@[inherit_doc matchKey_canonicalLabels]
theorem computeGroupLabels_canonicalLabels (modifier : Option LabelModifier)
    (labels : SeriesLabelSet) :
    computeGroupLabels modifier (canonicalLabels labels) =
      canonicalLabels (computeGroupLabels modifier labels) := by
  rw [computeGroupLabels_eq_filter, computeGroupLabels_eq_filter, canonicalLabels_filter]

theorem labelsWithoutMetricName_canonicalLabels (labels : SeriesLabelSet) :
    labelsWithoutMetricName (canonicalLabels labels) =
      canonicalLabels (labelsWithoutMetricName labels) :=
  matchKey_canonicalLabels .allLabels labels

/-! ### The values of a name -/

/-- The values that labels have for a name, in their order. -/
def valuesOf (labels : SeriesLabelSet) (name : String) : List String :=
  (labels.filter fun label => label.1 == name).map Prod.snd

theorem valuesOf_cons (label : String × String) (labels : SeriesLabelSet) (name : String) :
    valuesOf (label :: labels) name =
      if label.1 = name then label.2 :: valuesOf labels name else valuesOf labels name := by
  rw [valuesOf, List.filter_cons]
  by_cases h : label.1 = name
  · rw [if_pos h, if_pos (beq_iff_eq.mpr h)]
    rfl
  · rw [if_neg h, if_neg (mt beq_iff_eq.mp h)]
    rfl

theorem valuesOf_perm {labels labels' : SeriesLabelSet} (h : labels.Perm labels') (name : String) :
    (valuesOf labels name).Perm (valuesOf labels' name) :=
  (h.filter _).map _

/-- A label set is what values it has for each name. -/
theorem perm_iff_valuesOf {labels labels' : SeriesLabelSet} :
    labels.Perm labels' ↔ ∀ name, (valuesOf labels name).Perm (valuesOf labels' name) := by
  refine ⟨fun h name => valuesOf_perm h name, fun h => ?_⟩
  refine (List.perm_iff_filter_key Prod.fst).mpr fun name => ?_
  have hlabels (labels : SeriesLabelSet) :
      (labels.filter fun label => decide (label.1 = name)) =
        (valuesOf labels name).map (Prod.mk name) := by
    induction labels with
    | nil => rfl
    | cons label labels ih =>
      rw [valuesOf_cons, List.filter_cons]
      by_cases heq : label.1 = name
      · rw [if_pos heq, if_pos (decide_eq_true heq), ih, List.map_cons, ← heq]
      · rw [if_neg heq, if_neg (mt of_decide_eq_true heq), ih]
  rw [hlabels, hlabels]
  exact (h name).map _

theorem pairwise_valuesOf_canonicalLabels (labels : SeriesLabelSet) (name : String) :
    (valuesOf (canonicalLabels labels) name).Pairwise (· ≤ ·) := by
  have hsorted : ((canonicalLabels labels).filter fun label => label.1 == name).Pairwise
      fun a b => toLex a ≤ toLex b :=
    (List.sortedBy_sortByKey (toLex : String × String → String ×ₗ String) labels).sublist
      List.filter_sublist
  refine List.pairwise_map.mpr (hsorted.imp_of_mem fun {a b} ha hb hab => ?_)
  have hname : a.1 = b.1 :=
    (beq_iff_eq.mp (List.mem_filter.mp ha).2).trans (beq_iff_eq.mp (List.mem_filter.mp hb).2).symm
  rcases Prod.Lex.toLex_le_toLex.mp hab with hlt | ⟨_, hle⟩
  · exact absurd hname hlt.ne
  · exact hle

/-! ### Labels put in -/

theorem valuesOf_assignLabel (labels : SeriesLabelSet) (name value name' : String) :
    valuesOf (assignLabel labels name value) name' =
      if name = name' then value :: (valuesOf labels name').tail else valuesOf labels name' := by
  induction labels with
  | nil =>
    rw [assignLabel, valuesOf_cons]
    rfl
  | cons label labels ih =>
    rw [assignLabel, valuesOf_cons]
    by_cases hlabel : label.1 = name
    · rw [if_pos hlabel, valuesOf_cons, hlabel]
      by_cases hname : name = name'
      · rw [if_pos hname, if_pos hname, if_pos hname]
        rfl
      · rw [if_neg hname, if_neg hname, if_neg hname]
    · rw [if_neg hlabel, valuesOf_cons, ih]
      by_cases hname : name = name'
      · rw [if_pos hname, if_pos hname, if_neg fun h => hlabel (h.trans hname.symm),
          if_neg fun h => hlabel (h.trans hname.symm)]
      · rw [if_neg hname, if_neg hname]

/-- **Labels put in one after the other**: the last value of each name stands for the first one that
was there. -/
theorem valuesOf_foldl_assignLabel (given labels : SeriesLabelSet) (name : String) :
    valuesOf (given.foldl (fun labels label => assignLabel labels label.1 label.2) labels) name =
      (valuesOf labels name).replaceHead (valuesOf given name).getLast? := by
  induction given generalizing labels with
  | nil => rfl
  | cons label given ih =>
    rw [List.foldl_cons, ih, valuesOf_assignLabel, valuesOf_cons]
    by_cases hname : label.1 = name
    · rw [if_pos hname, if_pos hname]
      cases hlast : (valuesOf given name).getLast? with
      | none =>
        rw [List.getLast?_eq_none_iff.mp hlast]
        rfl
      | some value =>
        rw [List.getLast?_cons, hlast]
        rfl
    · rw [if_neg hname, if_neg hname]

/-- For every name, the values of the first labels are below those of the second. -/
def LabelsLe (labels labels' : SeriesLabelSet) : Prop :=
  ∀ name, (valuesOf labels name).CountLe (valuesOf labels' name)

theorem LabelsLe.of_perm {labels labels' : SeriesLabelSet} (h : labels.Perm labels') :
    LabelsLe labels labels' :=
  fun name => (valuesOf_perm h name).countLe

theorem LabelsLe.trans {labels labels' labels'' : SeriesLabelSet} (h : LabelsLe labels labels')
    (h' : LabelsLe labels' labels'') : LabelsLe labels labels'' :=
  fun name => (h name).trans (h' name)

theorem LabelsLe.perm {labels labels' : SeriesLabelSet} (h : LabelsLe labels labels')
    (h' : LabelsLe labels' labels) : labels.Perm labels' :=
  perm_iff_valuesOf.mpr fun name => (h name).perm (h' name)

theorem valuesOf_carryLabels (carry : List String) (one many : SeriesLabelSet) (name : String) :
    (valuesOf (carryLabels carry one many) name).Perm
      ((valuesOf (labelsWithoutMetricName many) name).replaceHead
        (valuesOf (one.filter fun label => carry.contains label.1) name).getLast?) := by
  rw [← valuesOf_foldl_assignLabel]
  exact valuesOf_perm (List.sortByKey_perm _ _) name

/-- **The labels of a grouped join** are below those of it with the labels sorted. -/
theorem carryLabels_labelsLe (carry : List String) (one many : SeriesLabelSet) :
    LabelsLe (carryLabels carry one many)
      (carryLabels carry (canonicalLabels one) (canonicalLabels many)) := by
  intro name
  refine (valuesOf_carryLabels carry one many name).countLe.trans
    (List.CountLe.trans ?_ (valuesOf_carryLabels carry _ _ name).symm.countLe)
  rw [labelsWithoutMetricName_canonicalLabels, ← canonicalLabels_filter]
  exact List.replaceHead_countLe (valuesOf_perm (canonicalLabels_perm _).symm name)
    (pairwise_valuesOf_canonicalLabels _ name) (valuesOf_perm (canonicalLabels_perm _).symm name)
    (pairwise_valuesOf_canonicalLabels _ name)

/-- Where a name has one value there is nothing to sort. -/
theorem valuesOf_canonicalLabels_of_nodup {labels : SeriesLabelSet}
    (h : (labels.map Prod.fst).Nodup) (name : String) :
    valuesOf (canonicalLabels labels) name = valuesOf labels name := by
  have hperm := valuesOf_perm (canonicalLabels_perm labels) name
  have hnames : (List.replicate (valuesOf labels name).length name).Nodup := by
    have heq : (labels.filter fun label => label.1 == name).map Prod.fst =
        List.replicate (valuesOf labels name).length name := by
      refine List.eq_replicate_iff.mpr ⟨?_, ?_⟩
      · rw [valuesOf, List.length_map, List.length_map]
      · intro name' hname'
        obtain ⟨label, hlabel, rfl⟩ := List.mem_map.mp hname'
        exact beq_iff_eq.mp (List.mem_filter.mp hlabel).2
    exact heq ▸ h.sublist (List.filter_sublist.map _)
  match hvalues : valuesOf labels name with
  | [] => exact (hvalues ▸ hperm).eq_nil
  | [value] => exact List.perm_singleton.mp (hvalues ▸ hperm)
  | _ :: _ :: _ =>
    rw [hvalues] at hnames
    exact absurd List.mem_cons_self (List.nodup_cons.mp hnames).1

/-- **With each name once** the labels of a grouped join do not depend on the order. -/
theorem carryLabels_perm_of_nodup {carry : List String} {one many : SeriesLabelSet}
    (ho : (one.map Prod.fst).Nodup) (hm : (many.map Prod.fst).Nodup) :
    (carryLabels carry one many).Perm
      (carryLabels carry (canonicalLabels one) (canonicalLabels many)) := by
  have hfilter (p : String × String → Bool) {labels : SeriesLabelSet}
      (h : (labels.map Prod.fst).Nodup) : ((labels.filter p).map Prod.fst).Nodup :=
    h.sublist (List.filter_sublist.map _)
  refine perm_iff_valuesOf.mpr fun name => ?_
  refine (valuesOf_carryLabels carry one many name).trans
    (List.Perm.trans (List.Perm.of_eq ?_) (valuesOf_carryLabels carry _ _ name).symm)
  rw [labelsWithoutMetricName_canonicalLabels, ← canonicalLabels_filter,
    valuesOf_canonicalLabels_of_nodup (hfilter _ ho), valuesOf_canonicalLabels_of_nodup]
  exact hfilter _ hm

end PromQL

end Aniani
