import Aniani.Ingest.Logs
import Aniani.Ingest.Metrics

/-!
# What the labels are made of

The labels of a stream or series come from up to four places: the attributes of the resource, with
`service.name` promoted; the attributes of the data point, or the labels of a Loki stream or a
remote-write series; the metric name; and a label ingest adds, `level`, `le` or `quantile`. Only the
promotion looks for a label of the same name and overwrites it. Everything else is appended.

## Main definitions

* `LabelSource` — the places
* `LabelSource.Distinct` — no name comes from two of them
* `LabelSource.SameSets` — the same attributes, in whatever order

## Main results

* `LabelSource.nodup_labels_iff`
* `LabelSource.perm_labels_iff`
-/

namespace Aniani

/-! ### Promotion -/

/-- A `service.name` attribute. -/
def isServiceName (label : String × String) : Bool := label.1 == "service.name"

/-- The attributes other than the first `service.name`. -/
def withoutServiceName (labels : List (String × String)) : List (String × String) :=
  labels.eraseP isServiceName

section Promote

variable {labels labels' : List (String × String)}

theorem replaceService_spec (value : String) (labels : List (String × String)) :
    (replaceService value labels = none ∧ "service" ∉ labels.map Prod.fst) ∨
    ∃ before old after, labels = before ++ ("service", old) :: after ∧
      replaceService value labels = some (before ++ ("service", value) :: after) := by
  induction labels with
  | nil => exact .inl ⟨rfl, by simp⟩
  | cons l labels ih =>
    rw [replaceService]
    by_cases hl : l.1 = "service"
    · exact .inr ⟨[], l.2, labels, by rw [← hl]; rfl, by rw [if_pos hl, hl]; rfl⟩
    · rw [if_neg hl]
      rcases ih with ⟨hnone, hnot⟩ | ⟨before, old, after, heq, hsome⟩
      · refine .inl ⟨by rw [hnone]; rfl, ?_⟩
        simpa [Ne.symm hl] using hnot
      · exact .inr ⟨l :: before, old, after, by rw [heq]; rfl, by rw [hsome]; rfl⟩

/-- Without a `service.name` nothing is promoted. -/
theorem promoteServiceName_of_filter_eq_nil (h : labels.filter isServiceName = []) :
    promoteServiceName labels = labels := by
  have hnone : labels.find? (fun label => label.1 == "service.name") = none := by
    refine List.find?_eq_none.mpr fun l hl => ?_
    exact List.filter_eq_nil_iff.mp h l hl
  rw [promoteServiceName, hnone]

/-- With one, the value of the first is put into the place of the first `service`, or at the end. -/
theorem promoteServiceName_of_filter_eq_cons {l : String × String} {rest : List (String × String)}
    (h : labels.filter isServiceName = l :: rest) :
    promoteServiceName labels = (replaceService l.2 (withoutServiceName labels)).getD
      (withoutServiceName labels ++ [("service", l.2)]) := by
  have hfind : labels.find? (fun label => label.1 == "service.name") = some l := by
    show labels.find? isServiceName = some l
    rw [← List.head?_filter, h]
    rfl
  rw [promoteServiceName, hfind]
  rfl

/-- The names after the promotion: those of the other attributes, and `service`. -/
theorem mem_names_promoteServiceName {n : String} :
    n ∈ (promoteServiceName labels).map Prod.fst ↔
      n ∈ (withoutServiceName labels).map Prod.fst ∨
        n = "service" ∧ labels.filter isServiceName ≠ [] := by
  cases hf : labels.filter isServiceName with
  | nil =>
    rw [promoteServiceName_of_filter_eq_nil hf, withoutServiceName, List.eraseP_of_forall_not]
    · simp
    · exact List.filter_eq_nil_iff.mp hf
  | cons l rest =>
    rw [promoteServiceName_of_filter_eq_cons hf]
    rcases replaceService_spec l.2 (withoutServiceName labels) with
      ⟨hnone, -⟩ | ⟨before, old, after, heq, hsome⟩
    · rw [hnone]
      simp
    · rw [hsome, heq]
      simp only [Option.getD_some, List.map_append, List.map_cons, List.mem_append, List.mem_cons]
      grind

/-- **Promotion keeps names distinct**, and does not make them distinct. -/
theorem nodup_names_promoteServiceName :
    ((promoteServiceName labels).map Prod.fst).Nodup ↔
      ((withoutServiceName labels).map Prod.fst).Nodup := by
  cases hf : labels.filter isServiceName with
  | nil =>
    rw [promoteServiceName_of_filter_eq_nil hf, withoutServiceName, List.eraseP_of_forall_not]
    exact List.filter_eq_nil_iff.mp hf
  | cons l rest =>
    rw [promoteServiceName_of_filter_eq_cons hf]
    rcases replaceService_spec l.2 (withoutServiceName labels) with
      ⟨hnone, hnot⟩ | ⟨before, old, after, heq, hsome⟩
    · rw [hnone, Option.getD_none, List.map_append, List.nodup_append_comm]
      simpa using fun _ x hx => hnot (List.mem_map.mpr ⟨_, hx, rfl⟩)
    · rw [hsome, heq]
      simp

/-- Beside the first `service.name`, the others stay. -/
theorem filter_withoutServiceName :
    (withoutServiceName labels).filter isServiceName = (labels.filter isServiceName).tail := by
  rw [withoutServiceName]
  induction labels with
  | nil => rfl
  | cons l labels ih =>
    cases hl : isServiceName l with
    | true => rw [List.eraseP_cons_of_pos hl, List.filter_cons_of_pos hl, List.tail_cons]
    | false =>
      rw [List.eraseP_cons_of_neg (by simp [hl]), List.filter_cons_of_neg (by simp [hl]),
        List.filter_cons_of_neg (by simp [hl]), ih]

/-- If there is at most one left, the list of the others is the set of them. -/
theorem length_tail_serviceNames_le (hn : ((withoutServiceName labels).map Prod.fst).Nodup) :
    (labels.filter isServiceName).tail.length ≤ 1 := by
  rw [← filter_withoutServiceName]
  have hle := List.nodup_iff_count_le_one.mp hn "service.name"
  rwa [List.count_eq_countP, List.countP_map, List.countP_eq_length_filter] at hle

/-- The labels after a promotion, in some order. -/
theorem perm_promoteServiceName {l : String × String} {rest : List (String × String)}
    (h : labels.filter isServiceName = l :: rest)
    (hn : ((withoutServiceName labels).map Prod.fst).Nodup) :
    (promoteServiceName labels).Perm (("service", l.2) ::
      (withoutServiceName labels).filter fun p => decide (p.1 ≠ "service")) := by
  rw [promoteServiceName_of_filter_eq_cons h]
  rcases replaceService_spec l.2 (withoutServiceName labels) with
    ⟨hnone, hnot⟩ | ⟨before, old, after, heq, hsome⟩
  · have hall : ∀ p ∈ withoutServiceName labels, decide (p.1 ≠ "service") = true := by
      intro p hp
      exact decide_eq_true fun hs => hnot (List.mem_map.mpr ⟨p, hp, hs⟩)
    rw [hnone, List.filter_eq_self.mpr hall]
    exact List.perm_append_comm
  · rw [heq, List.map_append, List.map_cons, List.nodup_middle, List.nodup_cons] at hn
    have hall : ∀ p ∈ before ++ after, decide (p.1 ≠ "service") = true := by
      intro p hp
      refine decide_eq_true fun hs => hn.1 ?_
      rw [← List.map_append]
      exact List.mem_map.mpr ⟨p, hp, hs⟩
    rw [hsome, heq, List.filter_append, List.filter_cons_of_neg (by simp), ← List.filter_append,
      List.filter_eq_self.mpr hall]
    exact List.perm_middle

/-- What is left beside the promoted `service.name` is a matter of the set of attributes, and of how
the `service.name`s are listed. -/
theorem perm_withoutServiceName (hset : ∀ l, l ∈ labels ↔ l ∈ labels')
    (hn : ((withoutServiceName labels).map Prod.fst).Nodup)
    (hn' : ((withoutServiceName labels').map Prod.fst).Nodup)
    (heq : labels.filter isServiceName = labels'.filter isServiceName) :
    (withoutServiceName labels).Perm (withoutServiceName labels') := by
  refine (List.perm_ext_iff_of_nodup hn.of_map hn'.of_map).mpr fun l => ?_
  cases hl : isServiceName l with
  | true =>
    have hiff : ∀ labels : List (String × String), l ∈ withoutServiceName labels ↔
        l ∈ (labels.filter isServiceName).tail := fun labels => by
      rw [← filter_withoutServiceName, List.mem_filter, hl, and_iff_left rfl]
    rw [hiff, hiff, heq]
  | false =>
    have hiff : ∀ labels : List (String × String), l ∈ withoutServiceName labels ↔ l ∈ labels :=
      fun labels => List.mem_eraseP_of_neg (by simp [hl])
    rw [hiff, hiff, hset]

/-- Beside the promoted label, the `service.name`s among the labels are the others. -/
theorem filter_promoted {l : String × String} {rest : List (String × String)}
    (h : labels.filter isServiceName = l :: rest) :
    (("service", l.2) :: (withoutServiceName labels).filter fun p =>
      decide (p.1 ≠ "service")).filter isServiceName = rest := by
  have hpass : ∀ p ∈ (withoutServiceName labels).filter isServiceName,
      decide (p.1 ≠ "service") = true := by
    intro p hp
    rw [beq_iff_eq.mp (show (p.1 == "service.name") = true from (List.mem_filter.mp hp).2)]
    decide
  rw [List.filter_cons_of_neg (by simp [isServiceName]), List.filter_comm,
    List.filter_eq_self.mpr hpass, filter_withoutServiceName, h, List.tail_cons]

/-- From the labels after a promotion the `service.name`s can be read off. -/
theorem eq_of_perm_promoteServiceName {l l' : String × String} {rest rest' : List (String × String)}
    (hf : labels.filter isServiceName = l :: rest)
    (hf' : labels'.filter isServiceName = l' :: rest')
    (hn : ((withoutServiceName labels).map Prod.fst).Nodup)
    (hn' : ((withoutServiceName labels').map Prod.fst).Nodup)
    (hp : (promoteServiceName labels).Perm (promoteServiceName labels')) :
    l :: rest = l' :: rest' := by
  have hperm := perm_promoteServiceName hf hn
  have hperm' := perm_promoteServiceName hf' hn'
  -- the promoted values agree, because a name stands once
  have hvalue : l.2 = l'.2 := by
    have hmem := hp.mem_iff.mp (hperm.mem_iff.mpr List.mem_cons_self)
    have hmem' := hperm'.mem_iff.mpr List.mem_cons_self
    exact (Prod.mk.inj (List.inj_on_of_nodup_map (nodup_names_promoteServiceName.mpr hn') hmem
      hmem' rfl)).2
  -- and so do the others, of which there is at most one
  have hothers : rest = rest' := by
    have hrest := (hperm.symm.trans (hp.trans hperm')).filter isServiceName
    rw [filter_promoted hf, filter_promoted hf'] at hrest
    have hle := length_tail_serviceNames_le hn
    rw [hf, List.tail_cons] at hle
    match rest, hle with
    | [], _ => exact hrest.nil_eq
    | [x], _ => exact hrest.singleton_eq
  have hname : ∀ {p : String × String} {q labels : List (String × String)},
      labels.filter isServiceName = p :: q → p.1 = "service.name" := by
    intro p q labels h
    have hmem : p ∈ labels.filter isServiceName := h ▸ List.mem_cons_self
    exact beq_iff_eq.mp (show (p.1 == "service.name") = true from (List.mem_filter.mp hmem).2)
  have hfirst : l = l' := Prod.ext ((hname hf).trans (hname hf').symm) hvalue
  rw [hothers, hfirst]

/-- **Promotion forgets the order of the attributes** exactly as far as the `service.name`s are
listed alike. -/
theorem perm_promoteServiceName_iff (hset : ∀ l, l ∈ labels ↔ l ∈ labels')
    (hn : ((withoutServiceName labels).map Prod.fst).Nodup)
    (hn' : ((withoutServiceName labels').map Prod.fst).Nodup) :
    (promoteServiceName labels).Perm (promoteServiceName labels') ↔
      labels.filter isServiceName = labels'.filter isServiceName := by
  have hmem : ∀ l, l ∈ labels.filter isServiceName ↔ l ∈ labels'.filter isServiceName := by
    intro l
    rw [List.mem_filter, List.mem_filter, hset]
  cases hf : labels.filter isServiceName with
  | nil =>
    have hf' : labels'.filter isServiceName = [] :=
      List.eq_nil_iff_forall_not_mem.mpr fun l hl => by simpa [hf] using (hmem l).mpr hl
    refine iff_of_true ?_ hf'.symm
    have hperm := perm_withoutServiceName hset hn hn' (hf.trans hf'.symm)
    rwa [promoteServiceName_of_filter_eq_nil hf, promoteServiceName_of_filter_eq_nil hf',
      ← List.eraseP_of_forall_not (List.filter_eq_nil_iff.mp hf),
      ← List.eraseP_of_forall_not (l := labels') (List.filter_eq_nil_iff.mp hf')]
  | cons l rest =>
    obtain ⟨l', rest', hf'⟩ : ∃ l' rest', labels'.filter isServiceName = l' :: rest' := by
      refine List.exists_cons_of_ne_nil fun hnil => ?_
      have hl := (hmem l).mp (hf ▸ List.mem_cons_self)
      simp [hnil] at hl
    rw [hf']
    refine ⟨eq_of_perm_promoteServiceName hf hf' hn hn', fun heq => ?_⟩
    refine (perm_promoteServiceName hf hn).trans
      (List.Perm.trans ?_ (perm_promoteServiceName hf' hn').symm)
    rw [(List.cons.inj heq).1]
    exact ((perm_withoutServiceName hset hn hn' (hf.trans (heq.trans hf'.symm))).filter _).cons _

end Promote

/-! ### The places -/

/-- The labels ingest adds. -/
inductive AddedLabel where
  | level | le | quantile

namespace AddedLabel

/-- The name of the label. -/
def key : AddedLabel → String
  | .level => "level"
  | .le => "le"
  | .quantile => "quantile"

end AddedLabel

/-- What the labels of one stream or series are made of. -/
structure LabelSource where
  /-- The metric name. -/
  name : Option String
  /-- The attributes of the resource. -/
  resource : List (String × String)
  /-- The attributes of the data point, or the labels of a Loki stream or a remote-write series. -/
  own : List (String × String)
  added : Option (AddedLabel × String)

namespace LabelSource

/-- The labels. -/
def labels (a : LabelSource) : List (String × String) :=
  (a.name.map fun name => ("__name__", name)).toList ++ (promoteServiceName a.resource ++ a.own ++
    (a.added.map fun added => (added.1.key, added.2)).toList)

/-- The names ingest takes for its own labels. -/
def reserved (a : LabelSource) : List String :=
  (a.name.map fun _ => "__name__").toList ++ (a.added.map fun added => added.1.key).toList

/-- **No name comes up twice.** A first `service.name` does not count, and takes the place of a
`service` beside it. -/
structure Distinct (a : LabelSource) : Prop where
  resource : ((withoutServiceName a.resource).map Prod.fst).Nodup
  own : (a.own.map Prod.fst).Nodup
  apart : ∀ n ∈ a.own.map Prod.fst, n ∉ (withoutServiceName a.resource).map Prod.fst
  service : a.resource.filter isServiceName ≠ [] → "service" ∉ a.own.map Prod.fst
  reserved : ∀ n ∈ a.reserved,
    n ∉ (withoutServiceName a.resource).map Prod.fst ∧ n ∉ a.own.map Prod.fst

/-- The same name, the same added label, and the same attributes. -/
structure SameSets (a b : LabelSource) : Prop where
  name : a.name = b.name
  resource : ∀ l, l ∈ a.resource ↔ l ∈ b.resource
  own : ∀ l, l ∈ a.own ↔ l ∈ b.own
  added : a.added = b.added

theorem nodup_reserved (a : LabelSource) : a.reserved.Nodup := by
  rcases a with ⟨_ | name, resource, own, _ | ⟨_ | _ | _, value⟩⟩ <;> simp [reserved, AddedLabel.key]

theorem service_notMem_reserved (a : LabelSource) : "service" ∉ a.reserved := by
  rcases a with ⟨_ | name, resource, own, _ | ⟨_ | _ | _, value⟩⟩ <;> simp [reserved, AddedLabel.key]

theorem perm_names (a : LabelSource) : (a.labels.map Prod.fst).Perm
    (a.reserved ++ ((promoteServiceName a.resource).map Prod.fst ++ a.own.map Prod.fst)) := by
  have hname : ((a.name.map fun name => ("__name__", name)).toList).map Prod.fst =
      (a.name.map fun _ => "__name__").toList := by
    cases a.name <;> rfl
  have hadded : ((a.added.map fun added => (added.1.key, added.2)).toList).map Prod.fst =
      (a.added.map fun added => added.1.key).toList := by
    cases a.added <;> rfl
  rw [labels, List.map_append, List.map_append, List.map_append, hname, hadded, reserved]
  refine List.Perm.trans ?_ (List.Perm.of_eq (List.append_assoc _ _ _).symm)
  exact List.Perm.append_left _ List.perm_append_comm

/-- **The names of the labels are distinct** exactly when no name comes up twice. -/
theorem nodup_labels_iff (a : LabelSource) : (a.labels.map Prod.fst).Nodup ↔ a.Distinct := by
  have hservice := a.service_notMem_reserved
  rw [a.perm_names.nodup_iff, List.nodup_append, List.nodup_append, nodup_names_promoteServiceName]
  constructor
  · rintro ⟨-, ⟨hresource, hown, hapart⟩, hreserved⟩
    refine ⟨hresource, hown, fun n hn hr => ?_, fun hf hs => ?_, fun n hn => ⟨fun hr => ?_, fun ho => ?_⟩⟩
    · exact hapart n (mem_names_promoteServiceName.mpr (.inl hr)) n hn rfl
    · exact hapart _ (mem_names_promoteServiceName.mpr (.inr ⟨rfl, hf⟩)) _ hs rfl
    · exact hreserved n hn n
        (List.mem_append_left _ (mem_names_promoteServiceName.mpr (.inl hr))) rfl
    · exact hreserved n hn n (List.mem_append_right _ ho) rfl
  · rintro ⟨hresource, hown, hapart, hs, hreserved⟩
    refine ⟨a.nodup_reserved, ⟨hresource, hown, ?_⟩, ?_⟩
    · rintro n hn _ ho rfl
      rcases mem_names_promoteServiceName.mp hn with hr | ⟨rfl, hf⟩
      · exact hapart n ho hr
      · exact hs hf ho
    · rintro n hn _ hm rfl
      rcases List.mem_append.mp hm with hm | ho
      · rcases mem_names_promoteServiceName.mp hm with hr | ⟨rfl, -⟩
        · exact (hreserved n hn).1 hr
        · exact hservice hn
      · exact (hreserved n hn).2 ho

/-- **The labels of two sources with the same sets** are the same up to their order exactly when the
`service.name`s are listed alike. -/
theorem perm_labels_iff {a b : LabelSource} (h : a.SameSets b) (ha : a.Distinct)
    (hb : b.Distinct) : b.labels.Perm a.labels ↔
      a.resource.filter isServiceName = b.resource.filter isServiceName := by
  have hown : a.own.Perm b.own :=
    (List.perm_ext_iff_of_nodup ha.own.of_map hb.own.of_map).mpr h.own
  rw [← perm_promoteServiceName_iff h.resource ha.resource hb.resource, labels, labels, h.name,
    h.added, List.perm_append_left_iff, List.perm_append_right_iff]
  constructor
  · intro hp
    exact ((List.perm_append_right_iff b.own).mp (hp.trans (hown.append_left _))).symm
  · intro hp
    exact hp.symm.append hown.symm

end LabelSource

end Aniani
