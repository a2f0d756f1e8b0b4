import Aniani.Ingest.Metrics

/-!
# Registered names

The registration table maps the key of a visible name to the key of the source name it was first
seen with. Read through the interner it is a partial map of strings, `MetricStore.sourceOf`, and
the two functions on it agree on what a collision is: `check_metric_name_collision` compares the
strings, `register_metric_name` the keys it has just interned. That they agree rests on
`MetricStore.NamesInterned`, that no table holds a key the interner does not know.

## Main definitions

* `MetricStore.NamesInterned` — the tables hold keys of the interner
* `MetricStore.sourceOf` — the registration table on strings
* `MetricStore.OnlyRegisters` — what registering names may change

## Main results

* `MetricStore.namesInterned_exec` — in every reachable store
* `MetricStore.registerMetricName_cases` — what a registration does
* `MetricStore.registerItems_eq_ok_iff` — which batches register
-/

namespace Aniani

open Interner

namespace MetricStore

variable {Rodeo Spur F64 : Type} [LinearOrder Spur] [Interner Rodeo Spur]

/-! ### The tables hold keys of the interner -/

/-- Whatever the tables hold, the interner knows. -/
structure NamesInterned (s : MetricStore Rodeo Spur F64) : Prop where
  sources : ∀ {k v}, s.normalizedNameSources.lookup k = some v →
    Valid s.interner k ∧ Valid s.interner v
  metadata : ∀ {k md}, s.metricMetadata.lookup k = some md → Valid s.interner k

theorem namesInterned_new : (new : MetricStore Rodeo Spur F64).NamesInterned where
  sources h := by simp [new] at h
  metadata h := by simp [new] at h

/-- Growing the interner and dropping bindings keeps the tables interned. -/
theorem NamesInterned.mono {s s' : MetricStore Rodeo Spur F64} (h : s.NamesInterned)
    (hext : Extends s.interner s'.interner)
    (hsources : ∀ k v, s'.normalizedNameSources.lookup k = some v →
      s.normalizedNameSources.lookup k = some v)
    (hmeta : ∀ k md, s'.metricMetadata.lookup k = some md →
      s.metricMetadata.lookup k = some md) : s'.NamesInterned where
  sources hkv :=
    have hvalid := h.sources (hsources _ _ hkv)
    ⟨hvalid.1.mono hext, hvalid.2.mono hext⟩
  metadata hk := (h.metadata (hmeta _ _ hk)).mono hext

theorem namesInterned_registerMetricMetadata {s : MetricStore Rodeo Spur F64}
    (h : s.NamesInterned) (normalizedName : String) (metricType : Option MetricType)
    (help unit : Option String) :
    (s.registerMetricMetadata normalizedName metricType help unit).NamesInterned where
  sources hkv :=
    have hvalid := h.sources hkv
    have hext := extends_getOrIntern s.interner normalizedName
    ⟨hvalid.1.mono hext, hvalid.2.mono hext⟩
  metadata {k md} hk := by
    have hk : (s.metricMetadata.insert _ _).lookup k = some md := hk
    rw [Finmap.lookup_insert_eq_ite] at hk
    split at hk
    · next heq => exact heq ▸ valid_getOrIntern s.interner normalizedName
    · exact (h.metadata hk).mono (extends_getOrIntern s.interner normalizedName)

theorem namesInterned_pruneOrphanedMetadata {s : MetricStore Rodeo Spur F64}
    (h : s.NamesInterned) (it : IterOrder ℕ) : (s.pruneOrphanedMetadata it).NamesInterned := by
  rw [pruneOrphanedMetadata]
  split
  · exact h
  · exact h.mono (Extends.refl _) (fun _ _ h => h)
      fun _ _ h => (Finmap.lookup_retain_eq_some.mp h).1

theorem namesInterned_pruneNames {s : MetricStore Rodeo Spur F64} (h : s.NamesInterned)
    (it : IterOrder ℕ) : (s.pruneNames it).NamesInterned := by
  rw [pruneNames]
  split
  · exact h
  · exact h.mono (Extends.refl _) (fun _ _ h => (Finmap.lookup_retain_eq_some.mp h).1)
      fun _ _ h => (Finmap.lookup_retain_eq_some.mp h).1

/-- An exchange of the label store underneath needs to keep the keys only. -/
theorem NamesInterned.setLabelStore {s : MetricStore Rodeo Spur F64} (h : s.NamesInterned)
    {t : LabelStore Rodeo Spur (Sample F64)} (hext : Extends s.interner t.interner) :
    NamesInterned { s with toLabelStore := t } :=
  h.mono hext (fun _ _ h => h) fun _ _ h => h

/-! ### The table on strings -/

/-- The source name a visible name is registered for. -/
def sourceOf (s : MetricStore Rodeo Spur F64) (name : String) : Option String :=
  (get s.interner name).bind fun k => (s.normalizedNameSources.lookup k).map (resolve s.interner)

theorem sourceOf_eq_some_iff {s : MetricStore Rodeo Spur F64} {name source : String} :
    s.sourceOf name = some source ↔ ∃ k v, get s.interner name = some k ∧
      s.normalizedNameSources.lookup k = some v ∧ resolve s.interner v = source := by
  simp only [sourceOf, Option.bind_eq_some_iff, Option.map_eq_some_iff]
  constructor
  · rintro ⟨k, hk, v, hv, hsource⟩
    exact ⟨k, v, hk, hv, hsource⟩
  · rintro ⟨k, v, hk, hv, hsource⟩
    exact ⟨k, hk, v, hv, hsource⟩

/-- A key of the table is the key of the name it stands for. -/
theorem NamesInterned.lookup_eq_some {s : MetricStore Rodeo Spur F64} (h : s.NamesInterned)
    {r : Rodeo} (hext : Extends s.interner r) {name : String} {k v : Spur}
    (hk : get r name = some k) (hv : s.normalizedNameSources.lookup k = some v) :
    get s.interner name = some k := by
  have hvalid := (h.sources hv).1
  have hname : name = resolve s.interner k := eq_of_get_eq hk (hext _ _ hvalid.get_resolve)
  rw [hname]
  exact hvalid.get_resolve

/-- Growing the interner does not change the table on strings. -/
theorem NamesInterned.sourceOf_congr {s t : MetricStore Rodeo Spur F64} (h : s.NamesInterned)
    (hext : Extends s.interner t.interner)
    (hsources : t.normalizedNameSources = s.normalizedNameSources) :
    t.sourceOf = s.sourceOf := by
  funext name
  refine Option.ext fun source => ?_
  rw [sourceOf_eq_some_iff, sourceOf_eq_some_iff, hsources]
  constructor
  · rintro ⟨k, v, hk, hv, rfl⟩
    exact ⟨k, v, h.lookup_eq_some hext hk hv, hv, ((h.sources hv).2.resolve_eq hext).symm⟩
  · rintro ⟨k, v, hk, hv, rfl⟩
    exact ⟨k, v, hext _ _ hk, hv, (h.sources hv).2.resolve_eq hext⟩

/-- The visible name is not registered for another source. -/
def Admits (s : MetricStore Rodeo Spur F64) (normalizedName sourceName : String) : Prop :=
  ∀ source, s.sourceOf normalizedName = some source → source = sourceName

theorem checkMetricNameCollision_eq_ok_iff (s : MetricStore Rodeo Spur F64)
    (normalizedName sourceName : String) :
    s.checkMetricNameCollision normalizedName sourceName = .ok () ↔
      s.Admits normalizedName sourceName := by
  rw [checkMetricNameCollision, Admits, sourceOf]
  cases get s.interner normalizedName with
  | none => simp
  | some k =>
    dsimp only [Option.bind_some]
    cases s.normalizedNameSources.lookup k with
    | none => simp
    | some existing => simp

/-! ### Registering one name -/

omit [LinearOrder Spur] in
theorem extends_internNames (s : MetricStore Rodeo Spur F64) (normalizedName sourceName : String) :
    Extends s.interner (s.internNames normalizedName sourceName).2.interner :=
  (extends_getOrIntern _ _).trans (extends_getOrIntern _ _)

omit [LinearOrder Spur] in
theorem get_internNames_normalized (s : MetricStore Rodeo Spur F64)
    (normalizedName sourceName : String) :
    get (s.internNames normalizedName sourceName).2.interner normalizedName =
      some (s.internNames normalizedName sourceName).1.1 :=
  extends_getOrIntern _ _ _ _ (get_getOrIntern_self _ _)

omit [LinearOrder Spur] in
theorem get_internNames_source (s : MetricStore Rodeo Spur F64)
    (normalizedName sourceName : String) :
    get (s.internNames normalizedName sourceName).2.interner sourceName =
      some (s.internNames normalizedName sourceName).1.2 :=
  get_getOrIntern_self _ _

theorem NamesInterned.internNames {s : MetricStore Rodeo Spur F64} (h : s.NamesInterned)
    (normalizedName sourceName : String) :
    (s.internNames normalizedName sourceName).2.NamesInterned :=
  h.mono (s.extends_internNames _ _) (fun _ _ h => h) fun _ _ h => h

/-- The store with a name added to the table. -/
def addName (s : MetricStore Rodeo Spur F64) (normalizedName sourceName : String) :
    MetricStore Rodeo Spur F64 :=
  { (s.internNames normalizedName sourceName).2 with
    normalizedNameSources := s.normalizedNameSources.insert
      (s.internNames normalizedName sourceName).1.1 (s.internNames normalizedName sourceName).1.2 }

/-- **What a registration does**: it fails on a name registered for another source, and otherwise
makes sure that the name is in the table. -/
theorem registerMetricName_cases {s : MetricStore Rodeo Spur F64} (h : s.NamesInterned)
    (normalizedName sourceName : String) :
    (∃ source, s.sourceOf normalizedName = some source ∧ source ≠ sourceName ∧
      s.registerMetricName normalizedName sourceName =
        ((s.internNames normalizedName sourceName).2,
          .error (.metricNameCollision normalizedName source sourceName))) ∨
    (s.sourceOf normalizedName = some sourceName ∧
      s.registerMetricName normalizedName sourceName =
        ((s.internNames normalizedName sourceName).2, .ok ())) ∨
    (s.sourceOf normalizedName = none ∧
      s.registerMetricName normalizedName sourceName =
        (s.addName normalizedName sourceName, .ok ())) := by
  have hext := s.extends_internNames normalizedName sourceName
  have hname := s.get_internNames_normalized normalizedName sourceName
  have hsource := s.get_internNames_source normalizedName sourceName
  rw [registerMetricName]
  dsimp only
  cases hv : s.normalizedNameSources.lookup (s.internNames normalizedName sourceName).1.1 with
  | none =>
    refine .inr (.inr ⟨?_, rfl⟩)
    rw [← h.sourceOf_congr hext (t := (s.internNames normalizedName sourceName).2) rfl, sourceOf,
      hname, Option.bind_some]
    show (s.normalizedNameSources.lookup _).map _ = none
    rw [hv, Option.map_none]
  | some existing =>
    have hold := h.lookup_eq_some hext hname hv
    have hres := (h.sources hv).2.resolve_eq hext
    have hof : s.sourceOf normalizedName =
        some (resolve (s.internNames normalizedName sourceName).2.interner existing) :=
      sourceOf_eq_some_iff.mpr ⟨_, existing, hold, hv, hres.symm⟩
    dsimp only
    split
    · next hne =>
      refine .inl ⟨_, hof, fun heq => hne ?_, rfl⟩
      have hget := ((h.sources hv).2.mono hext).get_resolve
      rw [heq, hsource] at hget
      exact (Option.some.inj hget).symm
    · next heq =>
      refine .inr (.inl ⟨?_, rfl⟩)
      rw [hof, not_not.mp heq]
      exact congrArg some (resolve_of_get hsource)

theorem NamesInterned.addName {s : MetricStore Rodeo Spur F64} (h : s.NamesInterned)
    (normalizedName sourceName : String) : (s.addName normalizedName sourceName).NamesInterned where
  sources {k v} hkv := by
    have hkv : (s.normalizedNameSources.insert _ _).lookup k = some v := hkv
    rw [Finmap.lookup_insert_eq_ite] at hkv
    split at hkv
    · next hk =>
      obtain rfl := Option.some.inj hkv
      exact ⟨⟨_, hk ▸ s.get_internNames_normalized _ _⟩, ⟨_, s.get_internNames_source _ _⟩⟩
    · exact (h.internNames _ _).sources hkv
  metadata hk := (h.internNames normalizedName sourceName).metadata hk

theorem namesInterned_registerMetricName {s : MetricStore Rodeo Spur F64} (h : s.NamesInterned)
    (normalizedName sourceName : String) :
    (s.registerMetricName normalizedName sourceName).1.NamesInterned := by
  obtain ⟨_, -, -, heq⟩ | ⟨-, heq⟩ | ⟨-, heq⟩ := registerMetricName_cases h normalizedName sourceName
  · rw [heq]
    exact h.internNames _ _
  · rw [heq]
    exact h.internNames _ _
  · rw [heq]
    exact h.addName _ _

theorem namesInterned_apply {s : MetricStore Rodeo Spur F64} (h : s.NamesInterned)
    (op : MetricOp F64) : (s.apply op).NamesInterned := by
  cases op with
  | ingestSamples name labels samples =>
    refine h.setLabelStore ?_
    rw [LabelStore.ingest_interner]
    exact extends_internLabelPairs _ _
  | intern string => exact h.setLabelStore (extends_getOrIntern _ _)
  | registerMetricName normalizedName sourceName => exact namesInterned_registerMetricName h _ _
  | registerMetricMetadata normalizedName metricType help unit =>
    exact namesInterned_registerMetricMetadata h _ _ _ _
  | evictBefore it cutoffMs =>
    refine namesInterned_pruneOrphanedMetadata (h.setLabelStore ?_) it
    rw [(s.toLabelStore.evictBefore_frame it cutoffMs).1]
    exact Extends.refl _
  | evictToMax it maxSeries =>
    rw [apply, evictToMax]
    split
    · exact h
    · refine namesInterned_pruneOrphanedMetadata (h.setLabelStore ?_) it
      rw [LabelStore.foldl_dropStream_interner]
      exact Extends.refl _
  | clear => exact namesInterned_new
  | clearService it service =>
    rw [apply, clearService]
    split
    · exact h
    · refine namesInterned_pruneNames (h.setLabelStore ?_) it
      rw [LabelStore.foldl_dropStream_interner]
      exact Extends.refl _
  | rebuildSeriesIds it =>
    refine h.setLabelStore ?_
    rw [(s.toLabelStore.rebuildStreamIds_frame it).2]
    exact Extends.refl _

/-- **In every reachable store** the tables hold keys of the interner. -/
theorem namesInterned_exec {s : MetricStore Rodeo Spur F64} (h : s.NamesInterned)
    (ops : List (MetricOp F64)) : (Run.exec apply s ops).NamesInterned :=
  Run.exec_invariant (P := NamesInterned) (fun _ op hs => namesInterned_apply hs op) h ops

theorem sourceOf_addName {s : MetricStore Rodeo Spur F64} (h : s.NamesInterned)
    (normalizedName sourceName : String) :
    (s.addName normalizedName sourceName).sourceOf =
      Function.update s.sourceOf normalizedName (some sourceName) := by
  have hext := s.extends_internNames normalizedName sourceName
  funext name
  by_cases hname : name = normalizedName
  · subst hname
    rw [Function.update_self]
    exact sourceOf_eq_some_iff.mpr ⟨_, _, s.get_internNames_normalized _ _,
      Finmap.lookup_insert _, resolve_of_get (s.get_internNames_source _ _)⟩
  · rw [Function.update_of_ne hname,
      ← h.sourceOf_congr hext (t := (s.internNames normalizedName sourceName).2) rfl]
    refine Option.ext fun source => ?_
    rw [sourceOf_eq_some_iff, sourceOf_eq_some_iff]
    refine exists₂_congr fun k v => and_congr_right fun hk => and_congr_left' ?_
    show (s.normalizedNameSources.insert _ _).lookup k = _ ↔ _
    rw [Finmap.lookup_insert_eq_ite, if_neg]
    · rfl
    · -- two names do not share a key
      rintro rfl
      exact hname (eq_of_get_eq hk (s.get_internNames_normalized normalizedName sourceName))

/-! ### What registering may change -/

/-- The interner and the table grow, and nothing else changes. -/
structure OnlyRegisters (s s' : MetricStore Rodeo Spur F64) : Prop where
  toLabelStore : s'.toLabelStore = { s.toLabelStore with interner := s'.interner }
  metricMetadata : s'.metricMetadata = s.metricMetadata
  interner : Extends s.interner s'.interner
  interned : s'.NamesInterned

theorem OnlyRegisters.refl {s : MetricStore Rodeo Spur F64} (h : s.NamesInterned) :
    s.OnlyRegisters s where
  toLabelStore := rfl
  metricMetadata := rfl
  interner := Extends.refl _
  interned := h

theorem OnlyRegisters.trans {s₁ s₂ s₃ : MetricStore Rodeo Spur F64} (h₁ : s₁.OnlyRegisters s₂)
    (h₂ : s₂.OnlyRegisters s₃) : s₁.OnlyRegisters s₃ where
  toLabelStore := by rw [h₂.toLabelStore, h₁.toLabelStore]
  metricMetadata := h₂.metricMetadata.trans h₁.metricMetadata
  interner := h₁.interner.trans h₂.interner
  interned := h₂.interned

theorem onlyRegisters_internNames {s : MetricStore Rodeo Spur F64} (h : s.NamesInterned)
    (normalizedName sourceName : String) :
    s.OnlyRegisters (s.internNames normalizedName sourceName).2 where
  toLabelStore := rfl
  metricMetadata := rfl
  interner := s.extends_internNames _ _
  interned := h.internNames _ _

theorem onlyRegisters_registerMetricName {s : MetricStore Rodeo Spur F64} (h : s.NamesInterned)
    (normalizedName sourceName : String) :
    s.OnlyRegisters (s.registerMetricName normalizedName sourceName).1 := by
  obtain ⟨_, -, -, heq⟩ | ⟨-, heq⟩ | ⟨-, heq⟩ := registerMetricName_cases h normalizedName sourceName
  · rw [heq]
    exact onlyRegisters_internNames h _ _
  · rw [heq]
    exact onlyRegisters_internNames h _ _
  · rw [heq]
    exact ⟨rfl, rfl, s.extends_internNames _ _, h.addName _ _⟩

/-- A registration succeeds on what the check accepts. -/
theorem registerMetricName_eq_ok_iff {s : MetricStore Rodeo Spur F64} (h : s.NamesInterned)
    (normalizedName sourceName : String) :
    (s.registerMetricName normalizedName sourceName).2 = .ok () ↔
      s.Admits normalizedName sourceName := by
  obtain ⟨source, hof, hne, heq⟩ | ⟨hof, heq⟩ | ⟨hof, heq⟩ :=
    registerMetricName_cases h normalizedName sourceName <;> rw [heq, Admits, hof]
  · simpa using hne
  · simp
  · simp

theorem sourceOf_registerMetricName {s : MetricStore Rodeo Spur F64} (h : s.NamesInterned)
    {normalizedName sourceName : String} (hadmits : s.Admits normalizedName sourceName) :
    (s.registerMetricName normalizedName sourceName).1.sourceOf =
      Function.update s.sourceOf normalizedName (some sourceName) := by
  obtain ⟨source, hof, hne, -⟩ | ⟨hof, heq⟩ | ⟨-, heq⟩ :=
    registerMetricName_cases h normalizedName sourceName
  · exact absurd (hadmits source hof) hne
  · rw [heq, h.sourceOf_congr (s.extends_internNames _ _) rfl, ← hof, Function.update_eq_self]
  · rw [heq, sourceOf_addName h]

/-- A registration that fails leaves the table. -/
theorem sourceOf_registerMetricName_of_not_admits {s : MetricStore Rodeo Spur F64}
    (h : s.NamesInterned) {normalizedName sourceName : String}
    (hadmits : ¬ s.Admits normalizedName sourceName) :
    (s.registerMetricName normalizedName sourceName).1.sourceOf = s.sourceOf := by
  obtain ⟨_, -, -, heq⟩ | ⟨hof, -⟩ | ⟨hof, -⟩ :=
    registerMetricName_cases h normalizedName sourceName
  · rw [heq, h.sourceOf_congr (s.extends_internNames _ _) rfl]
  · exact absurd (fun source hs => Option.some.inj (hs.symm.trans hof)) hadmits
  · exact absurd (fun source hs => by simp [hof] at hs) hadmits

/-! ### The two loops over the names of a request -/

theorem checkItems_eq_ok_iff (s : MetricStore Rodeo Spur F64) (items : List (PreparedItem F64)) :
    s.checkItems items = .ok () ↔ ∀ item ∈ items, s.Admits item.name item.sourceName := by
  induction items with
  | nil => simp [checkItems]
  | cons item items ih =>
    rw [checkItems, List.forall_mem_cons, ← checkMetricNameCollision_eq_ok_iff, ← ih]
    cases s.checkMetricNameCollision item.name item.sourceName with
    | error e => simp
    | ok _ => simp

theorem onlyRegisters_registerItems {s : MetricStore Rodeo Spur F64} (h : s.NamesInterned)
    (items : List (PreparedItem F64)) : s.OnlyRegisters (s.registerItems items).1 := by
  induction items generalizing s with
  | nil => exact OnlyRegisters.refl h
  | cons item items ih =>
    have hreg := onlyRegisters_registerMetricName h item.name item.sourceName
    rw [registerItems]
    split
    · next s' e heq => rwa [heq] at hreg
    · next s' heq =>
      rw [heq] at hreg
      exact hreg.trans (ih hreg.interned)

/-- The second loop, one item at a time. -/
theorem registerItems_cons_of_admits {s : MetricStore Rodeo Spur F64} (h : s.NamesInterned)
    {item : PreparedItem F64} (hadmits : s.Admits item.name item.sourceName)
    (items : List (PreparedItem F64)) :
    s.registerItems (item :: items) =
      (s.registerMetricName item.name item.sourceName).1.registerItems items := by
  have hok := (registerMetricName_eq_ok_iff h _ _).mpr hadmits
  rw [registerItems]
  split
  · next heq =>
    rw [heq] at hok
    simp at hok
  · next heq => rw [heq]

theorem registerItems_cons_of_not_admits {s : MetricStore Rodeo Spur F64} (h : s.NamesInterned)
    {item : PreparedItem F64} (hadmits : ¬ s.Admits item.name item.sourceName)
    (items : List (PreparedItem F64)) :
    s.registerItems (item :: items) = s.registerMetricName item.name item.sourceName := by
  have hok := (registerMetricName_eq_ok_iff h _ _).not.mpr hadmits
  rw [registerItems]
  split
  · next heq => rw [heq]
  · next heq =>
    rw [heq] at hok
    exact absurd rfl hok

/-- Items of one name have one source name. -/
def OneSource (items : List (PreparedItem F64)) : Prop :=
  ∀ a ∈ items, ∀ b ∈ items, a.name = b.name → a.sourceName = b.sourceName

theorem oneSource_cons {item : PreparedItem F64} {items : List (PreparedItem F64)} :
    OneSource (item :: items) ↔
      (∀ b ∈ items, b.name = item.name → b.sourceName = item.sourceName) ∧ OneSource items := by
  constructor
  · intro h
    exact ⟨fun b hb hname => h b (.tail _ hb) item (.head _) hname,
      fun a ha b hb => h a (.tail _ ha) b (.tail _ hb)⟩
  · rintro ⟨hitem, hitems⟩ a ha b hb hname
    rcases List.mem_cons.mp ha with rfl | ha' <;> rcases List.mem_cons.mp hb with rfl | hb'
    · rfl
    · exact (hitem b hb' hname.symm).symm
    · exact hitem a ha' hname
    · exact hitems a ha' b hb' hname

/-- After a name is added, a pair of names is admitted if it was before and does not contradict
the new one. -/
theorem admits_registerMetricName {s : MetricStore Rodeo Spur F64} (h : s.NamesInterned)
    {normalizedName sourceName : String} (hadmits : s.Admits normalizedName sourceName)
    {name source : String} :
    (s.registerMetricName normalizedName sourceName).1.Admits name source ↔
      (name = normalizedName → source = sourceName) ∧
        (name ≠ normalizedName → s.Admits name source) := by
  rw [Admits, sourceOf_registerMetricName h hadmits]
  by_cases hname : name = normalizedName
  · subst hname
    simp [eq_comm]
  · simp [hname, Admits]

/-- **Which batches register**: the table admits every pair of names, and so do the other pairs of
the batch. -/
theorem registerItems_eq_ok_iff {s : MetricStore Rodeo Spur F64} (h : s.NamesInterned)
    (items : List (PreparedItem F64)) :
    (s.registerItems items).2 = .ok () ↔
      (∀ item ∈ items, s.Admits item.name item.sourceName) ∧ OneSource items := by
  induction items generalizing s with
  | nil => simp [registerItems, OneSource]
  | cons item items ih =>
    rw [List.forall_mem_cons, oneSource_cons]
    by_cases hadmits : s.Admits item.name item.sourceName
    · rw [registerItems_cons_of_admits h hadmits,
        ih (onlyRegisters_registerMetricName h _ _).interned]
      simp only [admits_registerMetricName h hadmits]
      constructor
      · rintro ⟨hall, hone⟩
        refine ⟨⟨hadmits, fun b hb => ?_⟩, fun b hb => (hall b hb).1, hone⟩
        by_cases hname : b.name = item.name
        · rwa [hname, (hall b hb).1 hname]
        · exact (hall b hb).2 hname
      · rintro ⟨⟨-, hall⟩, hitem, hone⟩
        exact ⟨fun b hb => ⟨hitem b hb, fun _ => hall b hb⟩, hone⟩
    · rw [registerItems_cons_of_not_admits h hadmits, registerMetricName_eq_ok_iff h]
      tauto

/-- **A batch that fails to register** stops at an item that the table it leaves does not admit. -/
theorem not_admits_of_registerItems {s : MetricStore Rodeo Spur F64} (h : s.NamesInterned)
    {items : List (PreparedItem F64)} (herr : (s.registerItems items).2 ≠ .ok ()) :
    ∃ item ∈ items, ¬ (s.registerItems items).1.Admits item.name item.sourceName := by
  induction items generalizing s with
  | nil => exact absurd rfl herr
  | cons item items ih =>
    by_cases hadmits : s.Admits item.name item.sourceName
    · rw [registerItems_cons_of_admits h hadmits] at herr ⊢
      obtain ⟨b, hb, hnot⟩ := ih (onlyRegisters_registerMetricName h _ _).interned herr
      exact ⟨b, .tail _ hb, hnot⟩
    · refine ⟨item, .head _, ?_⟩
      rwa [registerItems_cons_of_not_admits h hadmits, Admits,
        sourceOf_registerMetricName_of_not_admits h hadmits]

/-- What the table holds after a batch has been registered. -/
theorem sourceOf_registerItems {s : MetricStore Rodeo Spur F64} (h : s.NamesInterned)
    {items : List (PreparedItem F64)} (hok : (s.registerItems items).2 = .ok ()) (name : String) :
    (s.registerItems items).1.sourceOf name ≠ none ↔
      s.sourceOf name ≠ none ∨ ∃ item ∈ items, item.name = name := by
  induction items generalizing s with
  | nil => simp [registerItems]
  | cons item items ih =>
    have hadmits := ((registerItems_eq_ok_iff h _).mp hok).1 item (.head _)
    rw [registerItems_cons_of_admits h hadmits] at hok ⊢
    rw [ih (onlyRegisters_registerMetricName h _ _).interned hok,
      sourceOf_registerMetricName h hadmits]
    by_cases hname : name = item.name
    · subst hname
      simp
    · simp [hname, Ne.symm hname]

end MetricStore

end Aniani
