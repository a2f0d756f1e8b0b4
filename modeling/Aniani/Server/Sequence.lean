import Aniani.Server.Snapshot
import Aniani.ForMathlib.Run

/-!
# The counter across a restart

`max_ingest_seq` reads the seed of the counter off the entries that are left. A token is at most the
counter, so the seed stays at or above it as long as the entry with the number just below the token
is still stored when the snapshot is taken; an eviction, a reset or a rejected request can see to it
that it is not.

The run argument is one invariant about a fixed list of numbers and tokens: the counter, the numbers
in flight and the entries of the server, of every save and of the file on disk stay at or above
them, but for the entries that are older.

## Main definitions

* `Host.ReseedsAbove` — what a restart is meant to do
* `Host.NewestKept` — when it does
* `Host.Above` — the invariant

## Main results

* `Host.reseedsAbove_iff_newestKept`
* `Host.Above.step`
* `Host.monotone_across_restart` — and the run after a restart
* `Host.reset_then_restart` — a reset before the snapshot
-/

namespace Aniani

namespace Host

variable {Rodeo Spur F64 : Type} [LinearOrder Spur] [Interner Rodeo Spur] [Float64 F64]
  [SerdeJson F64]

/-! ### The conditions -/

omit [Float64 F64] [SerdeJson F64] in
/-- A restart starts the counter at or above all that was handed out before its snapshot. -/
def ReseedsAbove (h : Host Rodeo Spur F64) : Happening F64 → Prop
  | .restart it =>
    ∀ saved ∈ h.disk, ∀ x ∈ saved.issued, x ≤ (h.restarted it).state.ingestSeq
  | _ => True

omit [LinearOrder Spur] [Float64 F64] [SerdeJson F64] [Interner Rodeo Spur] in
/-- The snapshot a restart reads still has an entry with the number just below, for all that was
handed out before it. Nothing is asked for a number below the first one. -/
def NewestKept (h : Host Rodeo Spur F64) : Happening F64 → Prop
  | .restart _ =>
    ∀ saved ∈ h.disk, ∀ x ∈ saved.issued,
      x ≤ 1 ∨ ∃ e, saved.stores.Holds e ∧ x ≤ e.ingestSeq + 1
  | _ => True

/-- The last number of the counter is not taken. -/
def NoWrap (h : Host Rodeo Spur F64) : Happening F64 → Prop
  | .server ev => ∀ n, h.server.handsOut ev = some n → n < u64Max
  | _ => True

end Host

/-! ### The seed -/

/-- **The seed is above a number** when the number just below it is stored. -/
theorem Stores.le_seed_iff {Rodeo Spur F64 : Type} {s : Stores Rodeo Spur F64} {x : ℕ} (hx : x ≤ u64Max) :
    x ≤ (AppState.seeded s).ingestSeq ↔ x ≤ 1 ∨ ∃ e, s.Holds e ∧ x ≤ e.ingestSeq + 1 := by
  show x ≤ min (s.maxSeq + 1) u64Max ↔ _
  constructor
  · intro hle
    have hle : x ≤ s.maxSeq + 1 := hle.trans (min_le_left _ _)
    rcases s.maxIngestSeq_eq with h0 | ⟨e, he, hmax⟩
    · exact .inl (by omega)
    · exact .inr ⟨e, he, by omega⟩
  · rintro (h1 | ⟨e, he, hle⟩)
    · omega
    · have := Stores.le_maxIngestSeq he
      omega

theorem Stores.le_seed_restore_iff {Rodeo Spur F64 : Type} [LinearOrder Spur]
    {s : Stores Rodeo Spur F64} {it : IterOrder ℕ} {x : ℕ} (hx : x ≤ u64Max) :
    x ≤ (AppState.seeded (s.restore it)).ingestSeq ↔
      x ≤ 1 ∨ ∃ e, s.Holds e ∧ x ≤ e.ingestSeq + 1 := by
  rw [Stores.le_seed_iff hx]
  simp only [Stores.holds_restore]

namespace Host

variable {Rodeo Spur F64 : Type} [LinearOrder Spur] [Interner Rodeo Spur] [Float64 F64]
  [SerdeJson F64]

/-! ### What was handed out are `u64`s -/

omit [LinearOrder Spur] [Interner Rodeo Spur] [Float64 F64] [SerdeJson F64] in
/-- The counter and all that was handed out are `u64`s. -/
structure Sane (h : Host Rodeo Spur F64) : Prop where
  counter : h.server.state.ingestSeq ≤ u64Max
  issued : ∀ x ∈ h.issued, x ≤ u64Max
  saves : ∀ save ∈ h.saves, save.issued ⊆ h.issued
  disk : ∀ saved ∈ h.disk, saved.issued ⊆ h.issued

omit [LinearOrder Spur] [Float64 F64] [SerdeJson F64] in
theorem sane_start : (start : Host Rodeo Spur F64).Sane where
  counter := min_le_right _ _
  issued := fun _ hx => by simp [start] at hx
  saves := fun _ hs => by simp [start] at hs
  disk := fun _ hs => by simp [start] at hs

/-- The parts of a save that a step changes are its clones. -/
theorem mem_modify {α : Type} {l : List α} {j : ℕ} {f : α → α} {P : α → Prop}
    (hl : ∀ a ∈ l, P a) (hf : ∀ a, P a → P (f a)) : ∀ a ∈ l.modify j f, P a := by
  intro a ha
  obtain ⟨i, hi⟩ := List.mem_iff_getElem?.mp ha
  rw [List.getElem?_modify] at hi
  cases hb : l[i]? with
  | none => simp [hb] at hi
  | some b =>
    have hPb := hl b (List.mem_of_getElem? hb)
    rw [hb, Option.map_eq_map, Option.map_some, Option.some.injEq] at hi
    split at hi
    · exact hi ▸ hf b hPb
    · exact hi ▸ hPb

theorem Sane.step {h : Host Rodeo Spur F64} (hs : h.Sane) (ev : Happening F64) :
    (h.step ev).Sane := by
  have hgrow : ∀ l : List ℕ, h.issued ⊆ h.issued ++ l := fun l => List.subset_append_left _ _
  cases ev with
  | server ev =>
    refine ⟨?_, fun x hx => ?_, fun save hsave => List.Subset.trans (hs.saves save hsave) (hgrow _),
      fun saved hsaved => List.Subset.trans (hs.disk saved hsaved) (hgrow _)⟩
    · show (h.server.step ev).state.ingestSeq ≤ u64Max
      rw [Server.ingestSeq_step]
      have hcounter := hs.counter
      simp only [u64Max] at hcounter ⊢
      split <;> omega
    · rcases List.mem_append.mp hx with hx | hx
      · exact hs.issued x hx
      · rw [Server.eq_of_handsOut (Option.mem_toList.mp hx)]
        exact hs.counter
  | checkpoint =>
    refine ⟨hs.counter, fun x hx => ?_,
      fun save hsave => List.Subset.trans (hs.saves save hsave) (hgrow _),
      fun saved hsaved => List.Subset.trans (hs.disk saved hsaved) (hgrow _)⟩
    rcases List.mem_append.mp hx with hx | hx
    · exact hs.issued x hx
    · rw [List.mem_singleton.mp hx]
      exact hs.counter
  | cloneLogs =>
    refine ⟨hs.counter, hs.issued, fun save hsave => ?_, hs.disk⟩
    rcases List.mem_append.mp hsave with hsave | hsave
    · exact hs.saves save hsave
    · rw [List.mem_singleton.mp hsave]
      exact List.Subset.refl _
  | cloneMetrics j =>
    exact ⟨hs.counter, hs.issued, mem_modify hs.saves fun _ => id, hs.disk⟩
  | cloneTraces j =>
    exact ⟨hs.counter, hs.issued, mem_modify hs.saves fun _ => id, hs.disk⟩
  | write j =>
    rw [Host.step]
    split
    · exact hs
    · next save hsave =>
      split
      · exact hs
      · next stores _ =>
        refine ⟨hs.counter, hs.issued, fun save' hsave' =>
          hs.saves save' (List.mem_of_mem_eraseIdx hsave'), fun saved hsaved => ?_⟩
        obtain rfl := Option.some.inj hsaved
        exact hs.saves save (List.mem_of_getElem? hsave)
  | restart it =>
    refine ⟨?_, hs.issued, fun save hsave => by simp [Host.step] at hsave, hs.disk⟩
    show (h.restarted it).state.ingestSeq ≤ u64Max
    rw [restarted]
    split <;> exact min_le_right _ _

omit [Float64 F64] [SerdeJson F64] in
/-- **One restart.** It starts the counter high enough exactly when its snapshot kept the newest
entry. -/
theorem reseedsAbove_iff_newestKept {h : Host Rodeo Spur F64} (hs : h.Sane) (ev : Happening F64) :
    h.ReseedsAbove ev ↔ h.NewestKept ev := by
  cases ev with
  | restart it =>
    refine forall₂_congr fun saved hsaved => forall₂_congr fun x hx => ?_
    rw [restarted, show h.disk = some saved from hsaved]
    exact Stores.le_seed_restore_iff (hs.issued x (hs.disk saved hsaved hx))
  | _ => exact Iff.rfl

/-! ### The run after a restart -/

omit [LinearOrder Spur] [Interner Rodeo Spur] [Float64 F64] [SerdeJson F64] in
/-- Nothing is below the numbers of `T`, but for what `Old` holds of. -/
structure Above (h : Host Rodeo Spur F64) (T : List ℕ) (Old : Entry Spur F64 → Prop) : Prop where
  issued : T ⊆ h.issued
  counter : ∀ x ∈ T, x ≤ h.server.state.ingestSeq
  server : h.server.Carries (fun n => ∀ x ∈ T, x ≤ n)
    (fun e => Old e ∨ ∀ x ∈ T, x ≤ e.ingestSeq)
  saves : ∀ save ∈ h.saves, T ⊆ save.issued ∧
    ∀ e, save.Holds e → Old e ∨ ∀ x ∈ T, x ≤ e.ingestSeq
  disk : ∃ saved, h.disk = some saved ∧ T ⊆ saved.issued ∧
    ∀ e, saved.stores.Holds e → Old e ∨ ∀ x ∈ T, x ≤ e.ingestSeq

/-- A restart that reseeds high enough establishes the invariant for all that was handed out before
its snapshot; what is restored is old. -/
theorem above_restart {h : Host Rodeo Spur F64} (hs : h.Sane) {saved : Saved Rodeo Spur F64}
    (hdisk : h.disk = some saved) {it : IterOrder ℕ} (hseed : h.ReseedsAbove (.restart it)) :
    (h.step (.restart it)).Above saved.issued saved.stores.Holds where
  issued := hs.disk saved hdisk
  counter := hseed saved hdisk
  server := by
    rw [Host.step, restarted, hdisk]
    exact ⟨fun r hr => by simp at hr,
      fun e he => .inl ((Stores.holds_restore it saved.stores e).mp he)⟩
  saves := fun save hsave => by simp [Host.step] at hsave
  disk := ⟨saved, hdisk, List.Subset.refl _, fun _ => .inl⟩

/-- **Step rule.** Every step keeps the invariant, a restart if it reseeds high enough. -/
theorem Above.step {h : Host Rodeo Spur F64} {T : List ℕ} {Old : Entry Spur F64 → Prop}
    (ha : h.Above T Old) {ev : Happening F64} (hseed : h.ReseedsAbove ev) (hwrap : h.NoWrap ev) :
    (h.step ev).Above T Old := by
  have hgrow : ∀ l : List ℕ, T ⊆ h.issued ++ l := fun l =>
    List.Subset.trans ha.issued (List.subset_append_left _ _)
  cases ev with
  | server ev =>
    refine ⟨hgrow _, fun x hx => ?_, ha.server.step (fun e => .inr) fun n hn => ?_, ha.saves,
      ha.disk⟩
    · have hle := ha.counter x hx
      show x ≤ (h.server.step ev).state.ingestSeq
      rw [Server.ingestSeq_step]
      split
      · exact hle
      · next hout =>
        obtain ⟨n, hn⟩ := Option.ne_none_iff_exists'.mp hout
        have hlt := hwrap n hn
        rw [Server.eq_of_handsOut hn] at hlt
        simp only [u64Max] at hlt
        omega
    · rw [Server.eq_of_handsOut hn]
      exact ha.counter
  | checkpoint => exact ⟨hgrow _, ha.counter, ha.server, ha.saves, ha.disk⟩
  | cloneLogs =>
    refine ⟨ha.issued, ha.counter, ha.server, fun save hsave => ?_, ha.disk⟩
    rcases List.mem_append.mp hsave with hsave | hsave
    · exact ha.saves save hsave
    · obtain rfl := List.mem_singleton.mp hsave
      refine ⟨ha.issued, fun e he => ha.server.stored e ?_⟩
      cases e with
      | log e => exact he
      | sample e => exact absurd he (by simp [Save.Holds])
      | span e => exact absurd he (by simp [Save.Holds])
  | cloneMetrics j =>
    refine ⟨ha.issued, ha.counter, ha.server, ?_, ha.disk⟩
    refine mem_modify ha.saves fun save hsave => ⟨hsave.1, fun e he => ?_⟩
    cases e with
    | log e => exact hsave.2 _ he
    | sample e =>
      obtain ⟨_, hclone, he⟩ := he
      obtain rfl := Option.some.inj hclone
      exact ha.server.stored (.sample e) he
    | span e => exact hsave.2 _ he
  | cloneTraces j =>
    refine ⟨ha.issued, ha.counter, ha.server, ?_, ha.disk⟩
    refine mem_modify ha.saves fun save hsave => ⟨hsave.1, fun e he => ?_⟩
    cases e with
    | log e => exact hsave.2 _ he
    | sample e => exact hsave.2 _ he
    | span e =>
      obtain ⟨_, hclone, he⟩ := he
      obtain rfl := Option.some.inj hclone
      exact ha.server.stored (.span e) he
  | write j =>
    rw [Host.step]
    split
    · exact ha
    · next save hsave =>
      split
      · exact ha
      · next stores hstores =>
        obtain ⟨hsub, hheld⟩ := ha.saves save (List.mem_of_getElem? hsave)
        exact ⟨ha.issued, ha.counter, ha.server,
          fun save' hsave' => ha.saves save' (List.mem_of_mem_eraseIdx hsave'),
          ⟨_, rfl, hsub, fun e he => hheld e (Save.holds_of_stores? hstores he)⟩⟩
  | restart it =>
    obtain ⟨saved, hdisk, hsub, hheld⟩ := ha.disk
    refine ⟨ha.issued, fun x hx => hseed saved hdisk x (hsub hx), ?_,
      fun save hsave => by simp [Host.step] at hsave, saved, hdisk, hsub, hheld⟩
    rw [Host.step, restarted, hdisk]
    exact ⟨fun r hr => by simp at hr,
      fun e he => hheld e ((Stores.holds_restore it saved.stores e).mp he)⟩

/-- **Numbers across a restart.** Along a run, every restart starts the counter at or above all that
was handed out before its snapshot exactly when every restart finds the newest entry kept. In such a
run that does not exhaust the counter, what is stored after a restart was in its snapshot, or has a
number at or above all that was handed out before the snapshot. -/
theorem monotone_across_restart (before after : List (Happening F64)) (it : IterOrder ℕ) :
    let run := before ++ Happening.restart it :: after
    let s : Host Rodeo Spur F64 := start
    (Run.Along Host.step ReseedsAbove s run ↔ Run.Along Host.step NewestKept s run) ∧
      (Run.Along Host.step NewestKept s run → Run.Along Host.step NoWrap s run →
        ∀ saved ∈ (Run.exec Host.step s before).disk,
          ∀ e, (Run.exec Host.step s run).server.state.Holds e →
            saved.stores.Holds e ∨ ∀ x ∈ saved.issued, x ≤ e.ingestSeq) := by
  intro run s
  have hiff : Run.Along Host.step ReseedsAbove s run ↔ Run.Along Host.step NewestKept s run :=
    Run.along_iff_along (A := fun _ _ => True) (P := Sane)
      (fun h ev _ hs => reseedsAbove_iff_newestKept hs ev) (fun h ev _ _ hs => hs.step ev)
      sane_start (Run.along_true _ _ _)
  refine ⟨hiff, fun hkept hwrap saved hsaved e he => ?_⟩
  have hseed := hiff.mpr hkept
  have hsane : (Run.exec Host.step s before).Sane :=
    Run.exec_invariant (fun h ev hs => hs.step ev) sane_start before
  rw [Run.along_append, Run.along_cons] at hseed hwrap
  have hstart := above_restart hsane hsaved hseed.2.1
  have hend := Run.exec_invariant_along (C := fun h ev => ReseedsAbove h ev ∧ NoWrap h ev)
    (P := fun h => h.Above saved.issued saved.stores.Holds)
    (fun h ev hC ha => ha.step hC.1 hC.2) hstart (hseed.2.2.and hwrap.2.2)
  rw [Run.exec_append] at he
  exact hend.server.stored e he

/-! ### With and without a reset -/

/-- A push of one line, and a checkpoint. -/
def pushRun : List (Happening ℤ) :=
  [.server (.arrive (.lokiPush [⟨[("service", "a")], List.nodup_singleton "service",
      [⟨0, zero_mem_i64, "line", none, none, []⟩]⟩])),
    .server (.stamp 0), .server (.commit 0), .checkpoint]

/-- A snapshot with nothing in between. -/
def saveRun : List (Happening ℤ) := [.cloneLogs, .cloneMetrics 0, .cloneTraces 0, .write 0]

/-- The log store is cleared. -/
def clearRun : List (Happening ℤ) := [.server (.removeLogs (IterOrder.ascending ℕ) .clear)]

omit [LinearOrder Spur] [Interner Rodeo Spur] [Float64 F64] [SerdeJson F64] in
/-- One number is taken by a push of one line. -/
theorem noWrap_pushRun {h : Host VecRodeo ℕ ℤ} (hlt : h.server.state.ingestSeq < u64Max) :
    Run.Along Host.step NoWrap h pushRun := by
  refine ⟨fun n hn => ?_, fun n hn => ?_, fun n hn => ?_, trivial, trivial⟩
  · exact absurd hn (by simp [Server.handsOut])
  · rw [Server.eq_of_handsOut hn]
    exact hlt
  · exact absurd hn (by simp [Server.handsOut])

/-- After a restart the next line has the number of the token. -/
theorem monotone_across_restart_push :
    let before := pushRun ++ saveRun
    let run := before ++ Happening.restart (IterOrder.ascending ℕ) :: pushRun
    let s : Host VecRodeo ℕ ℤ := start
    ∀ saved ∈ (Run.exec Host.step s before).disk,
      ∀ e, (Run.exec Host.step s run).server.state.Holds e →
        saved.stores.Holds e ∨ ∀ x ∈ saved.issued, x ≤ e.ingestSeq := by
  intro before run s
  refine (monotone_across_restart before pushRun (IterOrder.ascending ℕ)).2 ?_ ?_
  · refine Run.along_append.mpr ⟨?_, fun saved hsaved x hx => ?_, ?_⟩
    · simp [before, pushRun, saveRun, NewestKept]
    · obtain rfl := Option.some.inj hsaved
      have hx : x ∈ [1, 2] := hx
      have hle : x ≤ 2 := by
        simp at hx
        omega
      exact .inr ⟨.log ⟨0, "line", 1, none, none, 0, none, []⟩,
        ⟨0, _, rfl, List.mem_singleton_self _⟩, hle⟩
    · simp [pushRun, NewestKept]
  · refine Run.along_append.mpr ⟨Run.along_append.mpr ⟨noWrap_pushRun (by decide), ?_⟩, trivial,
      noWrap_pushRun (by decide)⟩
    simp [saveRun, NoWrap]

/-- **A restart after a reset.** The token 2 is out, no entry is left, and the counter restarts at
1. -/
theorem reset_then_restart :
    ¬ Run.Along Host.step ReseedsAbove (start : Host VecRodeo ℕ ℤ)
      (pushRun ++ clearRun ++ saveRun ++ [.restart (IterOrder.ascending ℕ)]) := by
  intro h
  have hseed : 2 ≤ 1 := (Run.along_append.mp h).2.1 _ rfl 2 (by decide)
  omega

end Host

end Aniani
