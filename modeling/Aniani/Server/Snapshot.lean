import Aniani.Server.Numbers

/-!
# Snapshots and restarts

A snapshot is saved in four steps: the three stores are cloned one after another, each under its own
lock, and the clones are written to disk with no lock held. Saves are triggered from four places, so
several can be under way, and the server goes on between their steps. The counter is in none of the
clones: a restart reads the stores back and seeds it from the highest number it finds there.

The numbers and tokens handed out, `issued`, are a history on the side, which no step reads.

## Main definitions

* `Save`, `Saved` — a save under way, and the file on disk
* `Host`, `Happening`, `Host.step`

## Main results

* `Stores.holds_restore`
* `Save.holds_of_stores?`
-/

namespace Aniani

/-! ### Saves -/

/-- A save under way: what it has cloned, and what had been handed out when it began. -/
structure Save (Rodeo Spur F64 : Type) where
  logStore : LogStore Rodeo Spur F64
  metricStore : Option (MetricStore Rodeo Spur F64)
  traceStore : Option (TraceStore Rodeo Spur F64)
  issued : List ℕ

/-- The file on disk, and what had been handed out when its save began. -/
structure Saved (Rodeo Spur F64 : Type) where
  stores : Stores Rodeo Spur F64
  issued : List ℕ

namespace Save

variable {Rodeo Spur F64 : Type}

/-- The clones, once there are three. -/
def stores? (save : Save Rodeo Spur F64) : Option (Stores Rodeo Spur F64) :=
  match save.metricStore, save.traceStore with
  | some metricStore, some traceStore => some ⟨save.logStore, metricStore, traceStore⟩
  | _, _ => none

/-- An entry is in a clone. -/
def Holds (save : Save Rodeo Spur F64) : Entry Spur F64 → Prop
  | .log e => save.logStore.Holds e
  | .sample e => ∃ metricStore ∈ save.metricStore, metricStore.Holds e
  | .span e => ∃ traceStore ∈ save.traceStore, traceStore.Holds e

theorem holds_of_stores? {save : Save Rodeo Spur F64} {stores : Stores Rodeo Spur F64}
    (h : save.stores? = some stores) {e : Entry Spur F64} (he : stores.Holds e) :
    save.Holds e := by
  rw [stores?] at h
  split at h
  · next hm ht =>
    obtain rfl := Option.some.inj h
    cases e with
    | log e => exact he
    | sample e => exact ⟨_, hm, he⟩
    | span e => exact ⟨_, ht, he⟩
  · simp at h

end Save

/-- `load_snapshot`, of what was read back. -/
def Stores.restore {Rodeo Spur F64 : Type} [LinearOrder Spur] (it : IterOrder ℕ)
    (s : Stores Rodeo Spur F64) : Stores Rodeo Spur F64 where
  logStore := s.logStore.rebuildStreamIds it
  metricStore := s.metricStore.rebuildSeriesIds it
  traceStore := s.traceStore

/-- The number restored entries carry is the one they had. -/
theorem Stores.holds_restore {Rodeo Spur F64 : Type} [LinearOrder Spur] (it : IterOrder ℕ)
    (s : Stores Rodeo Spur F64) (e : Entry Spur F64) : (s.restore it).Holds e ↔ s.Holds e := by
  have hlogs := (LabelStore.rebuildStreamIds_frame it s.logStore.toLabelStore).1
  have hmetrics := (LabelStore.rebuildStreamIds_frame it s.metricStore.toLabelStore).1
  cases e with
  | log e => exact ⟨fun h => h.congr hlogs, fun h => h.congr hlogs.symm⟩
  | sample e => exact ⟨fun h => h.congr hmetrics, fun h => h.congr hmetrics.symm⟩
  | span e => exact Iff.rfl

/-! ### The host -/

/-- A server, the saves it has under way, the file on disk, and the history. -/
structure Host (Rodeo Spur F64 : Type) where
  server : Server Rodeo Spur F64
  saves : List (Save Rodeo Spur F64)
  disk : Option (Saved Rodeo Spur F64)
  issued : List ℕ

/-- What happens on a host. A save under way is named by its place. -/
inductive Happening (F64 : Type) where
  | server (ev : Event F64)
  /-- `mark_checkpoint`, and the last step of a `reset`. -/
  | checkpoint
  | cloneLogs
  | cloneMetrics (j : ℕ)
  | cloneTraces (j : ℕ)
  | write (j : ℕ)
  /-- The process ends, and is started with `--restore`. -/
  | restart (it : IterOrder ℕ)

namespace Host

variable {Rodeo Spur F64 : Type} [LinearOrder Spur] [Interner Rodeo Spur] [Float64 F64]
  [SerdeJson F64]

omit [LinearOrder Spur] [Float64 F64] [SerdeJson F64] in
/-- A fresh host. -/
def start : Host Rodeo Spur F64 := ⟨Server.start, [], none, []⟩

omit [Float64 F64] [SerdeJson F64] in
/-- The process `main` starts from the file on disk. -/
def restarted (h : Host Rodeo Spur F64) (it : IterOrder ℕ) : Server Rodeo Spur F64 :=
  match h.disk with
  | some saved => ⟨AppState.seeded (saved.stores.restore it), []⟩
  | none => Server.start

/-- One happening. -/
def step (h : Host Rodeo Spur F64) : Happening F64 → Host Rodeo Spur F64
  | .server ev =>
    { h with
      server := h.server.step ev
      issued := h.issued ++ (h.server.handsOut ev).toList }
  | .checkpoint => { h with issued := h.issued ++ [h.server.markCheckpoint] }
  | .cloneLogs =>
    { h with saves := h.saves ++ [⟨h.server.state.logStore, none, none, h.issued⟩] }
  | .cloneMetrics j =>
    { h with saves := h.saves.modify j fun save =>
        { save with metricStore := some h.server.state.metricStore } }
  | .cloneTraces j =>
    { h with saves := h.saves.modify j fun save =>
        { save with traceStore := some h.server.state.traceStore } }
  | .write j =>
    match h.saves[j]? with
    | none => h
    | some save =>
      match save.stores? with
      | none => h
      | some stores => { h with saves := h.saves.eraseIdx j, disk := some ⟨stores, save.issued⟩ }
  | .restart it => { h with server := h.restarted it, saves := [] }

end Host

end Aniani
