import Aniani.ForMathlib.AtomicReplace
import Aniani.Server.Sequence
import Mathlib.Data.List.Perm.Basic

/-!
# The snapshot file

A `Host` writes a snapshot in one step. The program takes the write lock and makes seven calls, each
of which can fail, and its process can be killed between any two of them. Here the host has the file
under `aniani.snap`, the file under `aniani.snap.tmp` and the save that holds the lock. Without a
power loss every run of it is a run of a `Host`: the snapshot is written when the temporary file is
renamed, and a save that fails before that is one that never gets to its last step.

A power loss can bring back an earlier snapshot, since nothing syncs the directory. It is whole all
the same: what a restart reads are clones the saves took.

The stores are turned into bytes by a `Codec`, for the format of the snapshot. A process is always
started with `--restore`: without it the file is not read, and the run is one of a fresh host with
files that are there already.

## Main definitions

* `FileHost`, `FileHappening`, `FileHost.step`
* `FileHost.restarted` — the process that reads the file
* `FileHost.Refines` — a host and the files under it

## Main results

* `FileHost.Refines.step`, `FileHost.refines_host`
* `FileHost.restart_reads_clones` — also after a power loss
* `FileHost.restarted_quietSave` — a save that nothing disturbs is read back
-/

namespace Aniani

open AtomicReplace

/-- A server, the saves that do not have the lock, the files, and the history. -/
structure FileHost (Rodeo Spur F64 : Type) where
  server : Server Rodeo Spur F64
  saves : List (Save Rodeo Spur F64)
  files : AtomicReplace.State (Saved Rodeo Spur F64)
  issued : List ℕ

/-- What happens on a host. A save that does not have the lock is named by its place. -/
inductive FileHappening (F64 : Type) where
  | server (ev : Event F64)
  | checkpoint
  | cloneLogs
  | cloneMetrics (j : ℕ)
  | cloneTraces (j : ℕ)
  /-- `SNAPSHOT_WRITE_LOCK.lock()`. -/
  | lock (j : ℕ)
  /-- The next call of the save that holds the lock. -/
  | call (outcome : Outcome)
  /-- The power fails, and the process is started with `--restore`. No other start is modelled. -/
  | powerLoss (k : ℕ) (garbage : List UInt8) (tmp : Option File) (it : IterOrder ℕ)
  /-- The process ends, and is started with `--restore`. No other start is modelled. -/
  | restart (it : IterOrder ℕ)

/-- Not a power loss. -/
def FileHappening.PowerOn {F64 : Type} : FileHappening F64 → Prop
  | .powerLoss _ _ _ _ => False
  | _ => True

namespace FileHost

variable {Rodeo Spur F64 : Type} [LinearOrder Spur] [Interner Rodeo Spur]

omit [LinearOrder Spur] in
/-- A fresh host. -/
def start : FileHost Rodeo Spur F64 := ⟨Server.start, [], AtomicReplace.start, []⟩

/-- The process `main` starts from the file. A snapshot that cannot be read is no snapshot. -/
def restarted (codec : Codec (Stores Rodeo Spur F64)) (f : FileHost Rodeo Spur F64)
    (it : IterOrder ℕ) : Server Rodeo Spur F64 :=
  match load codec f.files.dir with
  | .value stores => ⟨AppState.seeded (stores.restore it), []⟩
  | .missing | .corrupt => Server.start

variable [Float64 F64] [SerdeJson F64] (codec : Codec (Stores Rodeo Spur F64))

omit [LinearOrder Spur] [Interner Rodeo Spur] [Float64 F64] [SerdeJson F64] in
/-- What happens to the files, and to nothing else. -/
def onFiles (f : FileHost Rodeo Spur F64) (ev : AtomicReplace.Event (Saved Rodeo Spur F64)) :
    FileHost Rodeo Spur F64 :=
  { f with files := AtomicReplace.step codec Saved.stores f.files ev }

omit [Float64 F64] [SerdeJson F64] in
/-- A process that was not asked is gone, and the next one reads the file. -/
def reboot (f : FileHost Rodeo Spur F64) (it : IterOrder ℕ) : FileHost Rodeo Spur F64 :=
  { f with server := f.restarted codec it, saves := [] }

/-- One happening. -/
def step (f : FileHost Rodeo Spur F64) : FileHappening F64 → FileHost Rodeo Spur F64
  | .server ev =>
    { f with
      server := f.server.step ev
      issued := f.issued ++ (f.server.handsOut ev).toList }
  | .checkpoint => { f with issued := f.issued ++ [f.server.markCheckpoint] }
  | .cloneLogs =>
    { f with saves := f.saves ++ [⟨f.server.state.logStore, none, none, f.issued⟩] }
  | .cloneMetrics j =>
    { f with saves := f.saves.modify j fun save =>
        { save with metricStore := some f.server.state.metricStore } }
  | .cloneTraces j =>
    { f with saves := f.saves.modify j fun save =>
        { save with traceStore := some f.server.state.traceStore } }
  | .lock j =>
    match f.files.writer, f.saves[j]? with
    | none, some save =>
      match save.stores? with
      | none => f
      | some stores =>
        { (f.onFiles codec (.lock ⟨stores, save.issued⟩)) with saves := f.saves.eraseIdx j }
    | _, _ => f
  | .call outcome => f.onFiles codec (.io outcome)
  | .powerLoss k garbage tmp it =>
    (f.onFiles codec (.powerLoss k garbage tmp)).reboot codec it
  | .restart it => (f.onFiles codec .kill).reboot codec it

end FileHost

/-! ### A host and the files under it -/

/-- Changing one element of a list changes one element of a rearrangement of it, and of what it is a
part of. -/
theorem exists_modify_perm {α : Type*} {l₁ l₂ rest : List α} (h : l₁.Perm (l₂ ++ rest)) (j : ℕ)
    (f : α → α) : ∃ j', (l₁.modify j' f).Perm (l₂.modify j f ++ rest) := by
  by_cases hj : j < l₂.length
  · have hmodify : ∀ {l : List α} {i : ℕ} (hi : i < l.length),
        (l.modify i f).Perm (f l[i] :: l.eraseIdx i) := by
      intro l i hi
      rw [List.eraseIdx_eq_take_drop_succ, List.modify_eq_take_cons_drop hi]
      exact List.perm_middle
    have hmem : l₂[j] ∈ l₁ := h.mem_iff.mpr (List.mem_append_left _ (List.getElem_mem hj))
    obtain ⟨j', hj', heq⟩ := List.getElem_of_mem hmem
    have h₁ := List.getElem_cons_eraseIdx_perm hj'
    have h₂ := (List.getElem_cons_eraseIdx_perm hj).append_right rest
    rw [heq] at h₁
    have herase : (l₁.eraseIdx j').Perm (l₂.eraseIdx j ++ rest) :=
      (h₁.trans (h.trans h₂.symm)).cons_inv
    refine ⟨j', (hmodify hj').trans (.trans ?_ ((hmodify hj).append_right rest).symm)⟩
    rw [heq]
    exact herase.cons _
  · refine ⟨l₁.length, ?_⟩
    rwa [List.modify_eq_self le_rfl, List.modify_eq_self (not_lt.mp hj)]

namespace FileHost

variable {Rodeo Spur F64 : Type} [LinearOrder Spur] [Interner Rodeo Spur]
  {codec : Codec (Stores Rodeo Spur F64)}

/-- The save of a writer is one of these. -/
def IsSaveOf (rest : List (Save Rodeo Spur F64)) (w : Writer (Saved Rodeo Spur F64)) : Prop :=
  ∃ save ∈ rest, save.stores? = some w.payload.stores ∧ save.issued = w.payload.issued

/-- **A host and the files under it.** The saves of the host are those that do not have the lock,
the one that has it, until it is published, and those that failed. -/
structure Refines (codec : Codec (Stores Rodeo Spur F64)) (f : FileHost Rodeo Spur F64)
    (h : Host Rodeo Spur F64) : Prop where
  server : f.server = h.server
  issued : f.issued = h.issued
  saves : ∃ rest, h.saves.Perm (f.saves ++ rest) ∧
    ∀ w ∈ f.files.writer, w.Pending → IsSaveOf rest w
  disk : h.disk = f.files.published.getLast?
  latest : Latest codec Saved.stores f.files

omit [LinearOrder Spur] in
theorem refines_start : Refines codec (start : FileHost Rodeo Spur F64) Host.start where
  server := rfl
  issued := rfl
  saves := ⟨[], .nil, fun w hw => by simp [start, AtomicReplace.start] at hw⟩
  disk := rfl
  latest := latest_start

/-- A restart of either reads the same stores. -/
theorem Refines.restarted {f : FileHost Rodeo Spur F64} {h : Host Rodeo Spur F64}
    (hr : f.Refines codec h) (it : IterOrder ℕ) : f.restarted codec it = h.restarted it := by
  rw [FileHost.restarted, Host.restarted, hr.latest.load, hr.disk]
  cases f.files.published.getLast? <;> rfl

variable [Float64 F64] [SerdeJson F64]

/-- **Each happening of the files is one of the host, or none.** -/
theorem Refines.step {f : FileHost Rodeo Spur F64} {h : Host Rodeo Spur F64}
    (hr : f.Refines codec h) {ev : FileHappening F64} (hon : ev.PowerOn) :
    ∃ happenings, (f.step codec ev).Refines codec (Run.exec Host.step h happenings) := by
  obtain ⟨rest, hperm, hwriter⟩ := hr.saves
  cases ev with
  | server ev =>
    refine ⟨[.server ev], ?_, ?_, ⟨rest, hperm, hwriter⟩, hr.disk, hr.latest⟩
    · show f.server.step ev = h.server.step ev
      rw [hr.server]
    · show f.issued ++ _ = h.issued ++ _
      rw [hr.issued, hr.server]
  | checkpoint =>
    refine ⟨[.checkpoint], hr.server, ?_, ⟨rest, hperm, hwriter⟩, hr.disk, hr.latest⟩
    show f.issued ++ _ = h.issued ++ _
    rw [hr.issued, hr.server]
  | cloneLogs =>
    refine ⟨[.cloneLogs], hr.server, hr.issued, ⟨rest, ?_, hwriter⟩, hr.disk, hr.latest⟩
    show (h.saves ++ [_]).Perm (f.saves ++ [_] ++ rest)
    rw [hr.server, hr.issued, List.append_assoc]
    refine (hperm.append_right _).trans ?_
    rw [List.append_assoc]
    exact (List.perm_append_comm).append_left _
  | cloneMetrics j =>
    obtain ⟨j', hj'⟩ := exists_modify_perm hperm j fun save =>
      { save with metricStore := some f.server.state.metricStore }
    refine ⟨[.cloneMetrics j'], hr.server, hr.issued, ⟨rest, ?_, hwriter⟩, hr.disk, hr.latest⟩
    rw [hr.server] at hj'
    show (h.saves.modify j' _).Perm (f.saves.modify j _ ++ rest)
    rw [hr.server]
    exact hj'
  | cloneTraces j =>
    obtain ⟨j', hj'⟩ := exists_modify_perm hperm j fun save =>
      { save with traceStore := some f.server.state.traceStore }
    refine ⟨[.cloneTraces j'], hr.server, hr.issued, ⟨rest, ?_, hwriter⟩, hr.disk, hr.latest⟩
    rw [hr.server] at hj'
    show (h.saves.modify j' _).Perm (f.saves.modify j _ ++ rest)
    rw [hr.server]
    exact hj'
  | lock j =>
    refine ⟨[], ?_⟩
    rw [FileHost.step]
    split
    · next save hfree hsave =>
      split
      · exact hr
      · next stores hstores =>
        obtain ⟨hj, rfl⟩ := List.getElem?_eq_some_iff.mp hsave
        have hlatest := hr.latest.step (.lock ⟨stores, f.saves[j].issued⟩) trivial
        have hfiles : AtomicReplace.step codec Saved.stores f.files
            (.lock ⟨stores, f.saves[j].issued⟩) =
            { f.files with writer := some ⟨⟨stores, f.saves[j].issued⟩, .createDir⟩ } := by
          rw [AtomicReplace.step, hfree]
        refine ⟨hr.server, hr.issued, ⟨f.saves[j] :: rest, ?_, fun w hw _ => ?_⟩, ?_, hlatest⟩
        · refine hperm.trans ?_
          show (f.saves ++ rest).Perm (f.saves.eraseIdx j ++ f.saves[j] :: rest)
          refine ((List.getElem_cons_eraseIdx_perm hj).symm.append_right rest).trans ?_
          exact (List.perm_middle).symm
        · rw [onFiles, hfiles] at hw
          obtain rfl := Option.some.inj hw
          exact ⟨f.saves[j], List.mem_cons_self, hstores, rfl⟩
        · rw [onFiles, hfiles]
          exact hr.disk
    · exact hr
  | call outcome =>
    have hlatest := hr.latest.step (.io outcome) trivial
    cases hw : f.files.writer with
    | none =>
      have hfiles : AtomicReplace.step codec Saved.stores f.files (.io outcome) = f.files := by
        rw [AtomicReplace.step, hw]
      refine ⟨[], ?_⟩
      rw [FileHost.step, onFiles, hfiles]
      exact hr
    | some w =>
      have hfiles : AtomicReplace.step codec Saved.stores f.files (.io outcome) =
          io codec Saved.stores f.files w outcome := by
        rw [AtomicReplace.step, hw]
      rw [hfiles] at hlatest
      rw [FileHost.step, onFiles, hfiles]
      rcases io_cases (hr.latest.ready w hw) outcome with
        ⟨tmp, heq⟩ | ⟨hpending, ⟨tmp, phase, heq, -⟩ | ⟨file, bytes, heq, -⟩⟩
      · rw [heq] at hlatest ⊢
        exact ⟨[], hr.server, hr.issued,
          ⟨rest, hperm, fun w' hw' => by simp [State.release] at hw'⟩, hr.disk, hlatest⟩
      · rw [heq] at hlatest ⊢
        refine ⟨[], hr.server, hr.issued, ⟨rest, hperm, fun w' hw' _ => ?_⟩, hr.disk, hlatest⟩
        obtain rfl := Option.some.inj hw'
        exact hwriter w hw hpending
      -- the temporary file is renamed, and the host writes the snapshot
      · rw [heq] at hlatest ⊢
        obtain ⟨save, hsave, hstores, hissued⟩ := hwriter w hw hpending
        have hmem : save ∈ h.saves := hperm.mem_iff.mpr (List.mem_append_right _ hsave)
        obtain ⟨j, hj, rfl⟩ := List.getElem_of_mem hmem
        obtain ⟨before, after, rfl⟩ := List.append_of_mem hsave
        have hstep : h.step (.write j) =
            { h with saves := h.saves.eraseIdx j, disk := some w.payload } := by
          simp only [Host.step, List.getElem?_eq_getElem hj, hstores, hissued]
        refine ⟨[.write j], ?_⟩
        rw [Run.exec_cons, Run.exec_nil, hstep]
        refine ⟨hr.server, hr.issued, ⟨before ++ after, ?_, fun w' hw' hpend => ?_⟩, ?_, hlatest⟩
        · refine List.Perm.cons_inv (a := h.saves[j])
            ((List.getElem_cons_eraseIdx_perm hj).trans (hperm.trans ?_))
          rw [← List.append_assoc]
          exact List.perm_middle.trans (by rw [List.append_assoc])
        · obtain rfl := Option.some.inj hw'
          exact absurd rfl (hpend bytes)
        · show some w.payload = (f.files.published ++ [w.payload]).getLast?
          rw [List.getLast?_concat]
  | powerLoss k garbage tmp it => exact absurd hon id
  | restart it =>
    refine ⟨[.restart it], ?_, hr.issued, ⟨[], .nil, fun w hw => ?_⟩, hr.disk,
      hr.latest.step .kill trivial⟩
    · show f.restarted codec it = h.restarted it
      exact hr.restarted it
    · simp [FileHost.step, reboot, onFiles, AtomicReplace.step, State.release] at hw

/-- **Writing the snapshot is one step**, for all that happens to the server and all that a restart
can read: whatever fails, and wherever the process is killed. -/
theorem refines_host (codec : Codec (Stores Rodeo Spur F64)) (events : List (FileHappening F64))
    (hon : ∀ ev ∈ events, ev.PowerOn) :
    let f : FileHost Rodeo Spur F64 := Run.exec (step codec) start events
    ∃ happenings, let h : Host Rodeo Spur F64 := Run.exec Host.step Host.start happenings
      f.server = h.server ∧ f.issued = h.issued ∧
        ∀ it, f.restarted codec it = h.restarted it := by
  intro f
  obtain ⟨happenings, hr⟩ := Run.exists_exec_of_simulation
    (C := fun _ ev => FileHappening.PowerOn ev) (R := Refines codec)
    (fun f h ev hon hr => hr.step hon) refines_start (Run.along_of_forall_mem hon)
  exact ⟨happenings, hr.server, hr.issued, hr.restarted⟩

open Classical in
/-- A format that has bytes for one value of the stores. -/
noncomputable def codecOf (saved : Stores VecRodeo ℕ ℤ) : Codec (Stores VecRodeo ℕ ℤ) where
  serialize stores := if stores = saved then some [0] else none
  deserialize bytes := if bytes = [0] then some saved else none
  deserialize_serialize {stores bytes} h := by
    split at h
    · next hstores =>
      obtain rfl := Option.some.inj h
      rw [if_pos rfl, hstores]
    · simp at h

theorem serialize_codecOf (saved : Stores VecRodeo ℕ ℤ) :
    (codecOf saved).serialize saved = some [0] :=
  if_pos rfl

/-- A format that has bytes for empty stores. -/
noncomputable def emptyCodec : Codec (Stores VecRodeo ℕ ℤ) := codecOf Stores.new

/-- A save that fails while it writes, one that is published, and a restart. -/
def savedTwice : List (FileHappening ℤ) :=
  let save := [.cloneLogs, .cloneMetrics 0, .cloneTraces 0, .lock 0] ++
    List.replicate 4 (.call .ok)
  save ++ [.call (.error 0)] ++ save ++ List.replicate 4 (.call .ok) ++
    [.restart (IterOrder.ascending ℕ)]

theorem refines_host_savedTwice :
    let f : FileHost VecRodeo ℕ ℤ := Run.exec (step emptyCodec) start savedTwice
    ∃ happenings, let h : Host VecRodeo ℕ ℤ := Run.exec Host.step Host.start happenings
      f.server = h.server ∧ f.issued = h.issued ∧
        ∀ it, f.restarted emptyCodec it = h.restarted it :=
  refines_host emptyCodec savedTwice (by simp [savedTwice, FileHappening.PowerOn])

/-! ### What a restart reads -/

/-- The host after a list of happenings. -/
def after (codec : Codec (Stores Rodeo Spur F64)) (events : List (FileHappening F64)) :
    FileHost Rodeo Spur F64 :=
  Run.exec (step codec) start events

theorem after_concat (events : List (FileHappening F64)) (ev : FileHappening F64) :
    after codec (events ++ [ev]) = (after codec events).step codec ev := by
  rw [after, Run.exec_append]
  rfl

/-- A metric store is the one of the server at some point from `before` on. -/
def MetricsFrom (codec : Codec (Stores Rodeo Spur F64)) (before events : List (FileHappening F64))
    (metricStore : MetricStore Rodeo Spur F64) : Prop :=
  ∃ b, before <+: b ∧ b <+: events ∧ metricStore = (after codec b).server.state.metricStore

/-- A trace store is the one of the server at some point from `before` on. -/
def TracesFrom (codec : Codec (Stores Rodeo Spur F64)) (before events : List (FileHappening F64))
    (traceStore : TraceStore Rodeo Spur F64) : Prop :=
  ∃ b, before <+: b ∧ b <+: events ∧ traceStore = (after codec b).server.state.traceStore

/-- A save has cloned stores of the server, the log store first. -/
def ClonedBy (codec : Codec (Stores Rodeo Spur F64)) (events : List (FileHappening F64))
    (save : Save Rodeo Spur F64) : Prop :=
  ∃ before, before <+: events ∧ save.logStore = (after codec before).server.state.logStore ∧
    (∀ metricStore ∈ save.metricStore, MetricsFrom codec before events metricStore) ∧
    ∀ traceStore ∈ save.traceStore, TracesFrom codec before events traceStore

/-- **Three stores the server had**, the log store no later than the others. -/
def WereStores (codec : Codec (Stores Rodeo Spur F64)) (events : List (FileHappening F64))
    (stores : Stores Rodeo Spur F64) : Prop :=
  ∃ before, before <+: events ∧ stores.logStore = (after codec before).server.state.logStore ∧
    MetricsFrom codec before events stores.metricStore ∧
    TracesFrom codec before events stores.traceStore

theorem WereStores.mono {events events' : List (FileHappening F64)}
    {stores : Stores Rodeo Spur F64} (h : WereStores codec events stores)
    (hle : events <+: events') : WereStores codec events' stores := by
  obtain ⟨before, hbefore, hlogs, ⟨b, hb, hb', hm⟩, ⟨c, hc, hc', ht⟩⟩ := h
  exact ⟨before, hbefore.trans hle, hlogs, ⟨b, hb, hb'.trans hle, hm⟩,
    ⟨c, hc, hc'.trans hle, ht⟩⟩

theorem ClonedBy.mono {events events' : List (FileHappening F64)} {save : Save Rodeo Spur F64}
    (h : ClonedBy codec events save) (hle : events <+: events') :
    ClonedBy codec events' save := by
  obtain ⟨before, hbefore, hlogs, hmetrics, htraces⟩ := h
  refine ⟨before, hbefore.trans hle, hlogs, fun m hm => ?_, fun t ht => ?_⟩
  · obtain ⟨b, hb, hb', heq⟩ := hmetrics m hm
    exact ⟨b, hb, hb'.trans hle, heq⟩
  · obtain ⟨b, hb, hb', heq⟩ := htraces t ht
    exact ⟨b, hb, hb'.trans hle, heq⟩

theorem ClonedBy.wereStores {events : List (FileHappening F64)} {save : Save Rodeo Spur F64}
    {stores : Stores Rodeo Spur F64} (h : ClonedBy codec events save)
    (hstores : save.stores? = some stores) : WereStores codec events stores := by
  obtain ⟨before, hbefore, hlogs, hmetrics, htraces⟩ := h
  rw [Save.stores?] at hstores
  split at hstores
  · next hm ht =>
    obtain rfl := Option.some.inj hstores
    exact ⟨before, hbefore, hlogs, hmetrics _ hm, htraces _ ht⟩
  · simp at hstores

/-- Where the clones of a host come from. -/
structure Clones (codec : Codec (Stores Rodeo Spur F64)) (events : List (FileHappening F64))
    (f : FileHost Rodeo Spur F64) : Prop where
  saves : ∀ save ∈ f.saves, ClonedBy codec events save
  writer : ∀ w ∈ f.files.writer, WereStores codec events w.payload.stores
  published : ∀ saved ∈ f.files.published, WereStores codec events saved.stores
  safe : Safe codec Saved.stores f.files

theorem Clones.mono {events events' : List (FileHappening F64)} {f : FileHost Rodeo Spur F64}
    (h : f.Clones codec events) (hle : events <+: events') : f.Clones codec events' where
  saves save hsave := (h.saves save hsave).mono hle
  writer w hw := (h.writer w hw).mono hle
  published saved hsaved := (h.published saved hsaved).mono hle
  safe := h.safe

/-- What happens to the files brings no stores but those of the writer. -/
theorem Clones.io {events : List (FileHappening F64)} {f : FileHost Rodeo Spur F64}
    (h : f.Clones codec events) (outcome : Outcome) :
    (f.onFiles codec (.io outcome)).Clones codec events := by
  have hsafe := h.safe.step (.io outcome)
  cases hw : f.files.writer with
  | none =>
    have hfiles : AtomicReplace.step codec Saved.stores f.files (.io outcome) = f.files := by
      rw [AtomicReplace.step, hw]
    rw [onFiles, hfiles]
    exact h
  | some w =>
    have hfiles : AtomicReplace.step codec Saved.stores f.files (.io outcome) =
        AtomicReplace.io codec Saved.stores f.files w outcome := by
      rw [AtomicReplace.step, hw]
    rw [hfiles] at hsafe
    rw [onFiles, hfiles]
    have hwriter := h.writer w hw
    rcases io_cases (h.safe.ready w hw) outcome with
      ⟨tmp, heq⟩ | ⟨-, ⟨tmp, phase, heq, -⟩ | ⟨file, bytes, heq, -⟩⟩ <;>
      rw [heq] at hsafe ⊢
    · exact ⟨h.saves, fun w' hw' => by simp [State.release] at hw', h.published, hsafe⟩
    · exact ⟨h.saves, fun w' hw' => Option.some.inj hw' ▸ hwriter, h.published, hsafe⟩
    · refine ⟨h.saves, fun w' hw' => Option.some.inj hw' ▸ hwriter, fun saved hsaved => ?_, hsafe⟩
      rcases List.mem_append.mp hsaved with hold | hnew
      · exact h.published saved hold
      · exact List.mem_singleton.mp hnew ▸ hwriter

/-- **Every clone is a store the server had.** -/
theorem clones_after (codec : Codec (Stores Rodeo Spur F64)) (events : List (FileHappening F64)) :
    (after codec events).Clones codec events := by
  induction events using List.reverseRecOn with
  | nil => exact ⟨fun _ h => by simp [after, start] at h,
      fun _ h => by simp [after, start, AtomicReplace.start] at h,
      fun _ h => by simp [after, start, AtomicReplace.start] at h, safe_start⟩
  | append_singleton events ev ih =>
    have hle : events <+: events ++ [ev] := List.prefix_append _ _
    have h := ih.mono hle
    rw [after_concat]
    cases ev with
    | server ev => exact ⟨h.saves, h.writer, h.published, h.safe⟩
    | checkpoint => exact ⟨h.saves, h.writer, h.published, h.safe⟩
    | cloneLogs =>
      refine ⟨fun save hsave => ?_, h.writer, h.published, h.safe⟩
      rcases List.mem_append.mp hsave with hold | hnew
      · exact h.saves save hold
      · obtain rfl := List.mem_singleton.mp hnew
        exact ⟨events, hle, rfl, fun _ hm => by simp at hm, fun _ ht => by simp at ht⟩
    | cloneMetrics j =>
      have hnow : Clones codec events ((after codec events).step codec (.cloneMetrics j)) := by
        refine ⟨Host.mem_modify ih.saves ?_, ih.writer, ih.published, ih.safe⟩
        rintro save ⟨before, hbefore, hlogs, -, htraces⟩
        refine ⟨before, hbefore, hlogs, fun m hm => ?_, htraces⟩
        exact ⟨events, hbefore, List.prefix_rfl, (Option.some.inj hm).symm⟩
      exact hnow.mono hle
    | cloneTraces j =>
      have hnow : Clones codec events ((after codec events).step codec (.cloneTraces j)) := by
        refine ⟨Host.mem_modify ih.saves ?_, ih.writer, ih.published, ih.safe⟩
        rintro save ⟨before, hbefore, hlogs, hmetrics, -⟩
        refine ⟨before, hbefore, hlogs, hmetrics, fun t ht => ?_⟩
        exact ⟨events, hbefore, List.prefix_rfl, (Option.some.inj ht).symm⟩
      exact hnow.mono hle
    | lock j =>
      rw [step]
      split
      · next save hfree hsave =>
        split
        · exact h
        · next stores hstores =>
          refine ⟨fun save' hsave' => h.saves save' (List.mem_of_mem_eraseIdx hsave'),
            fun w hw => ?_, ?_, h.safe.step (.lock ⟨stores, save.issued⟩)⟩
          · simp only [onFiles, AtomicReplace.step, hfree] at hw
            obtain rfl := Option.some.inj hw
            exact (h.saves save (List.mem_of_getElem? hsave)).wereStores hstores
          · simp only [onFiles, AtomicReplace.step, hfree]
            exact h.published
      · exact h
    | call outcome => exact h.io outcome
    | powerLoss k garbage tmp it =>
      exact ⟨fun _ hs => by simp [step, reboot] at hs,
        fun _ hw => by simp [step, reboot, onFiles, AtomicReplace.step] at hw, h.published,
        h.safe.step (.powerLoss k garbage tmp)⟩
    | restart it =>
      exact ⟨fun _ hs => by simp [step, reboot] at hs,
        fun _ hw => by simp [step, reboot, onFiles, AtomicReplace.step, State.release] at hw,
        h.published, h.safe.step .kill⟩

/-- **A restart reads no snapshot, or a whole one**, after any failures, at whatever point the
process or the power went: three stores the server had. -/
theorem restart_reads_clones (codec : Codec (Stores Rodeo Spur F64))
    (events : List (FileHappening F64)) :
    let f : FileHost Rodeo Spur F64 := Run.exec (step codec) start events
    load codec f.files.dir = .missing ∧ (∀ it, f.restarted codec it = Server.start) ∨
      ∃ stores, WereStores codec events stores ∧ load codec f.files.dir = .value stores ∧
        ∀ it, f.restarted codec it = ⟨AppState.seeded (stores.restore it), []⟩ := by
  intro f
  have h : f.Clones codec events := clones_after codec events
  rcases h.safe.load with ⟨-, hload⟩ | ⟨saved, hsaved, hload⟩
  · exact .inl ⟨hload, fun it => by rw [restarted, hload]⟩
  · exact .inr ⟨saved.stores, h.published saved hsaved, hload, fun it => by rw [restarted, hload]⟩

omit [LinearOrder Spur] [Interner Rodeo Spur] [Float64 F64] [SerdeJson F64] in
/-- A save with nothing beside it, in which no call fails. -/
def quietSave : List (FileHappening F64) :=
  [.cloneLogs, .cloneMetrics 0, .cloneTraces 0, .lock 0] ++ List.replicate 8 (.call .ok)

/-- The calls of the save that holds the lock change the files only. -/
theorem exec_calls (f : FileHost Rodeo Spur F64) (n : ℕ) :
    Run.exec (step codec) f (List.replicate n (.call .ok)) =
      { f with
        files := Run.exec (AtomicReplace.step codec Saved.stores) f.files
          (List.replicate n (.io .ok)) } := by
  induction n generalizing f with
  | zero => rfl
  | succ n ih =>
    rw [List.replicate_succ, List.replicate_succ, Run.exec_cons, Run.exec_cons, ih]
    rfl

theorem server_restart (f : FileHost Rodeo Spur F64) (it : IterOrder ℕ) :
    (f.step codec (.restart it)).server = f.restarted codec it := rfl

/-- **A save that nothing disturbs is read back.** -/
theorem restarted_quietSave {f : FileHost Rodeo Spur F64} (hsaves : f.saves = [])
    (hfree : f.files.writer = none) {bytes : List UInt8}
    (hbytes : codec.serialize f.server.state.toStores = some bytes) (it : IterOrder ℕ) :
    (Run.exec (step codec) f quietSave).restarted codec it =
      ⟨AppState.seeded (f.server.state.toStores.restore it), []⟩ := by
  obtain ⟨server, saves, ⟨dir, writer, published⟩, issued⟩ := f
  obtain rfl : saves = [] := hsaves
  obtain rfl : writer = none := hfree
  let locked : FileHost Rodeo Spur F64 :=
    ⟨server, [], ⟨dir, some ⟨⟨server.state.toStores, issued⟩, .createDir⟩, published⟩, issued⟩
  have hlocked : Run.exec (step codec) ⟨server, [], ⟨dir, none, published⟩, issued⟩ quietSave =
      Run.exec (step codec) locked (List.replicate 8 (.call .ok)) := rfl
  have hfiles : Run.exec (AtomicReplace.step codec Saved.stores) locked.files
      (List.replicate 8 (.io .ok)) =
        ⟨⟨none, some ⟨bytes, true⟩, dir.final :: dir.stale⟩, none,
          published ++ [⟨server.state.toStores, issued⟩]⟩ := exec_ok rfl hbytes
  rw [hlocked, exec_calls, hfiles, restarted, load]
  simp only [codec.deserialize_serialize hbytes]

end FileHost

end Aniani
