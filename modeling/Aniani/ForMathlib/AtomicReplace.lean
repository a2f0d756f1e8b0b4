import Aniani.ForMathlib.Run

/-!
# Replacing a file through a temporary one

Under a lock, a writer removes a left-over temporary file, creates it anew, writes its bytes, syncs
it and renames it onto the final name. Any of these calls can fail, a write after part of its bytes,
and the process can be killed between any two of them. A power loss is worse: it leaves anything in
a file that was not synced, and, since nothing syncs the directory, it may bring back an earlier
file under the final name.

The bytes stand for a value of a type `β`, and what is written is the content of an `α`, which may
carry more than is written. The list `published` of what was renamed is a history on the side.

## Main definitions

* `AtomicReplace.Codec` — values as bytes
* `AtomicReplace.Dir`, `AtomicReplace.Writer`, `AtomicReplace.State`
* `AtomicReplace.io`, `AtomicReplace.step`
* `AtomicReplace.load` — what is read from the final name

## Main results

* `AtomicReplace.Safe.step` — every file under the final name is whole
* `AtomicReplace.load_exec` — so what is read was published
* `AtomicReplace.exec_ok` — a save in which no call fails is published
* `AtomicReplace.Latest.step`, `AtomicReplace.Latest.load` — it is the latest, if the power stays on
-/

namespace AtomicReplace

/-! ### Files -/

/-- Values as bytes. Not every value need have any. -/
structure Codec (β : Type*) where
  serialize : β → Option (List UInt8)
  deserialize : List UInt8 → Option β
  deserialize_serialize : ∀ {b bytes}, serialize b = some bytes → deserialize bytes = some b

/-- The bytes of a file, and whether they have reached the device. -/
structure File where
  bytes : List UInt8
  synced : Bool

/-- The two names of a directory. The files once under the final name may come back. -/
structure Dir where
  tmp : Option File
  final : Option File
  stale : List (Option File)

/-- The next call of the writer that holds the lock. -/
inductive Phase where
  | createDir
  | serialize
  | removeTmp (bytes : List UInt8)
  | createTmp (bytes : List UInt8)
  | writeAll (bytes : List UInt8)
  | syncAll (bytes : List UInt8)
  | rename (bytes : List UInt8)
  | done (bytes : List UInt8)

/-- The writer that holds the lock. -/
structure Writer (α : Type*) where
  payload : α
  phase : Phase

/-- How a call ends. A write that fails may have written some bytes. -/
inductive Outcome where
  | ok
  | error (written : ℕ)

/-- The directory, the writer and the history. -/
structure State (α : Type*) where
  dir : Dir
  writer : Option (Writer α)
  published : List α

/-- What can happen to the files. -/
inductive Event (α : Type*) where
  | lock (payload : α)
  | io (outcome : Outcome)
  | kill
  | powerLoss (k : ℕ) (garbage : List UInt8) (tmp : Option File)

section Step

variable {α β : Type*} (codec : Codec β) (content : α → β)

/-- An empty directory. -/
def start : State α := ⟨⟨none, none, []⟩, none, []⟩

/-- The lock is given back, with or without an error. -/
def State.release (s : State α) : State α := { s with writer := none }

/-- The writer goes on to its next call. -/
def State.goOn (s : State α) (w : Writer α) (phase : Phase) : State α :=
  { s with writer := some { w with phase := phase } }

/-- The temporary file is what it is now. -/
def State.setTmp (s : State α) (tmp : Option File) : State α :=
  { s with dir := { s.dir with tmp := tmp } }

/-- The temporary file takes the final name. -/
def State.publish (s : State α) (w : Writer α) (file : File) : State α :=
  { s with
    dir := ⟨none, some file, s.dir.final :: s.dir.stale⟩
    published := s.published ++ [w.payload] }

/-- The next call of the writer `w`. -/
def io (s : State α) (w : Writer α) : Outcome → State α
  | .ok =>
    match w.phase with
    | .createDir => s.goOn w .serialize
    | .serialize =>
      match codec.serialize (content w.payload) with
      | none => s.release
      | some bytes => s.goOn w (.removeTmp bytes)
    -- a temporary file that is not there is no error
    | .removeTmp bytes => (s.setTmp none).goOn w (.createTmp bytes)
    | .createTmp bytes =>
      match s.dir.tmp with
      | some _ => s.release
      | none => (s.setTmp (some ⟨[], false⟩)).goOn w (.writeAll bytes)
    | .writeAll bytes =>
      (s.setTmp (s.dir.tmp.map fun file => ⟨file.bytes ++ bytes, false⟩)).goOn w (.syncAll bytes)
    | .syncAll bytes =>
      (s.setTmp (s.dir.tmp.map fun file => { file with synced := true })).goOn w (.rename bytes)
    | .rename bytes =>
      match s.dir.tmp with
      | none => s.release
      | some file => (s.publish w file).goOn w (.done bytes)
    | .done _ => s.release
  | .error written =>
    match w.phase with
    | .writeAll bytes =>
      (s.setTmp (s.dir.tmp.map fun file => ⟨file.bytes ++ bytes.take written, false⟩)).release
    | _ => s.release

/-- A file after a power loss. -/
def File.survive (garbage : List UInt8) (file : File) : File :=
  if file.synced then file else ⟨garbage, false⟩

/-- One event. A writer waits for the lock while another has it. -/
def step (s : State α) : Event α → State α
  | .lock payload =>
    match s.writer with
    | some _ => s
    | none => { s with writer := some ⟨payload, .createDir⟩ }
  | .io outcome =>
    match s.writer with
    | none => s
    | some w => io codec content s w outcome
  | .kill => s.release
  | .powerLoss k garbage tmp =>
    { s with
      dir := ⟨tmp, ((s.dir.final :: s.dir.stale).getD k s.dir.final).map (File.survive garbage), []⟩
      writer := none }

end Step

/-- What comes of reading the final name. -/
inductive Loaded (β : Type*) where
  | missing
  | corrupt
  | value (b : β)

/-- Read the final name. -/
def load {β : Type*} (codec : Codec β) (dir : Dir) : Loaded β :=
  match dir.final with
  | none => .missing
  | some file =>
    match codec.deserialize file.bytes with
    | none => .corrupt
    | some b => .value b

/-! ### What is under the final name -/

section Invariant

variable {α β : Type*} {codec : Codec β} {content : α → β}

/-- A file holds all the bytes of a value, and they have reached the device. -/
def Whole (codec : Codec β) (content : α → β) (a : α) (file : File) : Prop :=
  file.synced = true ∧ codec.serialize (content a) = some file.bytes

theorem Whole.survive {a : α} {file : File} (h : Whole codec content a file)
    (garbage : List UInt8) : file.survive garbage = file := by
  rw [File.survive, if_pos h.1]

/-- How far the temporary file is, for each call of the writer. -/
def Writer.Ready (codec : Codec β) (content : α → β) (tmp : Option File) (w : Writer α) : Prop :=
  match w.phase with
  | .createDir | .serialize | .done _ => True
  | .removeTmp bytes | .createTmp bytes => codec.serialize (content w.payload) = some bytes
  | .writeAll bytes =>
    codec.serialize (content w.payload) = some bytes ∧ tmp = some ⟨[], false⟩
  | .syncAll bytes =>
    codec.serialize (content w.payload) = some bytes ∧ tmp = some ⟨bytes, false⟩
  | .rename bytes =>
    codec.serialize (content w.payload) = some bytes ∧ tmp = some ⟨bytes, true⟩

/-- **Every file under the final name is whole**, also those that may come back, and the writer is
where it should be. -/
structure Safe (codec : Codec β) (content : α → β) (s : State α) : Prop where
  whole : ∀ file, some file ∈ s.dir.final :: s.dir.stale →
    ∃ a ∈ s.published, Whole codec content a file
  ready : ∀ w ∈ s.writer, w.Ready codec content s.dir.tmp

theorem safe_start : Safe codec content (start : State α) where
  whole file h := by simp [start] at h
  ready w h := by simp [start] at h

theorem Safe.release {s : State α} (h : Safe codec content s) (tmp : Option File) :
    Safe codec content ((s.setTmp tmp).release) where
  whole := h.whole
  ready w hw := by simp [State.release] at hw

theorem Safe.goOn {s : State α} (h : Safe codec content s) {w : Writer α} {tmp : Option File}
    {phase : Phase} (hready : Writer.Ready codec content tmp { w with phase := phase }) :
    Safe codec content ((s.setTmp tmp).goOn w phase) where
  whole := h.whole
  ready w' hw' := by
    obtain rfl := Option.some.inj hw'
    exact hready

theorem Safe.publish {s : State α} (h : Safe codec content s) {w : Writer α} {file : File}
    (hwhole : Whole codec content w.payload file) (bytes : List UInt8) :
    Safe codec content ((s.publish w file).goOn w (.done bytes)) where
  whole file' hmem := by
    rcases List.mem_cons.mp hmem with heq | hmem
    · obtain rfl := Option.some.inj heq
      exact ⟨w.payload, List.mem_append_right _ (List.mem_singleton_self _), hwhole⟩
    · obtain ⟨a, ha, hfile⟩ := h.whole file' hmem
      exact ⟨a, List.mem_append_left _ ha, hfile⟩
  ready w' hw' := by
    obtain rfl := Option.some.inj hw'
    trivial

/-- The writer has not published yet. -/
def Writer.Pending (w : Writer α) : Prop := ∀ bytes, w.phase ≠ .done bytes

/-- **What one call does**, as far as the next one needs to know: it gives the lock back, goes on
with a temporary file that is far enough, or publishes a file that is whole. -/
theorem io_cases {s : State α} {w : Writer α} (hready : w.Ready codec content s.dir.tmp)
    (outcome : Outcome) :
    (∃ tmp, io codec content s w outcome = (s.setTmp tmp).release) ∨
    w.Pending ∧ ((∃ tmp phase, io codec content s w outcome = (s.setTmp tmp).goOn w phase ∧
        Writer.Ready codec content tmp { w with phase := phase }) ∨
      ∃ file bytes, io codec content s w outcome = (s.publish w file).goOn w (.done bytes) ∧
        Whole codec content w.payload file) := by
  obtain ⟨payload, phase⟩ := w
  cases outcome with
  | error written =>
    cases phase with
    | writeAll bytes => exact .inl ⟨_, rfl⟩
    | _ => exact .inl ⟨s.dir.tmp, rfl⟩
  | ok =>
    cases phase with
    | done bytes => exact .inl ⟨s.dir.tmp, rfl⟩
    | createDir =>
      exact .inr ⟨fun _ => by simp, .inl ⟨s.dir.tmp, .serialize, rfl, trivial⟩⟩
    | serialize =>
      cases hser : codec.serialize (content payload) with
      | none => exact .inl ⟨s.dir.tmp, by simp only [io, hser]; rfl⟩
      | some bytes =>
        exact .inr ⟨fun _ => by simp,
          .inl ⟨s.dir.tmp, .removeTmp bytes, by simp only [io, hser]; rfl, hser⟩⟩
    | removeTmp bytes =>
      exact .inr ⟨fun _ => by simp, .inl ⟨none, .createTmp bytes, rfl, hready⟩⟩
    | createTmp bytes =>
      cases htmp : s.dir.tmp with
      | some file => exact .inl ⟨s.dir.tmp, by simp only [io, htmp]; rw [← htmp]; rfl⟩
      | none =>
        exact .inr ⟨fun _ => by simp, .inl ⟨some ⟨[], false⟩, .writeAll bytes,
          by simp only [io, htmp], hready, rfl⟩⟩
    | writeAll bytes =>
      refine .inr ⟨fun _ => by simp, .inl ⟨_, .syncAll bytes, rfl, hready.1, ?_⟩⟩
      rw [hready.2, Option.map_some, List.nil_append]
    | syncAll bytes =>
      refine .inr ⟨fun _ => by simp, .inl ⟨_, .rename bytes, rfl, hready.1, ?_⟩⟩
      rw [hready.2, Option.map_some]
    | rename bytes =>
      refine .inr ⟨fun _ => by simp, .inr ⟨⟨bytes, true⟩, bytes, ?_, rfl, hready.1⟩⟩
      simp only [io, hready.2]

theorem Safe.step {s : State α} (h : Safe codec content s) (ev : Event α) :
    Safe codec content (step codec content s ev) := by
  cases ev with
  | lock payload =>
    rw [AtomicReplace.step]
    split
    · exact h
    · exact ⟨h.whole, fun w hw => by obtain rfl := Option.some.inj hw; trivial⟩
  | io outcome =>
    rw [AtomicReplace.step]
    split
    · exact h
    · next w hw =>
      rcases io_cases (h.ready w hw) outcome with
        ⟨tmp, heq⟩ | ⟨-, ⟨tmp, phase, heq, hready⟩ | ⟨file, bytes, heq, hwhole⟩⟩
      · exact heq ▸ h.release tmp
      · exact heq ▸ h.goOn hready
      · exact heq ▸ h.publish hwhole bytes
  | kill => exact h.release s.dir.tmp
  | powerLoss k garbage tmp =>
    refine ⟨fun file hmem => ?_, fun w hw => by simp [AtomicReplace.step] at hw⟩
    have hfinal := List.mem_singleton.mp hmem
    obtain ⟨old, hold, rfl⟩ := Option.map_eq_some_iff.mp hfinal.symm
    have hmem : some old ∈ s.dir.final :: s.dir.stale := by
      rw [← hold, List.getD_eq_getElem?_getD]
      cases hk : (s.dir.final :: s.dir.stale)[k]? with
      | none => exact List.mem_cons_self
      | some x => exact List.mem_of_getElem? hk
    obtain ⟨a, ha, hwhole⟩ := h.whole old hmem
    exact ⟨a, ha, (hwhole.survive garbage).symm ▸ hwhole⟩

theorem safe_exec (events : List (Event α)) :
    Safe codec content (Run.exec (step codec content) start events) :=
  Run.exec_invariant (fun _ ev h => h.step ev) safe_start events

theorem Safe.load {s : State α} (h : Safe codec content s) :
    s.dir.final = none ∧ load codec s.dir = .missing ∨
      ∃ a ∈ s.published, load codec s.dir = .value (content a) := by
  cases hfinal : s.dir.final with
  | none => exact .inl ⟨rfl, by simp only [AtomicReplace.load, hfinal]⟩
  | some file =>
    obtain ⟨a, ha, hwhole⟩ := h.whole file (hfinal ▸ List.mem_cons_self)
    refine .inr ⟨a, ha, ?_⟩
    simp only [AtomicReplace.load, hfinal, codec.deserialize_serialize hwhole.2]

/-- **What is read was published**, whatever failed and whenever the process or the power went. -/
theorem load_exec (events : List (Event α)) :
    let s := Run.exec (step codec content) (start : State α) events
    load codec s.dir = .missing ∨ ∃ a ∈ s.published, load codec s.dir = .value (content a) :=
  (safe_exec events).load.imp_left And.right

/-- **A save in which no call fails is published**: the eight calls of a writer, with nothing
between them. -/
theorem exec_ok {s : State α} {a : α} {bytes : List UInt8} (hw : s.writer = some ⟨a, .createDir⟩)
    (hbytes : codec.serialize (content a) = some bytes) :
    Run.exec (step codec content) s (List.replicate 8 (.io .ok)) =
      ⟨⟨none, some ⟨bytes, true⟩, s.dir.final :: s.dir.stale⟩, none, s.published ++ [a]⟩ := by
  obtain ⟨dir, writer, published⟩ := s
  obtain rfl : writer = some ⟨a, .createDir⟩ := hw
  simp only [List.replicate, Run.exec_cons, Run.exec_nil, step, io, State.goOn, State.setTmp,
    hbytes]
  rfl

/-! ### The latest -/

/-- The file under the final name is the one that was published last. -/
structure Latest (codec : Codec β) (content : α → β) (s : State α) : Prop
    extends Safe codec content s where
  latest : ∀ a ∈ s.published.getLast?, ∃ file, s.dir.final = some file ∧
    Whole codec content a file
  missing : s.published = [] → s.dir.final = none

theorem latest_start : Latest codec content (start : State α) where
  toSafe := safe_start
  latest a h := by simp [start] at h
  missing _ := rfl

/-- Not a power loss. -/
def Event.PowerOn : Event α → Prop
  | .powerLoss _ _ _ => False
  | _ => True

theorem Latest.step {s : State α} (h : Latest codec content s) (ev : Event α)
    (hon : ev.PowerOn) : Latest codec content (step codec content s ev) := by
  have hsafe := h.toSafe.step ev
  cases ev with
  | lock payload =>
    rw [AtomicReplace.step] at hsafe ⊢
    split
    · exact h
    · next hw =>
      rw [hw] at hsafe
      exact ⟨hsafe, h.latest, h.missing⟩
  | io outcome =>
    rw [AtomicReplace.step] at hsafe ⊢
    split
    · exact h
    · next w hw =>
      rw [hw] at hsafe
      rcases io_cases (h.ready w hw) outcome with
        ⟨tmp, heq⟩ | ⟨-, ⟨tmp, phase, heq, hready⟩ | ⟨file, bytes, heq, hwhole⟩⟩
      · exact ⟨hsafe, heq ▸ h.latest, heq ▸ h.missing⟩
      · exact ⟨hsafe, heq ▸ h.latest, heq ▸ h.missing⟩
      · refine ⟨hsafe, heq ▸ fun a ha => ?_, heq ▸ fun hnil => ?_⟩
        · have ha : w.payload = a := by
            simpa [State.goOn, State.publish] using ha
          exact ⟨file, rfl, ha ▸ hwhole⟩
        · simp [State.goOn, State.publish] at hnil
  | kill => exact ⟨hsafe, h.latest, h.missing⟩
  | powerLoss k garbage tmp => exact absurd hon id

theorem Latest.load {s : State α} (h : Latest codec content s) :
    load codec s.dir = (s.published.getLast?.elim .missing fun a => .value (content a)) := by
  cases hlast : s.published.getLast? with
  | none =>
    have hfinal := h.missing (List.getLast?_eq_none_iff.mp hlast)
    simp only [AtomicReplace.load, hfinal, Option.elim_none]
  | some a =>
    obtain ⟨file, hfinal, hwhole⟩ := h.latest a hlast
    simp only [AtomicReplace.load, hfinal, codec.deserialize_serialize hwhole.2, Option.elim_some]

end Invariant

end AtomicReplace
