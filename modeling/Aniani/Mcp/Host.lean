import Aniani.Mcp.Dispatch
import Aniani.Server.Journal

/-!
# The endpoint of the tools

What is done for a request takes the lock of one store after another. Between them other requests
are served, telemetry is pushed, and the background task runs; so the endpoint is a machine, over
the process it is part of, that keeps the requests that are under way and what is left to be done
for each.

Whatever the interleaving, each request is answered at most once, and as JSON-RPC asks of what its
handler saw; and the stores are those of a process that served the pushes and removals, with the
three removals of each reset that was asked for, in order, and with no others.

## Main definitions

* `Host`, `HostEvent`, `Host.step` — the endpoint, in steps
* `Host.received`, `Host.states`, `Host.asked` — the requests that came in, the states the process
  went through, and what it was asked to do
* `Host.IsAt` — how far a request has come

## Main results

* `Host.accounts` — what holds of the requests in any interleaving
* `Host.answered_once` — no request is forgotten, and none is answered twice
* `Host.exists_over` — and none is stuck
* `Host.resets_exact` — what the endpoint does to the stores
-/

namespace Aniani

namespace Mcp

open Combinator (Combinators)

variable {Rodeo Spur F64 : Type}

/-! ### The machine -/

/-- A request under way, and what is left to be done for it. -/
structure UnderWay (Rodeo Spur F64 : Type) where
  request : ℕ
  rest : Serving Rodeo Spur F64

/-- The endpoint, in the process it is part of. Requests are numbered as they come. -/
structure Host (Rodeo Spur F64 : Type) where
  server : Server Rodeo Spur F64
  requests : ℕ
  underWay : List (UnderWay Rodeo Spur F64)
  answers : List (ℕ × Response F64)
  /-- The requests whose handler panicked. Their connections are closed without an answer. -/
  dropped : List ℕ

/-- What happens: a request comes in, what is done for one goes on by a step, or the rest of the
process does. -/
inductive HostEvent (Spur F64 : Type) where
  | post (out : Outside Spur F64) (req : HttpRequest)
  | goOn (i : ℕ) (it : IterOrder ℕ) (itTraces : IterOrder TraceId)
  | other (ev : Event F64)

/-- The request that comes in. -/
def HostEvent.request : HostEvent Spur F64 → Option (Outside Spur F64 × HttpRequest)
  | .post out req => some (out, req)
  | _ => none

/-- What happens beside the endpoint. -/
def HostEvent.beside : HostEvent Spur F64 → Option (Event F64)
  | .other ev => some ev
  | _ => none

/-- A removal from a store, as an event of the process. -/
def StoreKind.event (it : IterOrder ℕ) (itTraces : IterOrder TraceId) (r : Removal) :
    StoreKind → Event F64
  | .logs => .removeLogs it r
  | .metrics => .removeMetrics it r
  | .traces => .removeTraces itTraces r

namespace Host

variable [LinearOrder Spur] [Interner Rodeo Spur] [FloatOps F64] [Combinators Char] [Alphanumeric]
  [SerdeJson F64] [Aniani.SerdeJson F64] (read : List UInt8 → Option (Document F64))

/-- The endpoint of a fresh process. -/
def start : Host Rodeo Spur F64 := ⟨Server.start, 0, [], [], []⟩

/-- A request comes in. -/
def post (h : Host Rodeo Spur F64) (out : Outside Spur F64) (req : HttpRequest) :
    Host Rodeo Spur F64 :=
  { h with
    requests := h.requests + 1
    underWay := h.underWay ++ [⟨h.requests, mcpPost read out req⟩] }

/-- What is done for a request goes on by a step: a lock is taken, or it is over. -/
def goOn (h : Host Rodeo Spur F64) (i : ℕ) (it : IterOrder ℕ) (itTraces : IterOrder TraceId) :
    Host Rodeo Spur F64 :=
  match h.underWay[i]? with
  | none => h
  | some ⟨k, .done (some response)⟩ => { h with
      underWay := h.underWay.eraseIdx i
      answers := h.answers ++ [(k, response)] }
  | some ⟨k, .done none⟩ => { h with
      underWay := h.underWay.eraseIdx i
      dropped := h.dropped ++ [k] }
  | some ⟨k, .look next⟩ => { h with underWay := h.underWay.set i ⟨k, next h.server.state⟩ }
  | some ⟨k, .ask (kind, r) next⟩ => { h with
      server := h.server.step (kind.event it itTraces r)
      underWay := h.underWay.set i ⟨k, next⟩ }

/-- One event. -/
def step (h : Host Rodeo Spur F64) : HostEvent Spur F64 → Host Rodeo Spur F64
  | .post out req => h.post read out req
  | .goOn i it itTraces => h.goOn i it itTraces
  | .other ev => { h with server := h.server.step ev }

/-! ### What happens in a run -/

/-- The requests that came in during a run. -/
def received (events : List (HostEvent Spur F64)) : List (Outside Spur F64 × HttpRequest) :=
  events.filterMap HostEvent.request

/-- The `k`th request comes in with the event at `n`. -/
structure ComesIn (events : List (HostEvent Spur F64)) (k n : ℕ) (out : Outside Spur F64)
    (req : HttpRequest) : Prop where
  event : events[n]? = some (.post out req)
  number : (received (events.take n)).length = k

/-- The states the process went through, as each event found it. -/
def states (events : List (HostEvent Spur F64)) : List (AppState Rodeo Spur F64) :=
  Run.labels (step read) (fun h _ => h.server.state) start events

/-- What an event asks of the process, with the number of the request it is for. -/
def asks (h : Host Rodeo Spur F64) : HostEvent Spur F64 → List (Option ℕ × Event F64)
  | .post _ _ => []
  | .goOn i it itTraces =>
    match h.underWay[i]? with
    | some ⟨k, .ask (kind, r) _⟩ => [(some k, kind.event it itTraces r)]
    | _ => []
  | .other ev => [(none, ev)]

variable (Rodeo) in
/-- What the process was asked to do in a run. -/
def asked (events : List (HostEvent Spur F64)) : List (Option ℕ × Event F64) :=
  Run.emitted (step read) asks (start : Host Rodeo Spur F64) events

end Host

/-- What an event removes from which store. -/
def removalOf : Event F64 → Option (StoreKind × Removal)
  | .removeLogs _ r => some (.logs, r)
  | .removeMetrics _ r => some (.metrics, r)
  | .removeTraces _ r => some (.traces, r)
  | _ => none

@[simp] theorem removalOf_event (it : IterOrder ℕ) (itTraces : IterOrder TraceId)
    (kind : StoreKind) (r : Removal) :
    removalOf (kind.event it itTraces r : Event F64) = some (kind, r) := by
  cases kind <;> rfl

/-- What was removed for a request. -/
def removedFor (k : ℕ) (asked : List (Option ℕ × Event F64)) : List (StoreKind × Removal) :=
  asked.filterMap fun a => if a.1 = some k then removalOf a.2 else none

@[simp] theorem removedFor_append (k : ℕ) (asked asked' : List (Option ℕ × Event F64)) :
    removedFor k (asked ++ asked') = removedFor k asked ++ removedFor k asked' :=
  List.filterMap_append

@[simp] theorem removedFor_nil (k : ℕ) : removedFor k ([] : List (Option ℕ × Event F64)) = [] := rfl

theorem removedFor_of_ne {k : ℕ} {tag : Option ℕ} (h : tag ≠ some k) (ev : Event F64) :
    removedFor k [(tag, ev)] = [] := by
  simp [removedFor, h]

@[simp] theorem removedFor_event (k : ℕ) (it : IterOrder ℕ) (itTraces : IterOrder TraceId)
    (kind : StoreKind) (r : Removal) :
    removedFor k [(some k, (kind.event it itTraces r : Event F64))] = [(kind, r)] := by
  simp [removedFor]

namespace Host

section ComesIn

variable {events : List (HostEvent Spur F64)} {k n : ℕ} {out : Outside Spur F64}
  {req : HttpRequest}

theorem received_concat (events : List (HostEvent Spur F64)) (ev : HostEvent Spur F64) :
    received (events ++ [ev]) = received events ++ ev.request.toList := by
  rw [received, List.filterMap_append]
  cases ev <;> rfl

theorem ComesIn.lt (h : ComesIn events k n out req) : n < events.length :=
  (List.getElem?_eq_some_iff.mp h.event).1

/-- What came in has come in when more has happened. -/
theorem ComesIn.concat (h : ComesIn events k n out req) (ev : HostEvent Spur F64) :
    ComesIn (events ++ [ev]) k n out req := by
  refine ⟨?_, ?_⟩
  · rw [List.getElem?_append_left h.lt, h.event]
  · rw [List.take_append_of_le_length h.lt.le, h.number]

/-- A request that comes in is the next one. -/
theorem comesIn_concat (events : List (HostEvent Spur F64)) (out : Outside Spur F64)
    (req : HttpRequest) :
    ComesIn (events ++ [.post out req]) (received events).length events.length out req := by
  refine ⟨List.getElem?_concat_length, ?_⟩
  rw [List.take_left]

/-- The requests are numbered as they come. -/
theorem ComesIn.getElem?_received (h : ComesIn events k n out req) :
    (received events)[k]? = some (out, req) := by
  obtain ⟨hlt, hget⟩ := List.getElem?_eq_some_iff.mp h.event
  have hsplit : events = events.take n ++ .post out req :: events.drop (n + 1) := by
    rw [← hget, List.getElem_cons_drop, List.take_append_drop]
  have hreceived : received events = received (events.take n) ++
      (out, req) :: received (events.drop (n + 1)) := by
    conv_lhs => rw [hsplit]
    simp [received, HostEvent.request]
  rw [hreceived, ← h.number, List.getElem?_append_right le_rfl, Nat.sub_self]
  rfl

end ComesIn

variable [LinearOrder Spur] [Interner Rodeo Spur] [FloatOps F64] [Combinators Char] [Alphanumeric]
  [SerdeJson F64] [Aniani.SerdeJson F64] (read : List UInt8 → Option (Document F64))

/-- The endpoint after a run. -/
abbrev after (events : List (HostEvent Spur F64)) : Host Rodeo Spur F64 :=
  Run.exec (step read) start events

/-- **How far the `k`th request has come**: it came in, what was done for it since has seen some of
the states the process went through, each at a later event, and this is left. -/
def IsAt (events : List (HostEvent Spur F64)) (k : ℕ) (rest : Serving Rodeo Spur F64) : Prop :=
  ∃ n out req seen, ComesIn events k n out req ∧
    seen.Sublist ((states read events).drop (n + 1)) ∧
      (mcpPost read out req).Reaches seen (removedFor k (asked Rodeo read events)) rest

/-- The answers, the requests that were dropped and those under way account for what came in, and
for what was removed. -/
structure Accounts (events : List (HostEvent Spur F64)) (h : Host Rodeo Spur F64) : Prop where
  requests : h.requests = (received events).length
  perm : (h.answers.map Prod.fst ++ (h.dropped ++ h.underWay.map UnderWay.request)).Perm
    (List.range h.requests)
  fresh : ∀ k, h.requests ≤ k → removedFor k (asked Rodeo read events) = []
  answered : ∀ k response, (k, response) ∈ h.answers →
    IsAt read events k (respond response : Serving Rodeo Spur F64)
  dropped : ∀ k ∈ h.dropped, IsAt read events k (.done none : Serving Rodeo Spur F64)
  underWay : ∀ u ∈ h.underWay, IsAt read events u.request u.rest

variable {read} {events : List (HostEvent Spur F64)} {h : Host Rodeo Spur F64}

theorem states_concat (events : List (HostEvent Spur F64)) (ev : HostEvent Spur F64) :
    (states read (events ++ [ev]) : List (AppState Rodeo Spur F64)) = states read events ++
      [(after read events : Host Rodeo Spur F64).server.state] :=
  Run.labels_concat _ _ _ _ _

theorem asked_concat (events : List (HostEvent Spur F64)) (ev : HostEvent Spur F64) :
    asked Rodeo read (events ++ [ev]) = asked Rodeo read events ++
      (after read events : Host Rodeo Spur F64).asks ev :=
  Run.emitted_concat _ _ _ _ _

/-- What was seen since a request came in, when more has happened. -/
theorem ComesIn.drop_states {k n : ℕ} {out : Outside Spur F64} {req : HttpRequest}
    (hin : ComesIn events k n out req) (ev : HostEvent Spur F64) :
    (states read (events ++ [ev]) : List (AppState Rodeo Spur F64)).drop (n + 1) =
      (states read events).drop (n + 1) ++
        [(after read events : Host Rodeo Spur F64).server.state] := by
  have hlength : n + 1 ≤ (states read events : List (AppState Rodeo Spur F64)).length := by
    rw [states, Run.length_labels]
    exact hin.lt
  rw [states_concat, List.drop_append_of_le_length hlength]

section IsAt

variable {k : ℕ} {ev : HostEvent Spur F64}

/-- A request stays where it is while others go on. -/
theorem IsAt.concat {rest : Serving Rodeo Spur F64} (hat : IsAt read events k rest)
    (hev : removedFor k ((after read events : Host Rodeo Spur F64).asks ev) =
      []) : IsAt read (events ++ [ev]) k rest := by
  obtain ⟨n, out, req, seen, hin, hseen, hreaches⟩ := hat
  refine ⟨n, out, req, seen, hin.concat ev, ?_, ?_⟩
  · rw [hin.drop_states]
    exact hseen.trans (List.sublist_append_left _ _)
  · rw [asked_concat, removedFor_append, hev, List.append_nil]
    exact hreaches

/-- A request that has a store read sees the state as it is. -/
theorem IsAt.look {next : AppState Rodeo Spur F64 → Serving Rodeo Spur F64}
    (hat : IsAt read events k (.look next))
    (hev : removedFor k ((after read events : Host Rodeo Spur F64).asks ev) =
      []) :
    IsAt read (events ++ [ev]) k
      (next (after read events : Host Rodeo Spur F64).server.state) := by
  obtain ⟨n, out, req, seen, hin, hseen, hreaches⟩ := hat
  refine ⟨n, out, req, seen ++ [(after read events).server.state], hin.concat ev, ?_, ?_⟩
  · rw [hin.drop_states]
    exact hseen.append_right _
  · rw [asked_concat, removedFor_append, hev, List.append_nil]
    exact hreaches.look _

/-- A request that has something removed is further by that. -/
theorem IsAt.ask {e : StoreKind × Removal} {next : Serving Rodeo Spur F64}
    (hat : IsAt read events k (.ask e next))
    (hev : removedFor k ((after read events : Host Rodeo Spur F64).asks ev) =
      [e]) : IsAt read (events ++ [ev]) k next := by
  obtain ⟨n, out, req, seen, hin, hseen, hreaches⟩ := hat
  refine ⟨n, out, req, seen, hin.concat ev, ?_, ?_⟩
  · rw [hin.drop_states]
    exact hseen.trans (List.sublist_append_left _ _)
  · rw [asked_concat, removedFor_append, hev]
    exact hreaches.ask

end IsAt

/-- A request that has come in is where it starts. -/
theorem isAt_concat (out : Outside Spur F64) (req : HttpRequest)
    (hfresh : removedFor (received events).length (asked Rodeo read events) = []) :
    IsAt read (events ++ [.post out req]) (received events).length
      (mcpPost read out req : Serving Rodeo Spur F64) := by
  refine ⟨events.length, out, req, [], comesIn_concat events out req, List.nil_sublist _, ?_⟩
  rw [asked_concat, removedFor_append, hfresh]
  exact .start

section Accounts

variable {ev : HostEvent Spur F64}

/-- No two of them are for one request. -/
theorem Accounts.nodup (hacc : Accounts read events h) :
    (h.answers.map Prod.fst ++ (h.dropped ++ h.underWay.map UnderWay.request)).Nodup :=
  hacc.perm.nodup_iff.mpr List.nodup_range

/-- An event that is nothing to the requests under way leaves the account as it is. -/
theorem Accounts.concat (hacc : Accounts read events h)
    (hreceived : ev.request = none)
    (hev : ∀ k, removedFor k ((after read events : Host Rodeo Spur F64).asks ev) = []) :
    Accounts read (events ++ [ev]) h where
  requests := by
    rw [received_concat, hreceived]
    simpa using hacc.requests
  perm := hacc.perm
  fresh k hk := by rw [asked_concat, removedFor_append, hev, hacc.fresh k hk]; rfl
  answered k response hk := (hacc.answered k response hk).concat (hev k)
  dropped k hk := (hacc.dropped k hk).concat (hev k)
  underWay u hu := (hacc.underWay u hu).concat (hev u.request)

/-- **A request that comes in** is accounted for. -/
theorem Accounts.post (hacc : Accounts read events h) (out : Outside Spur F64)
    (req : HttpRequest) :
    Accounts read (events ++ [.post out req]) (h.post read out req) := by
  have hlength : (received (events ++ [HostEvent.post out req])).length = h.requests + 1 := by
    rw [received_concat, List.length_append, ← hacc.requests]
    rfl
  have hasked : asked Rodeo read (events ++ [.post out req]) = asked Rodeo read events := by
    rw [asked_concat]
    exact List.append_nil _
  refine ⟨hlength.symm, ?_, fun k hk => ?_, fun k response hk => ?_, fun k hk => ?_,
    fun u hu => ?_⟩
  · rw [Host.post, List.map_append, List.range_succ, ← List.append_assoc h.dropped,
      ← List.append_assoc]
    exact hacc.perm.append_right _
  · rw [hasked]
    exact hacc.fresh k (Nat.le_of_succ_le hk)
  · exact (hacc.answered k response hk).concat rfl
  · exact (hacc.dropped k hk).concat rfl
  · rcases List.mem_append.mp hu with hu | hu
    · exact (hacc.underWay u hu).concat rfl
    · obtain rfl := List.mem_singleton.mp hu
      show IsAt read _ h.requests _
      rw [hacc.requests]
      exact isAt_concat out req (hacc.requests ▸ hacc.fresh h.requests le_rfl)

/-- **A request that is over** is accounted for by its answer, or as dropped. -/
theorem Accounts.over (hacc : Accounts read events h) {i k : ℕ} {rest : Serving Rodeo Spur F64}
    (hget : h.underWay[i]? = some ⟨k, rest⟩) {answers : List (ℕ × Response F64)}
    {dropped : List ℕ}
    (hperm : (answers.map Prod.fst ++ dropped).Perm (h.answers.map Prod.fst ++ (h.dropped ++ [k])))
    (hanswered : ∀ k' response, (k', response) ∈ answers →
      (k', response) ∈ h.answers ∨ k' = k ∧ rest = respond response)
    (hdropped : ∀ k' ∈ dropped, k' ∈ h.dropped ∨ k' = k ∧ rest = .done none) :
    Accounts read events { h with
      underWay := h.underWay.eraseIdx i
      answers := answers
      dropped := dropped } := by
  have hat : IsAt read events k rest := hacc.underWay _ (List.mem_of_getElem? hget)
  refine ⟨hacc.requests, ?_, hacc.fresh, fun k' response hk => ?_, fun k' hk => ?_, fun u hu =>
    hacc.underWay u (List.mem_of_mem_eraseIdx hu)⟩
  · obtain ⟨hi, hgetElem⟩ := List.getElem?_eq_some_iff.mp hget
    have herase : (k :: (h.underWay.eraseIdx i).map UnderWay.request).Perm
        (h.underWay.map UnderWay.request) := by
      have hcons := (List.getElem_cons_eraseIdx_perm hi).map UnderWay.request
      rwa [hgetElem] at hcons
    refine List.Perm.trans ?_ hacc.perm
    rw [← List.append_assoc]
    refine (hperm.append_right _).trans ?_
    rw [List.append_assoc, List.append_assoc]
    exact (herase.append_left _).append_left _
  · rcases hanswered k' response hk with hk | ⟨rfl, rfl⟩
    · exact hacc.answered k' response hk
    · exact hat
  · rcases hdropped k' hk with hk | ⟨rfl, rfl⟩
    · exact hacc.dropped k' hk
    · exact hat

/-- **A request that takes a lock** is accounted for where it is then. -/
theorem Accounts.further (hacc : Accounts read events h) {i k : ℕ}
    {rest next : Serving Rodeo Spur F64} {server : Server Rodeo Spur F64}
    (hget : h.underWay[i]? = some ⟨k, rest⟩) (hreceived : ev.request = none)
    (hothers : ∀ k', k' ≠ k →
      removedFor k' ((after read events : Host Rodeo Spur F64).asks ev) = [])
    (hat : IsAt read (events ++ [ev]) k next) :
    Accounts read (events ++ [ev]) { h with
      server := server
      underWay := h.underWay.set i ⟨k, next⟩ } := by
  obtain ⟨hi, hgetElem⟩ := List.getElem?_eq_some_iff.mp hget
  have hmem : k ∈ h.underWay.map UnderWay.request :=
    List.mem_map.mpr ⟨_, List.mem_of_getElem? hget, rfl⟩
  have hmap : (h.underWay.set i ⟨k, next⟩).map UnderWay.request =
      h.underWay.map UnderWay.request := by
    have hk : k = (h.underWay[i]).request := by rw [hgetElem]
    rw [List.map_set]
    dsimp only
    rw [hk, ← List.getElem_map UnderWay.request (h := by simpa using hi)]
    exact List.set_getElem_self _
  obtain ⟨-, hrest, hanswers⟩ := List.nodup_append.mp hacc.nodup
  obtain ⟨-, hunderWay, hdropped⟩ := List.nodup_append.mp hrest
  refine ⟨?_, ?_, fun k' hk => ?_, fun k' response hk => ?_, fun k' hk => ?_, fun u hu => ?_⟩
  · rw [received_concat, hreceived]
    simpa using hacc.requests
  · rw [hmap]
    exact hacc.perm
  · have hlt : k < h.requests := List.mem_range.mp
      (hacc.perm.mem_iff.mp (List.mem_append_right _ (List.mem_append_right _ hmem)))
    rw [asked_concat, removedFor_append, hacc.fresh k' hk,
      hothers k' (ne_of_gt (lt_of_lt_of_le hlt hk))]
    rfl
  · exact (hacc.answered k' response hk).concat (hothers k' (hanswers k'
      (List.mem_map_of_mem hk) k (List.mem_append_right _ hmem)))
  · exact (hacc.dropped k' hk).concat (hothers k' (hdropped k' hk k hmem))
  · obtain ⟨j, hj⟩ := List.mem_iff_getElem?.mp hu
    rw [List.getElem?_set] at hj
    split at hj
    · exact Option.some.inj hj ▸ hat
    · next hij =>
      refine (hacc.underWay u (List.mem_of_getElem? hj)).concat
        (hothers u.request fun heq => hij ?_)
      have hsame : (h.underWay.map UnderWay.request)[i]? =
          (h.underWay.map UnderWay.request)[j]? := by
        rw [List.getElem?_map, List.getElem?_map, hget, hj, Option.map_some, Option.map_some, heq]
      exact (List.getElem?_inj (by simpa using hi) hunderWay).mp hsame

/-- **What goes on by a step** is accounted for. -/
theorem Accounts.goOn (hacc : Accounts read events (after read events : Host Rodeo Spur F64))
    (i : ℕ) (it : IterOrder ℕ) (itTraces : IterOrder TraceId) :
    Accounts read (events ++ [.goOn i it itTraces])
      ((after read events : Host Rodeo Spur F64).goOn i it itTraces) := by
  cases hget : (after read events : Host Rodeo Spur F64).underWay[i]? with
  | none =>
    have hasks : (after read events : Host Rodeo Spur F64).asks (.goOn i it itTraces) = [] := by
      simp only [asks, hget]
    simp only [Host.goOn, hget]
    exact hacc.concat rfl fun k => congrArg (removedFor k) hasks
  | some u =>
    obtain ⟨k, rest⟩ := u
    have hat : IsAt read events k rest := hacc.underWay _ (List.mem_of_getElem? hget)
    match rest with
    | .done (some response) =>
      have hasks : (after read events : Host Rodeo Spur F64).asks (.goOn i it itTraces) = [] := by
        simp only [asks, hget]
      simp only [Host.goOn, hget]
      refine (hacc.over hget ?_ (fun k' response' hk => ?_) fun k' hk => .inl hk).concat rfl
        fun k => congrArg (removedFor k) hasks
      · rw [List.map_append, List.append_assoc]
        exact List.perm_append_comm.append_left _
      · rcases List.mem_append.mp hk with hk | hk
        · exact .inl hk
        · obtain ⟨rfl, rfl⟩ := Prod.mk.inj (List.mem_singleton.mp hk)
          exact .inr ⟨rfl, rfl⟩
    | .done none =>
      have hasks : (after read events : Host Rodeo Spur F64).asks (.goOn i it itTraces) = [] := by
        simp only [asks, hget]
      simp only [Host.goOn, hget]
      refine (hacc.over hget (List.Perm.refl _) (fun k' response' hk => .inl hk)
        fun k' hk => ?_).concat rfl fun k => congrArg (removedFor k) hasks
      exact (List.mem_append.mp hk).imp id fun hk => ⟨List.mem_singleton.mp hk, rfl⟩
    | .look next =>
      have hasks : (after read events : Host Rodeo Spur F64).asks (.goOn i it itTraces) = [] := by
        simp only [asks, hget]
      simp only [Host.goOn, hget]
      exact hacc.further hget rfl (fun k' _ => congrArg (removedFor k') hasks)
        (hat.look (congrArg (removedFor k) hasks))
    | .ask (kind, r) next =>
      have hasks : (after read events : Host Rodeo Spur F64).asks (.goOn i it itTraces) =
          [(some k, kind.event it itTraces r)] := by
        simp only [asks, hget]
      simp only [Host.goOn, hget]
      refine hacc.further hget rfl (fun k' hk => ?_) (hat.ask ?_)
      · rw [hasks, removedFor_of_ne (by simpa using hk.symm)]
      · rw [hasks, removedFor_event]

/-- **The rest of the process** is none of the endpoint's business. -/
theorem Accounts.other (hacc : Accounts read events h) (ev : Event F64)
    (server : Server Rodeo Spur F64) :
    Accounts read (events ++ [.other ev]) { h with server := server } := by
  have hasks : ∀ k, removedFor k
      ((after read events : Host Rodeo Spur F64).asks (.other ev)) = [] :=
    fun k => removedFor_of_ne (Option.some_ne_none k).symm ev
  obtain ⟨hrequests, hperm, hfresh, hanswered, hdropped, hunderWay⟩ := hacc.concat rfl hasks
  exact ⟨hrequests, hperm, hfresh, hanswered, hdropped, hunderWay⟩

end Accounts

/-- **In any interleaving**, the endpoint accounts for what came in. -/
theorem accounts (events : List (HostEvent Spur F64)) :
    Accounts read events (after read events : Host Rodeo Spur F64) := by
  induction events using List.reverseRecOn with
  | nil =>
    exact ⟨rfl, List.Perm.refl _, fun k _ => rfl, by simp [after, start], by simp [after, start],
      by simp [after, start]⟩
  | append_singleton events ev ih =>
    rw [after, Run.exec_append]
    cases ev with
    | post out req => exact ih.post out req
    | goOn i it itTraces => exact ih.goOn i it itTraces
    | other ev => exact ih.other ev _

/-- **No request is stuck**: what is done for it comes to its end in so many steps of its own. -/
theorem exists_over (it : IterOrder ℕ) (itTraces : IterOrder TraceId) {i k : ℕ}
    {rest : Serving Rodeo Spur F64} (hget : h.underWay[i]? = some ⟨k, rest⟩) :
    ∃ m, let h' := Run.exec (step read) h (List.replicate m (.goOn i it itTraces))
      k ∈ h'.answers.map Prod.fst ++ h'.dropped := by
  induction rest generalizing h with
  | done response =>
    refine ⟨1, ?_⟩
    cases response with
    | none => simp [step, Host.goOn, hget]
    | some response => simp [step, Host.goOn, hget]
  | look next ih =>
    have hstep : (step read h (.goOn i it itTraces)).underWay[i]? =
        some ⟨k, next h.server.state⟩ := by
      obtain ⟨hi, -⟩ := List.getElem?_eq_some_iff.mp hget
      simp only [step, Host.goOn, hget, List.getElem?_set_self hi]
    obtain ⟨m, hm⟩ := ih h.server.state hstep
    exact ⟨m + 1, hm⟩
  | ask e next ih =>
    have hstep : (step read h (.goOn i it itTraces)).underWay[i]? = some ⟨k, next⟩ := by
      obtain ⟨hi, -⟩ := List.getElem?_eq_some_iff.mp hget
      simp only [step, Host.goOn, hget, List.getElem?_set_self hi]
    obtain ⟨m, hm⟩ := ih hstep
    exact ⟨m + 1, hm⟩

/-- **The process goes through what it was asked**, one after another. -/
theorem server_exec (events : List (HostEvent Spur F64)) :
    (after read events : Host Rodeo Spur F64).server =
      Run.exec Server.step Server.start ((asked Rodeo read events).map Prod.snd) := by
  have hstep : ∀ (h : Host Rodeo Spur F64) ev, (step read h ev).server =
      Run.exec (fun (s : Server Rodeo Spur F64) a => s.step a.2) h.server (h.asks ev) := by
    intro h ev
    cases ev with
    | post out req => rfl
    | other ev => rfl
    | goOn i it itTraces =>
      cases hget : h.underWay[i]? with
      | none => simp [step, Host.goOn, asks, hget]
      | some u =>
        obtain ⟨k, rest⟩ := u
        match rest with
        | .done (some response) => simp [step, Host.goOn, asks, hget]
        | .done none => simp [step, Host.goOn, asks, hget]
        | .look next => simp [step, Host.goOn, asks, hget]
        | .ask (kind, r) next => simp [step, Host.goOn, asks, hget]
  rw [after, Run.exec_emitted hstep, Run.exec, Run.exec, List.foldl_map]
  rfl

omit [SerdeJson F64] [Aniani.SerdeJson F64] [LinearOrder Spur] [Interner Rodeo Spur] [FloatOps F64]
  [Combinators Char] [Alphanumeric] in
/-- What is asked for a request is a removal, and the rest is what happens beside it. -/
theorem asks_spec (h : Host Rodeo Spur F64) (ev : HostEvent Spur F64) :
    ((h.asks ev).filter fun a => a.1 = none).map Prod.snd = ev.beside.toList ∧
      ∀ k op, (some k, op) ∈ h.asks ev → (removalOf op).isSome := by
  cases ev with
  | post out req => exact ⟨rfl, fun k op hmem => absurd hmem List.not_mem_nil⟩
  | other ev => exact ⟨rfl, fun k op hmem => absurd (List.mem_singleton.mp hmem) (by simp)⟩
  | goOn i it itTraces =>
    cases hget : h.underWay[i]? with
    | none => simp [asks, hget, HostEvent.beside]
    | some u =>
      obtain ⟨k, rest⟩ := u
      cases rest with
      | done response => simp [asks, hget, HostEvent.beside]
      | look next => simp [asks, hget, HostEvent.beside]
      | ask e next => simp [asks, hget, HostEvent.beside]

variable (Rodeo read) in
theorem asked_spec (events : List (HostEvent Spur F64)) :
    let asked := Host.asked Rodeo read events
    (asked.filter fun a => a.1 = none).map Prod.snd = events.filterMap HostEvent.beside ∧
      ∀ k op, (some k, op) ∈ asked → (removalOf op).isSome := by
  induction events using List.reverseRecOn with
  | nil => exact ⟨rfl, fun k op hmem => absurd hmem List.not_mem_nil⟩
  | append_singleton events ev ih =>
    obtain ⟨hbeside, hremoval⟩ :=
      asks_spec (after read events : Host Rodeo Spur F64) ev
    dsimp only
    rw [asked_concat]
    refine ⟨?_, fun k op hmem => ?_⟩
    · rw [List.filter_append, List.map_append, List.filterMap_append, hbeside]
      refine congrArg₂ _ ih.1 ?_
      cases ev <;> rfl
    · rcases List.mem_append.mp hmem with hmem | hmem
      · exact ih.2 k op hmem
      · exact hremoval k op hmem

variable (read)

/-- **Each request is answered once**, and as JSON-RPC asks of what its handler saw. In any
interleaving the requests that came in are those that were answered, those whose handler panicked,
which are dropped unanswered, and those under way, each of them once. Whatever becomes of a request,
its handler has seen the stores as they were at some moments after the request came in, one after
another. -/
theorem answered_once (events : List (HostEvent Spur F64)) :
    let h : Host Rodeo Spur F64 := Run.exec (step read) start events
    let asked := Host.asked Rodeo read events
    (h.answers.map Prod.fst ++ (h.dropped ++ h.underWay.map UnderWay.request)).Perm
        (List.range (received events).length) ∧
      (∀ k response, (k, response) ∈ h.answers → ∃ n out req seen, ComesIn events k n out req ∧
        seen.Sublist ((states read events).drop (n + 1)) ∧
          RespondsTo read out req (seen : List (AppState Rodeo Spur F64)) (removedFor k asked)
            response) ∧
      (∀ k ∈ h.dropped, ∃ n out req seen, ComesIn events k n out req ∧
        seen.Sublist ((states read events).drop (n + 1)) ∧
          Drops read out req (seen : List (AppState Rodeo Spur F64)) (removedFor k asked)) ∧
      ∀ u ∈ h.underWay, ∃ n out req seen, ComesIn events u.request n out req ∧
        seen.Sublist ((states read events).drop (n + 1)) ∧
          (mcpPost read out req).Reaches seen (removedFor u.request asked) u.rest := by
  intro h asked
  have hacc : Accounts read events h := accounts events
  refine ⟨hacc.requests ▸ hacc.perm, fun k response hk => ?_, fun k hk => ?_, hacc.underWay⟩
  · obtain ⟨n, out, req, seen, hin, hseen, hreaches⟩ := hacc.answered k response hk
    exact ⟨n, out, req, seen, hin, hseen, respondsTo_of_reaches hreaches⟩
  · obtain ⟨n, out, req, seen, hin, hseen, hreaches⟩ := hacc.dropped k hk
    exact ⟨n, out, req, seen, hin, hseen, drops_of_reaches hreaches⟩

/-- **What the endpoint does to the stores**: in any interleaving, the process goes through the
pushes and removals that happened beside the endpoint and, for each request that asks for a reset,
through the three removals of that reset, in order, all of them by the time it is answered; and
through nothing else. -/
theorem resets_exact (events : List (HostEvent Spur F64)) :
    let h : Host Rodeo Spur F64 := Run.exec (step read) start events
    let requests := Host.received events
    let asked := Host.asked Rodeo read events
    h.server = Run.exec Server.step Server.start (asked.map Prod.snd) ∧
      (asked.filter fun a => a.1 = none).map Prod.snd = events.filterMap HostEvent.beside ∧
      (∀ k ev, (some k, ev) ∈ asked → (removalOf ev).isSome ∧ k < requests.length) ∧
      ∀ k, ∀ out req, requests[k]? = some (out, req) →
        (∀ id scope, AsksReset read req id scope → removedFor k asked <+: scope.plan ∧
          (k ∈ h.answers.map Prod.fst → removedFor k asked = scope.plan)) ∧
        ((∀ id scope, ¬ AsksReset read req id scope) → removedFor k asked = []) := by
  intro h requests asked
  have hacc : Accounts read events h := accounts events
  obtain ⟨hbeside, hremoval⟩ := asked_spec Rodeo read events
  refine ⟨server_exec events, hbeside, fun k ev hmem => ⟨hremoval k ev hmem, ?_⟩,
    fun k out req hreq => ?_⟩
  · by_contra hk
    obtain ⟨removal, hsome⟩ := Option.isSome_iff_exists.mp (hremoval k ev hmem)
    have hnone := hacc.fresh k (hacc.requests ▸ not_lt.mp hk)
    rw [removedFor, List.filterMap_eq_nil_iff] at hnone
    simpa [hsome] using hnone _ hmem
  have hreaches : ∀ {rest : Serving Rodeo Spur F64}, IsAt read events k rest →
      ∃ seen, (mcpPost read out req).Reaches seen (removedFor k asked) rest := by
    rintro rest ⟨n, out', req', seen, hin, -, hreaches⟩
    obtain ⟨rfl, rfl⟩ : out = out' ∧ req = req' := by
      simpa using hreq.symm.trans hin.getElem?_received
    exact ⟨seen, hreaches⟩
  have hat : ∃ rest : Serving Rodeo Spur F64, IsAt read events k rest := by
    obtain ⟨hlt, -⟩ := List.getElem?_eq_some_iff.mp hreq
    have hk := hacc.perm.mem_iff.mpr (List.mem_range.mpr (hacc.requests ▸ hlt))
    rw [List.mem_append, List.mem_append] at hk
    rcases hk with hk | hk | hk
    · obtain ⟨⟨_, response⟩, hmem, rfl⟩ := List.mem_map.mp hk
      exact ⟨_, hacc.answered _ response hmem⟩
    · exact ⟨_, hacc.dropped k hk⟩
    · obtain ⟨u, hu, rfl⟩ := List.mem_map.mp hk
      exact ⟨_, hacc.underWay u hu⟩
  obtain ⟨rest, hat⟩ := hat
  obtain ⟨seen, hrest⟩ := hreaches hat
  refine ⟨fun id scope hasks => ⟨?_, fun hk => ?_⟩, fun hnone => ?_⟩
  · obtain ⟨rest', heq, -⟩ := (asks_of_asksReset hasks).of_reaches hrest
    exact ⟨rest', heq.symm⟩
  · obtain ⟨⟨_, response⟩, hmem, rfl⟩ := List.mem_map.mp hk
    obtain ⟨seen', hdone⟩ := hreaches (hacc.answered _ response hmem)
    exact (asks_of_asksReset hasks).eq_of_reaches_done hdone
  · obtain ⟨rest', heq, -⟩ := (asks_of_not_asksReset hnone).of_reaches hrest
    exact (List.append_eq_nil_iff.mp heq.symm).1

end Host

end Mcp

end Aniani
