import Aniani.Mcp.Args
import Aniani.Mcp.Origin

/-!
# Messages

The endpoint of the tools takes one JSON-RPC message in the body of a request. A derived visitor
reads it: an object, whose keys may stand in any order and of which those it does not know are
skipped, or else an array with the fields in the order of their declaration. A message with an `id`
asks for an answer. Before the body is read, two headers are looked at.

## Main definitions

* `Value`, `Document` — what is read of a text
* `JsonRpcRequest`, `Document.deserialize` — a message, and how it is read
* `Document.Says` — the message a document is
* `checkProtocolVersion`, `negotiate` — revisions of the protocol

## Main results

* `deserialize_eq_some_iff` — a document is read as the message it says, whatever the order
* `negotiate_mem`, `checkProtocolVersion_negotiate` — what is agreed on passes the guard
-/

namespace Aniani

variable {F64 : Type}

/-! ### Values -/

namespace JsonValue

mutual

/-- What a `serde_json::Value` can hold. -/
def IsValue : JsonValue F64 → Prop
  | .posInt n => n ≤ u64Max
  | .negInt i => i64Min ≤ i ∧ i < 0
  | .array values => AreValues values
  | .object entries => (entries.map Prod.fst).Nodup ∧ AreEntries entries
  | _ => True

/-- The elements of an array. -/
def AreValues : List (JsonValue F64) → Prop
  | [] => True
  | v :: values => IsValue v ∧ AreValues values

/-- The entries of an object. -/
def AreEntries : List (String × JsonValue F64) → Prop
  | [] => True
  | (_, v) :: entries => IsValue v ∧ AreEntries entries

end

theorem AreEntries.of_lookup {entries : List (String × JsonValue F64)} (h : AreEntries entries)
    {key : String} {v : JsonValue F64} (hv : entries.lookup key = some v) : v.IsValue := by
  induction entries with
  | nil => exact absurd hv nofun
  | cons entry entries ih =>
    obtain ⟨k, w⟩ := entry
    obtain ⟨hw, hentries⟩ := h
    rw [List.lookup_cons] at hv
    split at hv
    · exact Option.some.inj hv ▸ hw
    · exact ih hentries hv

theorem IsValue.get {v : JsonValue F64} (h : v.IsValue) {key : String} {w : JsonValue F64}
    (hw : v.get key = some w) : w.IsValue := by
  cases v with
  | object entries => exact h.2.of_lookup hw
  | _ => exact absurd hw nofun

end JsonValue

namespace Mcp

/-- `serde_json::Value`. -/
abbrev Value (F64 : Type) := {v : JsonValue F64 // v.IsValue}

namespace Value

/-- `Value::Null`. -/
def null : Value F64 := ⟨.null, trivial⟩

/-- `Value::String`. -/
def string (s : String) : Value F64 := ⟨.string s, trivial⟩

/-- `Value::get` of a key. -/
def get (key : String) (v : Value F64) : Option (Value F64) :=
  (v.1.get key).pmap Subtype.mk fun _ hw => v.2.get hw

/-- `Value::as_str`. -/
def asStr (v : Value F64) : Option String := v.1.asStr

/-- `Value::as_object`. -/
def asObject : Value F64 → Option (JsonObject F64)
  | ⟨.object entries, h⟩ => some ⟨entries, h.1⟩
  | _ => none

/-- `Option::<Value>::deserialize`: a `null` is `None`. -/
def deserializeOption : Value F64 → Option (Value F64)
  | ⟨.null, _⟩ => none
  | v => some v

theorem asStr_eq_some_iff {v : Value F64} {s : String} : v.asStr = some s ↔ v = string s := by
  rw [string, Subtype.ext_iff]
  obtain ⟨v, hv⟩ := v
  cases v with
  | string t => simp [asStr, JsonValue.asStr]
  | _ => simp [asStr, JsonValue.asStr]

end Value

/-! ### Documents -/

/-- What the `serde_json` crate sees of a text at the top. A part that it can skip over but that is
no `Value`, as a number out of range, is nothing. -/
inductive Document (F64 : Type) where
  | object (entries : List (String × Option (Value F64)))
  | array (elements : List (Option (Value F64)))
  | scalar

/-- Whether the text as a whole is a `Value`. -/
def Document.isValue : Document F64 → Bool
  | .object entries => entries.all fun entry => entry.2.isSome
  | .array elements => elements.all Option.isSome
  | .scalar => true

/-- `JsonRpcRequest`. -/
structure JsonRpcRequest (F64 : Type) where
  jsonrpc : String
  id : Option (Value F64)
  method : String
  params : Value F64

/-- `is_request`. -/
def JsonRpcRequest.isRequest (req : JsonRpcRequest F64) : Bool := req.id.isSome

/-- The local variables in which the derived visitor gathers the fields. What it does is what serde
documents of a struct without attributes, but for two fields with a default: other keys are skipped,
a field may come once, and one without a default has to come. -/
structure RequestSlots (F64 : Type) where
  jsonrpc : Option String
  id : Option (Option (Value F64))
  method : Option String
  params : Option (Value F64)

namespace RequestSlots

/-- The visitor fills no variable before it sees a key. -/
def empty : RequestSlots F64 := ⟨none, none, none, none⟩

/-- One entry that the visitor sees: a field may come once, and other keys are skipped. -/
def visitEntry (slots : RequestSlots F64) (entry : String × Option (Value F64)) :
    Option (RequestSlots F64) :=
  match entry.1 with
  | "jsonrpc" =>
    if slots.jsonrpc.isSome then none
    else (entry.2.bind Value.asStr).map fun s => { slots with jsonrpc := some s }
  | "id" =>
    if slots.id.isSome then none
    else entry.2.map fun v => { slots with id := some v.deserializeOption }
  | "method" =>
    if slots.method.isSome then none
    else (entry.2.bind Value.asStr).map fun s => { slots with method := some s }
  | "params" =>
    if slots.params.isSome then none
    else entry.2.map fun v => { slots with params := some v }
  | _ => some slots

/-- The message, once the visitor has seen all entries: `id` and `params` have a default. -/
def finish (slots : RequestSlots F64) : Option (JsonRpcRequest F64) := do
  let jsonrpc ← slots.jsonrpc
  let method ← slots.method
  return ⟨jsonrpc, slots.id.getD none, method, slots.params.getD .null⟩

end RequestSlots

/-- The message of an array with all fields, the last of which has a default: serde documents that a
struct may be read from a sequence of its fields. -/
def deserializeSeq (jsonrpc id method params : Option (Value F64)) :
    Option (JsonRpcRequest F64) := do
  return ⟨← jsonrpc.bind Value.asStr, (← id).deserializeOption, ← method.bind Value.asStr, ← params⟩

/-- The derived `deserialize` of a message. -/
def Document.deserialize : Document F64 → Option (JsonRpcRequest F64)
  | .object entries =>
    (entries.foldlM RequestSlots.visitEntry RequestSlots.empty).bind RequestSlots.finish
  | .array [jsonrpc, id, method] => deserializeSeq jsonrpc id method (some .null)
  | .array [jsonrpc, id, method, params] => deserializeSeq jsonrpc id method params
  | _ => none

/-! ### What a document says -/

/-- The values of a key. -/
def valuesOf (key : String) (entries : List (String × Option (Value F64))) :
    List (Option (Value F64)) :=
  (entries.filter fun entry => entry.1 = key).map Prod.snd

/-- A field that has a default: it stands there once or not at all. -/
def AtMostOnce {β : Type} (values : List (Option (Value F64))) (absent : β) (read : Value F64 → β)
    (field : β) : Prop :=
  values = [] ∧ absent = field ∨ ∃ v, values = [some v] ∧ read v = field

/-- **The message a document is.** -/
inductive Document.Says : Document F64 → JsonRpcRequest F64 → Prop
  | object {entries : List (String × Option (Value F64))} {req : JsonRpcRequest F64}
      (hjsonrpc : valuesOf "jsonrpc" entries = [some (.string req.jsonrpc)])
      (hid : AtMostOnce (valuesOf "id" entries) none Value.deserializeOption req.id)
      (hmethod : valuesOf "method" entries = [some (.string req.method)])
      (hparams : AtMostOnce (valuesOf "params" entries) .null id req.params) :
      Says (.object entries) req
  | three {jsonrpc method : String} {id : Value F64} :
      Says (.array [some (.string jsonrpc), some id, some (.string method)])
        ⟨jsonrpc, id.deserializeOption, method, .null⟩
  | four {jsonrpc method : String} {id params : Value F64} :
      Says (.array [some (.string jsonrpc), some id, some (.string method), some params])
        ⟨jsonrpc, id.deserializeOption, method, params⟩

/-- What becomes of a variable that is filled at most once, by what is read of its values. -/
def fill {β : Type} (read : Value F64 → Option β) :
    Option β → List (Option (Value F64)) → Option (Option β)
  | slot, [] => some slot
  | none, [v] => (v.bind read).map some
  | _, _ => none

theorem fill_cons {β : Type} (read : Value F64 → Option β) (slot : Option β)
    (v : Option (Value F64)) (values : List (Option (Value F64))) :
    fill read slot (v :: values) =
      if slot.isSome then none else (v.bind read).bind fun b => fill read (some b) values := by
  cases slot with
  | some b => cases values <;> rfl
  | none =>
    cases values with
    | nil => cases hread : v.bind read <;> simp [fill, hread]
    | cons w values => cases hread : v.bind read <;> simp [fill]

theorem fill_none_eq_some_iff {β : Type} {read : Value F64 → Option β}
    {values : List (Option (Value F64))} {slot : Option β} :
    fill read none values = some slot ↔
      values = [] ∧ slot = none ∨ ∃ v b, values = [some v] ∧ read v = some b ∧ slot = some b := by
  match values with
  | [] => simp [fill, eq_comm]
  | [none] => simp [fill]
  | [some v] =>
    cases hread : read v with
    | none => simp [fill, hread]
    | some b => simp [fill, hread, eq_comm]
  | v :: w :: values => simp [fill]

theorem fill_asStr_iff {values : List (Option (Value F64))} {s : String} :
    fill Value.asStr none values = some (some s) ↔ values = [some (.string s)] := by
  rw [fill_none_eq_some_iff]
  constructor
  · rintro (⟨-, h⟩ | ⟨v, t, hvalues, hread, h⟩)
    · exact absurd h nofun
    · obtain rfl := Option.some.inj h
      rw [hvalues, Value.asStr_eq_some_iff.mp hread]
  · rintro rfl
    exact .inr ⟨_, s, rfl, rfl, rfl⟩

theorem exists_fill_iff {β : Type} {values : List (Option (Value F64))} {absent : β}
    {read : Value F64 → β} {field : β} :
    (∃ slot, fill (fun v => some (read v)) none values = some slot ∧ slot.getD absent = field) ↔
      AtMostOnce values absent read field := by
  constructor
  · rintro ⟨slot, hfill, hfield⟩
    rcases fill_none_eq_some_iff.mp hfill with ⟨hvalues, rfl⟩ | ⟨v, b, hvalues, hread, rfl⟩
    · exact .inl ⟨hvalues, hfield⟩
    · exact .inr ⟨v, hvalues, (Option.some.inj hread).trans hfield⟩
  · rintro (⟨rfl, hfield⟩ | ⟨v, rfl, hfield⟩)
    · exact ⟨none, rfl, hfield⟩
    · exact ⟨some (read v), rfl, hfield⟩

/-- A key that is not a field's is skipped. -/
theorem visitEntry_of_ne {slots : RequestSlots F64} {key : String} {v : Option (Value F64)}
    (hjsonrpc : key ≠ "jsonrpc") (hid : key ≠ "id") (hmethod : key ≠ "method")
    (hparams : key ≠ "params") : slots.visitEntry (key, v) = some slots := by
  rw [RequestSlots.visitEntry]
  split
  · next h => exact absurd h hjsonrpc
  · next h => exact absurd h hid
  · next h => exact absurd h hmethod
  · next h => exact absurd h hparams
  · rfl

/-- **Each variable is filled on its own**, by the values of its key. -/
theorem foldlM_visitEntry_iff (entries : List (String × Option (Value F64)))
    (slots slots' : RequestSlots F64) :
    entries.foldlM RequestSlots.visitEntry slots = some slots' ↔
      fill Value.asStr slots.jsonrpc (valuesOf "jsonrpc" entries) = some slots'.jsonrpc ∧
      fill (fun v => some v.deserializeOption) slots.id (valuesOf "id" entries) = some slots'.id ∧
      fill Value.asStr slots.method (valuesOf "method" entries) = some slots'.method ∧
      fill some slots.params (valuesOf "params" entries) = some slots'.params := by
  induction entries generalizing slots with
  | nil =>
    cases slots
    cases slots'
    simp [valuesOf, fill]
  | cons entry entries ih =>
    obtain ⟨key, v⟩ := entry
    have hvalues : ∀ field, valuesOf field ((key, v) :: entries) =
        if key = field then v :: valuesOf field entries else valuesOf field entries := by
      intro field
      by_cases hkey : key = field <;> simp [valuesOf, hkey]
    rw [List.foldlM_cons, Option.bind_eq_bind, Option.bind_eq_some_iff]
    simp only [hvalues, ih]
    by_cases hjsonrpc : key = "jsonrpc"
    · subst hjsonrpc
      cases hslot : slots.jsonrpc <;> cases hread : v.bind Value.asStr <;>
        simp [RequestSlots.visitEntry, fill_cons, hslot, hread]
    by_cases hid : key = "id"
    · subst hid
      cases hslot : slots.id <;> cases v <;>
        simp [RequestSlots.visitEntry, fill_cons, hslot]
    by_cases hmethod : key = "method"
    · subst hmethod
      cases hslot : slots.method <;> cases hread : v.bind Value.asStr <;>
        simp [RequestSlots.visitEntry, fill_cons, hslot, hread]
    by_cases hparams : key = "params"
    · subst hparams
      cases hslot : slots.params <;> cases v <;>
        simp [RequestSlots.visitEntry, fill_cons, hslot]
    · simp [visitEntry_of_ne hjsonrpc hid hmethod hparams, hjsonrpc, hid, hmethod, hparams]

theorem finish_eq_some_iff {slots : RequestSlots F64} {req : JsonRpcRequest F64} :
    slots.finish = some req ↔ slots.jsonrpc = some req.jsonrpc ∧ slots.id.getD none = req.id ∧
      slots.method = some req.method ∧ slots.params.getD .null = req.params := by
  obtain ⟨jsonrpc, id, method, params⟩ := slots
  obtain ⟨jsonrpc', id', method', params'⟩ := req
  cases jsonrpc <;> cases method <;> simp [RequestSlots.finish, and_left_comm]

theorem deserializeSeq_eq_some_iff {jsonrpc id method params : Option (Value F64)}
    {req : JsonRpcRequest F64} :
    deserializeSeq jsonrpc id method params = some req ↔ ∃ v, jsonrpc = some (.string req.jsonrpc) ∧
      id = some v ∧ v.deserializeOption = req.id ∧ method = some (.string req.method) ∧
        params = some req.params := by
  obtain ⟨jsonrpc', id', method', params'⟩ := req
  simp only [deserializeSeq, Option.bind_eq_bind, Option.bind_eq_some_iff, Option.pure_def,
    Option.some.injEq, JsonRpcRequest.mk.injEq, Value.asStr_eq_some_iff]
  constructor
  · rintro ⟨s, ⟨_, rfl, rfl⟩, v, rfl, t, ⟨_, rfl, rfl⟩, p, rfl, rfl, rfl, rfl, rfl⟩
    exact ⟨v, rfl, rfl, rfl, rfl, rfl⟩
  · rintro ⟨v, rfl, rfl, rfl, rfl, rfl⟩
    exact ⟨_, ⟨_, rfl, rfl⟩, v, rfl, _, ⟨_, rfl, rfl⟩, _, rfl, rfl, rfl, rfl, rfl⟩

/-- **A document is read as the message it says**, whatever the order its fields stand in. -/
theorem deserialize_eq_some_iff (doc : Document F64) (req : JsonRpcRequest F64) :
    doc.deserialize = some req ↔ doc.Says req := by
  constructor
  · intro h
    match doc, h with
    | .object entries, h =>
      obtain ⟨slots, hfold, hfinish⟩ := Option.bind_eq_some_iff.mp h
      obtain ⟨hjsonrpc, hid, hmethod, hparams⟩ := (foldlM_visitEntry_iff entries _ slots).mp hfold
      obtain ⟨hjsonrpc', hid', hmethod', hparams'⟩ := finish_eq_some_iff.mp hfinish
      exact .object (fill_asStr_iff.mp (hjsonrpc' ▸ hjsonrpc)) (exists_fill_iff.mp ⟨_, hid, hid'⟩)
        (fill_asStr_iff.mp (hmethod' ▸ hmethod)) (exists_fill_iff.mp ⟨_, hparams, hparams'⟩)
    | .array [jsonrpc, id, method], h =>
      obtain ⟨jsonrpc', id', method', params'⟩ := req
      obtain ⟨v, rfl, rfl, rfl, rfl, hparams⟩ := deserializeSeq_eq_some_iff.mp h
      obtain rfl := Option.some.inj hparams
      exact .three
    | .array [jsonrpc, id, method, params], h =>
      obtain ⟨jsonrpc', id', method', params'⟩ := req
      obtain ⟨v, rfl, rfl, rfl, rfl, rfl⟩ := deserializeSeq_eq_some_iff.mp h
      exact .four
  · intro h
    cases h with
    | @object entries _ hjsonrpc hid hmethod hparams =>
      obtain ⟨id, hid, hid'⟩ := exists_fill_iff.mpr hid
      obtain ⟨params, hparams, hparams'⟩ := exists_fill_iff.mpr hparams
      refine Option.bind_eq_some_iff.mpr ⟨⟨some req.jsonrpc, id, some req.method, params⟩,
        (foldlM_visitEntry_iff entries _ _).mpr ⟨fill_asStr_iff.mpr hjsonrpc, hid,
          fill_asStr_iff.mpr hmethod, hparams⟩,
        finish_eq_some_iff.mpr ⟨rfl, hid', rfl, hparams'⟩⟩
    | three => rfl
    | four => rfl

/-! ### Revisions -/

/-- `SUPPORTED_VERSIONS`. -/
def supportedVersions : List String := ["2025-11-25", "2025-06-18", "2025-03-26"]

/-- `LATEST_VERSION`. -/
def latestVersion : String := "2025-11-25"

/-- The revision that `initialize` agrees to. -/
def negotiate (params : Value F64) : String :=
  match (params.get "protocolVersion").bind Value.asStr with
  | some v => if v ∈ supportedVersions then v else latestVersion
  | none => latestVersion

/-- `check_protocol_version`: whether the request is let through. -/
def checkProtocolVersion (header : Option (List UInt8)) : Bool :=
  match header.bind toStr with
  | none => true
  | some v => decide (String.ofList v ∈ supportedVersions)

/-- The bytes of a header. -/
def headerBytes (text : String) : List UInt8 := text.toList.map fun c => c.toNat.toUInt8

theorem negotiate_mem (params : Value F64) : negotiate params ∈ supportedVersions := by
  have hlatest : latestVersion ∈ supportedVersions := List.mem_cons_self
  rw [negotiate]
  split
  · split
    · next h => exact h
    · exact hlatest
  · exact hlatest

/-- **What is agreed on passes the guard.** -/
theorem checkProtocolVersion_negotiate (params : Value F64) :
    checkProtocolVersion (some (headerBytes (negotiate params))) = true := by
  have h : ∀ v ∈ supportedVersions, checkProtocolVersion (some (headerBytes v)) = true := by decide
  exact h _ (negotiate_mem params)

end Mcp

end Aniani
