import Aniani.Ingest.Logs
import Aniani.Mcp.Args
import Aniani.Query.HexIds

/-!
# The JSON of a Loki push

A push is a list of streams, each a map of labels and a list of values. A value is an array of a
time, a line and, if there is one, a map of metadata, in which the ids of the trace and of the span
are members like the others.

## Main definitions

* `JsonStream` — a stream as it is in JSON
* `parseLokiMetadata`, `RawLokiValue.read`, `JsonStream.read` — what the ingest makes of it

## Main results

* `parseI64_toString`, `bind_parseHexId_hexText` — numbers and ids are read back
* `parseLokiMetadata_spec` — the members of the metadata that are not ids are its attributes
-/

namespace Aniani

variable {F64 : Type}

/-! ### Reading -/

/-- `LokiStream`, in JSON. -/
structure JsonStream (F64 : Type) where
  stream : Mcp.JsonObject F64
  values : List (List (JsonValue F64))

/-- `LokiValue`. -/
structure RawLokiValue (F64 : Type) where
  ts : String
  line : String
  metadata : Option (List (String × JsonValue F64))

section Read

variable (json : JsonCrate F64)

/-- A string as it is, and any other value as its JSON. -/
def jsonText : JsonValue F64 → String
  | .string s => s
  | other => json.display other

/-- A time is a string or a number. -/
def jsonTime : JsonValue F64 → Option String
  | .string s => some s
  | .posInt n => some (json.display (.posInt n))
  | .negInt i => some (json.display (.negInt i))
  | .float f => some (json.display (.float f))
  | _ => none

/-- `deserialize_log_values`, of one entry. -/
def deserializeLogValue : List (JsonValue F64) → Option (RawLokiValue F64)
  | ts :: line :: rest => (jsonTime json ts).map fun ts =>
      ⟨ts, jsonText json line, rest.head?.bind JsonValue.asObject⟩
  | _ => none

/-- The members of the metadata that hold the id of the trace, and of the span. -/
def traceKeys : List String := ["trace_id", "traceId"]

def spanKeys : List String := ["span_id", "spanId"]

/-- `ParsedMeta`. -/
structure ParsedMeta where
  traceId : Option TraceId
  spanId : Option SpanId
  attrs : List (String × String)
  deriving DecidableEq

/-- One turn of the loop over the metadata: an id that is not well formed takes away the one that
was read before. -/
def ParsedMeta.visit (parsed : ParsedMeta) (kv : String × JsonValue F64) : ParsedMeta :=
  let text := jsonText json kv.2
  if kv.1 ∈ traceKeys then
    { parsed with traceId := (parseHexTraceId text.toList).bind (tryInto 16) }
  else if kv.1 ∈ spanKeys then
    { parsed with spanId := (parseHexSpanId text.toList).bind (tryInto 8) }
  else { parsed with attrs := parsed.attrs ++ [(kv.1, text)] }

/-- `parse_loki_metadata`. -/
def parseLokiMetadata (metadata : List (String × JsonValue F64)) : ParsedMeta :=
  metadata.foldl (ParsedMeta.visit json) ⟨none, none, []⟩

/-- A value, and nothing if it has no time. -/
def RawLokiValue.read [FloatOps F64] (value : RawLokiValue F64) : Option LokiValue :=
  let parsed := (value.metadata.map (parseLokiMetadata json)).getD ⟨none, none, []⟩
  (parseTimestampNs F64 value.ts).pmap
    (fun timestampNs hmem =>
      { timestampNs := timestampNs
        timestampNs_mem := hmem
        line := value.line
        traceId := parsed.traceId
        spanId := parsed.spanId
        metadata := parsed.attrs })
    fun _ h => parseTimestampNs_mem F64 h

/-- A stream as `ingest_loki_push` reads it. -/
def JsonStream.read [FloatOps F64] (stream : JsonStream F64) : LokiStream where
  labels := stream.stream.entries.map fun kv => (kv.1, jsonText json kv.2)
  labels_nodup := by
    rw [List.map_map]
    exact stream.stream.nodup
  values := (stream.values.filterMap (deserializeLogValue json)).filterMap (RawLokiValue.read json)

end Read

/-! ### Numbers -/

theorem isDigit_of_mem_toDigits {n : ℕ} : ∀ c ∈ Nat.toDigits 10 n, c.isDigit = true :=
  fun _ hc => Nat.isDigit_of_mem_toDigits (b := 10) (by decide) (by decide) hc

theorem parseDigits_toDigits (n : ℕ) : parseDigits (Nat.toDigits 10 n) = some n := by
  have hdigits : Nat.toDigits 10 n ≠ [] ∧ (Nat.toDigits 10 n).all Char.isDigit = true :=
    ⟨Nat.toDigits_ne_nil, List.all_eq_true.mpr isDigit_of_mem_toDigits⟩
  rw [parseDigits, if_pos hdigits]
  exact congrArg some (Nat.ofDigitChars_ten_toDigits (n := n))

/-- The text of an integer is its digits, with a sign in front if it is negative. -/
theorem toList_toString (i : ℤ) :
    (toString i).toList = if i < 0 then '-' :: Nat.toDigits 10 i.natAbs
      else Nat.toDigits 10 i.natAbs := by
  rw [Int.toString_eq_repr, Int.repr_eq_if]
  split_ifs with h h' h'
  · omega
  · have habs : i.natAbs = i.toNat := by omega
    simp [habs]
  · have habs : i.natAbs = (-i).toNat := by omega
    simp [habs]
  · omega

/-- **The digits of an `i64` are read back.** -/
theorem parseI64_toString {i : ℤ} (h : i ∈ Set.Icc i64Min i64Max) :
    parseI64 (toString i) = some i := by
  have hrange : decide (i64Min ≤ i ∧ i ≤ i64Max) = true := decide_eq_true h
  rw [parseI64, toList_toString]
  split_ifs with hneg
  · have habs : -(i.natAbs : ℤ) = i := by omega
    simp only [parseDigits_toDigits]
    change Option.filter _ (some (-(i.natAbs : ℤ))) = some i
    rw [habs, Option.filter_some, if_pos hrange]
  · have habs : (i.natAbs : ℤ) = i := by omega
    cases hdigits : Nat.toDigits 10 i.natAbs with
    | nil => exact absurd hdigits Nat.toDigits_ne_nil
    | cons c digits =>
      have hc : c.isDigit = true := isDigit_of_mem_toDigits c (hdigits ▸ List.mem_cons_self)
      have hminus : c ≠ '-' := by rintro rfl; exact absurd hc (by decide)
      have hplus : c ≠ '+' := by rintro rfl; exact absurd hc (by decide)
      have hparse := parseDigits_toDigits i.natAbs
      rw [hdigits] at hparse
      split
      · next heq => exact absurd (List.cons.inj heq).1 hminus
      · next heq => exact absurd (List.cons.inj heq).1 hplus
      · simp only [hparse]
        change Option.filter _ (some (i.natAbs : ℤ)) = some i
        rw [habs, Option.filter_some, if_pos hrange]

/-- A number has no white space around it. -/
theorem strTrim_toString (i : ℤ) : strTrim (toString i) = toString i := by
  have hwhite : ∀ c ∈ (toString i).toList, Text.isWhitespace c = false := by
    intro c hc
    rw [toList_toString] at hc
    split_ifs at hc
    · rcases List.mem_cons.mp hc with rfl | hc
      · decide
      · exact not_isWhitespace_of_isDigit (isDigit_of_mem_toDigits c hc)
    · exact not_isWhitespace_of_isDigit (isDigit_of_mem_toDigits c hc)
  rw [strTrim, Text.trim_eq_self hwhite, String.ofList_toList]

/-- A time is read as one of the unit that its size tells. -/
theorem parseTimestampNs_toString (F64 : Type) [FloatOps F64] {i : ℤ}
    (h : i ∈ Set.Icc i64Min i64Max) :
    parseTimestampNs F64 (toString i) = some (classifyToNs i) := by
  rw [parseTimestampNs, strTrim_toString, parseI64_toString h]

/-- The times that are read as nanoseconds. -/
theorem classifyToNs_eq_self_iff {n : ℤ} (h : n ∈ Set.Icc i64Min i64Max) :
    classifyToNs n = n ↔ 10 ^ 18 < n ∨ n = 0 ∨ n = i64Min := by
  obtain ⟨hmin, hmax⟩ := h
  simp only [i64Min, i64Max] at hmin hmax ⊢
  rw [classifyToNs]
  simp only [i64SaturatingMul, i64Min, i64Max]
  split_ifs <;> omega

/-! ### Ids -/

theorem tryInto_toList {n : ℕ} (id : Vector UInt8 n) : tryInto n id.toList = some id := by
  have hlength : id.toList.length = n := by simp
  rw [tryInto, dif_pos hlength]
  exact congrArg some (Vector.toArray_inj.mp Array.toArray_toList)

/-- An id is read back from its digits. -/
theorem bind_parseHexId_hexText {n : ℕ} (id : Option (Vector UInt8 n)) :
    ((id.map fun id => hexText id.toList).bind fun text =>
      (HexIds.parseHexId n text.toList).bind (tryInto n)) = id := by
  cases id with
  | none => rfl
  | some id =>
    have hlength : id.toList.length = n := by simp
    rw [Option.map_some, Option.bind_some, HexIds.parseHexId_hexText hlength, Option.bind_some,
      tryInto_toList]

/-! ### Metadata -/

section Metadata

variable (json : JsonCrate F64)

/-- The last of the members with a key among some. -/
def lastOf (keys : List String) (metadata : List (String × JsonValue F64)) : Option String :=
  ((metadata.filter fun kv => kv.1 ∈ keys).getLast?).map fun kv => jsonText json kv.2

theorem lastOf_concat (keys : List String) (metadata : List (String × JsonValue F64))
    (kv : String × JsonValue F64) : lastOf json keys (metadata ++ [kv]) =
      if kv.1 ∈ keys then some (jsonText json kv.2) else lastOf json keys metadata := by
  rw [lastOf, List.filter_append]
  split_ifs with h
  · simp [h]
  · simp [h, lastOf]

/-- **What the metadata is read as**: the last id of each kind, and the rest. -/
theorem parseLokiMetadata_spec (metadata : List (String × JsonValue F64)) :
    parseLokiMetadata json metadata =
      { traceId := (lastOf json traceKeys metadata).bind fun text =>
          (parseHexTraceId text.toList).bind (tryInto 16)
        spanId := (lastOf json spanKeys metadata).bind fun text =>
          (parseHexSpanId text.toList).bind (tryInto 8)
        attrs := (metadata.filter fun kv => kv.1 ∉ traceKeys ++ spanKeys).map fun kv =>
          (kv.1, jsonText json kv.2) } := by
  have hdisjoint : ∀ key ∈ traceKeys, key ∉ spanKeys := by decide
  induction metadata using List.reverseRecOn with
  | nil => rfl
  | append_singleton metadata kv ih =>
    rw [parseLokiMetadata] at ih
    rw [parseLokiMetadata, List.foldl_append, List.foldl_cons, List.foldl_nil, ih,
      ParsedMeta.visit, lastOf_concat, lastOf_concat, List.filter_append, List.map_append]
    dsimp only
    by_cases htrace : kv.1 ∈ traceKeys
    · have hspan := hdisjoint _ htrace
      simp [htrace, hspan]
    · by_cases hspan : kv.1 ∈ spanKeys
      · simp [htrace, hspan]
      · simp [htrace, hspan]

end Metadata

end Aniani
