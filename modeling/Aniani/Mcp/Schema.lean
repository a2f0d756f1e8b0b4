import Aniani.Mcp.Protocol
import Mathlib.Data.Rat.Cast.Order

/-!
# Schemas

What JSON Schema says of the keywords that the tools' schemas are made of, and the arguments those
schemas describe. A client that checks its arguments against the schema of a tool, and writes its
integers without a fraction, sends what the tool takes, and nothing else is taken.

The keyword `integer` admits a float that has no fraction; the tools refuse it.

## Main definitions

* `HasType`, `MeetsKeywords`, `Meets` — a value meets a schema
* `WritesIntegers` — no integer is written as a float

## Main results

* `conforms_iff_meets` — the calls a declaration describes are those its schema describes
-/

namespace Aniani

namespace Mcp

variable {F64 : Type}

/-! ### JSON Schema -/

section Schema

variable (R : F64 → Option ℚ)

/-- A number, given what finite floats stand for. -/
def numberOf : JsonValue F64 → Option ℚ
  | .posInt n => some n
  | .negInt i => some i
  | .float f => R f
  | _ => none

/-- A value has a type. -/
def HasType (type : String) : JsonValue F64 → Prop
  | .null => type = "null"
  | .bool _ => type = "boolean"
  | .string _ => type = "string"
  | .array _ => type = "array"
  | .object _ => type = "object"
  | v => type = "number" ∨ type = "integer" ∧ ∃ i : ℤ, numberOf R v = some (i : ℚ)

/-- The keywords that look at a value as a whole. -/
structure MeetsKeywords (schema value : JsonValue F64) : Prop where
  type : ∀ t, schema.get "type" = some (.string t) → HasType R t value
  enum : ∀ allowed, schema.get "enum" = some (.array allowed) → value ∈ allowed
  minimum : ∀ m ∈ (schema.get "minimum").bind (numberOf R), ∀ q ∈ numberOf R value, m ≤ q
  maximum : ∀ m ∈ (schema.get "maximum").bind (numberOf R), ∀ q ∈ numberOf R value, q ≤ m
  required : ∀ names, schema.get "required" = some (.array names) → ∀ name, .string name ∈ names →
    ∀ entries, value = .object entries → (entries.lookup name).isSome

mutual

/-- **A value meets a schema**, by its keywords and those of its properties. -/
def Meets : JsonValue F64 → JsonValue F64 → Prop
  | schema, .object entries =>
    MeetsKeywords R schema (.object entries) ∧ MeetsProperties schema entries
  | schema, value => MeetsKeywords R schema value

/-- The entries of an object meet the schemas of their keys. -/
def MeetsProperties : JsonValue F64 → List (String × JsonValue F64) → Prop
  | _, [] => True
  | schema, (key, value) :: entries =>
    (match (schema.get "properties").bind (JsonValue.get key) with
      | some spec => Meets spec value
      | none => schema.get "additionalProperties" ≠ some (.bool false)) ∧
    MeetsProperties schema entries

end

variable {R}

theorem Meets.keywords {schema value : JsonValue F64} (h : Meets R schema value) :
    MeetsKeywords R schema value := by
  cases value with
  | object entries => exact h.1
  | _ => exact h

/-- A schema without `properties` that takes any key looks at a value as a whole only. -/
theorem meets_iff_of_open {schema value : JsonValue F64} (hprops : schema.get "properties" = none)
    (hopen : schema.get "additionalProperties" = none) :
    Meets R schema value ↔ MeetsKeywords R schema value := by
  refine ⟨Meets.keywords, fun h => ?_⟩
  cases value with
  | object entries =>
    refine ⟨h, ?_⟩
    clear h
    induction entries with
    | nil => exact trivial
    | cons entry entries ih =>
      obtain ⟨key, value⟩ := entry
      refine ⟨?_, ih⟩
      rw [hprops, hopen]
      exact nofun
  | _ => exact h

/-- In a schema that is closed, every key has a property. -/
theorem meetsProperties_iff_of_closed {schema : JsonValue F64}
    {props : List (String × JsonValue F64)}
    (hprops : schema.get "properties" = some (.object props))
    (hclosed : schema.get "additionalProperties" = some (.bool false))
    {entries : List (String × JsonValue F64)} :
    MeetsProperties R schema entries ↔
      ∀ entry ∈ entries, ∃ spec, props.lookup entry.1 = some spec ∧ Meets R spec entry.2 := by
  induction entries with
  | nil => exact ⟨fun _ _ h => absurd h List.not_mem_nil, fun _ => trivial⟩
  | cons entry entries ih =>
    obtain ⟨key, value⟩ := entry
    rw [MeetsProperties, ih, List.forall_mem_cons, hprops, hclosed]
    refine and_congr_left fun _ => ?_
    rw [Option.bind_some, JsonValue.get]
    cases props.lookup key with
    | none => simp
    | some spec => simp

end Schema

/-! ### The schemas of the tools -/

/-- The type of an integer, or of one that may be left out. -/
def ArgType.isInteger : ArgType → Bool
  | .u64 => true
  | .option ty => ty.isInteger
  | _ => false

/-- No value of a property that is an `integer` is written as a float. -/
def WritesIntegers (schema : JsonValue F64) (given : JsonObject F64) : Prop :=
  ∀ key spec, (schema.get "properties").bind (JsonValue.get key) = some spec →
    spec.get "type" = some (.string "integer") → ∀ x, given.get key ≠ some (.float x)

section Tools

variable {R : F64 → Option ℚ}

theorem get_type_argSchema_iff (ty : ArgType) :
    ty.argSchema.get "type" = some (JsonValue.string "integer" : JsonValue F64) ↔
      ty.isInteger = true := by
  induction ty with
  | option ty ih => exact ih
  | _ => simp [ArgType.argSchema, ArgType.isInteger, JsonValue.get, List.lookup_cons]

theorem writesIntegers_iff (args : ToolArgs) (given : JsonObject F64) :
    WritesIntegers args.schema given ↔
      ∀ f ∈ args.fields, f.ty.isInteger = true → ∀ x, given.get f.name ≠ some (.float x) := by
  constructor
  · intro h f hf hint
    exact h f.name f.ty.argSchema ((lookup_properties args _ _).mpr ⟨f, hf, rfl, rfl⟩)
      ((get_type_argSchema_iff f.ty).mpr hint)
  · intro h key spec hspec htype
    obtain ⟨f, hf, rfl, rfl⟩ := (lookup_properties args key spec).mp hspec
    exact h f hf ((get_type_argSchema_iff f.ty).mp htype)

theorem fits_string_iff_meets {value : JsonValue F64} :
    ArgType.string.Fits value ↔ Meets R ArgType.string.argSchema value := by
  rw [meets_iff_of_open rfl rfl]
  constructor
  · rintro ⟨s⟩
    exact ⟨fun t ht => (JsonValue.string.inj (Option.some.inj ht)).symm, nofun, nofun, nofun, nofun⟩
  · intro h
    have htype := h.type "string" rfl
    cases value with
    | string s => exact .string s
    | _ => exact absurd htype (by simp [HasType])

theorem fits_u64_iff_meets {value : JsonValue F64} (h : value.IsValue) :
    ArgType.u64.Fits value ↔
      Meets R ArgType.u64.argSchema value ∧ ∀ f, value ≠ .float f := by
  rw [meets_iff_of_open rfl rfl]
  constructor
  · rintro (_ | @⟨n, hn⟩)
    refine ⟨⟨fun t ht => ?_, nofun, fun m hm q hq => ?_, fun m hm q hq => ?_, nofun⟩, nofun⟩
    · exact .inr ⟨(JsonValue.string.inj (Option.some.inj ht)).symm, n, rfl⟩
    · obtain rfl := Option.some.inj hm
      obtain rfl := Option.some.inj hq
      exact_mod_cast n.zero_le
    · obtain rfl := Option.some.inj hm
      obtain rfl := Option.some.inj hq
      exact_mod_cast hn
  · rintro ⟨hmeets, hfloat⟩
    have htype := hmeets.type "integer" rfl
    cases value with
    | posInt n => exact .u64 h
    | negInt i =>
      have hle : ((0 : ℕ) : ℚ) ≤ (i : ℚ) := hmeets.minimum _ rfl _ rfl
      have hneg : i < 0 := h.2
      exact absurd (by exact_mod_cast hle : 0 ≤ i) (not_le.mpr hneg)
    | float f => exact absurd rfl (hfloat f)
    | _ => exact absurd htype (by simp [HasType])

theorem fits_strEnum_iff_meets {texts : List String} {value : JsonValue F64} :
    (ArgType.strEnum texts).Fits value ↔
      Meets R (ArgType.strEnum texts).argSchema value := by
  rw [meets_iff_of_open rfl rfl]
  constructor
  · rintro (_ | _ | htext)
    refine ⟨fun t ht => (JsonValue.string.inj (Option.some.inj ht)).symm, fun allowed h => ?_,
      nofun,
      nofun, nofun⟩
    obtain rfl := JsonValue.array.inj (Option.some.inj h)
    exact List.mem_map_of_mem htext
  · intro h
    obtain ⟨text, htext, rfl⟩ := List.mem_map.mp (h.enum _ rfl)
    exact .strEnum htext

/-- **A value fits a type** exactly if it meets the schema of the type, and is no float where the
type is of integers. -/
theorem fits_iff_meets {ty : ArgType} {value : JsonValue F64} (h : value.IsValue) :
    ty.Fits value ↔
      Meets R ty.argSchema value ∧ (ty.isInteger = true → ∀ f, value ≠ .float f) := by
  induction ty with
  | string => simpa [ArgType.isInteger] using fits_string_iff_meets
  | u64 => simpa [ArgType.isInteger] using fits_u64_iff_meets h
  | strEnum texts => simpa [ArgType.isInteger] using fits_strEnum_iff_meets
  | option ty ih =>
    exact ⟨fun | .option hfits => ih.mp hfits, fun hmeets => .option (ih.mpr hmeets)⟩

/-- The keywords of a declaration's schema ask for the fields that are not optional. -/
theorem meetsKeywords_schema_iff (args : ToolArgs) (entries : List (String × JsonValue F64)) :
    MeetsKeywords R args.schema (.object entries) ↔
      ∀ name ∈ requiredNames args.fields, (entries.lookup name).isSome := by
  have hrequired : ∀ names, args.schema.get "required" = some (.array names) ↔
      requiredNames args.fields ≠ [] ∧
        (requiredNames args.fields).map (JsonValue.string : String → JsonValue F64) = names := by
    intro names
    rw [ToolArgs.schema]
    cases requiredNames args.fields with
    | nil => simp [JsonValue.get, List.lookup_cons]
    | cons name required => simp [JsonValue.get, List.lookup_cons]
  have hnone : ∀ key ∈ ["enum", "minimum", "maximum"],
      args.schema.get key = (none : Option (JsonValue F64)) := by
    intro key hkey
    have hkey : key = "enum" ∨ key = "minimum" ∨ key = "maximum" := by simpa using hkey
    rw [ToolArgs.schema]
    obtain rfl | rfl | rfl := hkey <;> cases requiredNames args.fields <;> rfl
  have htype : args.schema.get "type" = some (JsonValue.string "object" : JsonValue F64) := by
    rw [ToolArgs.schema]
    cases requiredNames args.fields <;> rfl
  constructor
  · intro h name hname
    exact h.required _ ((hrequired _).mpr ⟨List.ne_nil_of_mem hname, rfl⟩) name
      (List.mem_map_of_mem hname) entries rfl
  · intro h
    refine ⟨fun t ht => ?_, fun allowed hallowed => ?_, fun m hm => ?_, fun m hm => ?_,
      fun names hnames name hname entries' heq => ?_⟩
    · exact (JsonValue.string.inj (Option.some.inj (htype.symm.trans ht))).symm
    · exact absurd (hallowed.symm.trans (hnone "enum" (by simp))) (Option.some_ne_none _)
    · rw [hnone "minimum" (by simp)] at hm
      exact absurd hm (Option.not_mem_none m)
    · rw [hnone "maximum" (by simp)] at hm
      exact absurd hm (Option.not_mem_none m)
    · obtain ⟨-, rfl⟩ := (hrequired names).mp hnames
      obtain ⟨name', hname', heq'⟩ := List.mem_map.mp hname
      obtain rfl := JsonValue.string.inj heq'
      obtain rfl := JsonValue.object.inj heq
      exact h name' hname'

/-- **The calls a declaration describes** are those its schema describes, with no integer written as
a float. -/
theorem conforms_iff_meets (args : ToolArgs) (given : JsonObject F64)
    (hgiven : JsonValue.AreEntries given.entries) :
    Conforms args.fields given ↔
      Meets R args.schema (.object given.entries) ∧ WritesIntegers args.schema given := by
  have hget : ∀ key value, given.get key = some value ↔ (key, value) ∈ given.entries :=
    lookup_eq_some_iff_mem given.nodup
  have hmeets : Meets R args.schema (.object given.entries) ↔
      (∀ name ∈ requiredNames args.fields, (given.get name).isSome) ∧ ∀ entry ∈ given.entries,
        ∃ f ∈ args.fields, f.name = entry.1 ∧ Meets R f.ty.argSchema entry.2 := by
    rw [Meets, meetsKeywords_schema_iff, meetsProperties_iff_of_closed rfl rfl]
    refine and_congr_right fun _ => forall₂_congr fun entry _ => ?_
    simp only [lookup_properties]
    constructor
    · rintro ⟨spec, ⟨f, hf, hname, rfl⟩, h⟩
      exact ⟨f, hf, hname, h⟩
    · rintro ⟨f, hf, hname, h⟩
      exact ⟨_, ⟨f, hf, hname, rfl⟩, h⟩
  rw [hmeets, writesIntegers_iff]
  constructor
  · intro h
    refine ⟨⟨fun name hname => ?_, fun entry hentry => ?_⟩, fun f hf hint x hx => ?_⟩
    · obtain ⟨f, hf, rfl⟩ := List.mem_map.mp hname
      obtain ⟨hf, hopt⟩ := List.mem_filter.mp hf
      exact h.required f hf (by simpa using hopt)
    · have hvalue := (hget entry.1 entry.2).mpr hentry
      obtain ⟨f, hf, hname⟩ := h.declared _ _ hvalue
      exact ⟨f, hf, hname, ((fits_iff_meets (hgiven.of_lookup hvalue)).mp
        (h.fits f hf _ (hname ▸ hvalue))).1⟩
    · exact ((fits_iff_meets (R := R) (hgiven.of_lookup hx)).mp (h.fits f hf _ hx)).2 hint x
        rfl
  · rintro ⟨⟨hrequired, hentries⟩, hfloat⟩
    refine ⟨fun key value hvalue => ?_, fun f hf value hvalue => ?_, fun f hf hopt => ?_⟩
    · obtain ⟨f, hf, hname, -⟩ := hentries _ ((hget key value).mp hvalue)
      exact ⟨f, hf, hname⟩
    · obtain ⟨f', hf', hname, h⟩ := hentries _ ((hget f.name value).mp hvalue)
      obtain rfl := List.inj_on_of_nodup_map args.nodup hf' hf hname
      exact (fits_iff_meets (hgiven.of_lookup hvalue)).mpr ⟨h, fun hint x hx =>
        hfloat f' hf hint x (hx ▸ hvalue)⟩
    · exact hrequired f.name (List.mem_map.mpr ⟨f, List.mem_filter.mpr ⟨hf, by simp [hopt]⟩, rfl⟩)

end Tools

end Mcp

end Aniani
