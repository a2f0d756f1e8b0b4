import Aniani.Query.Text

/-!
# Tool arguments

The arguments of a tool are declared once, as a list of fields. From it come the schema that is
advertised, the checks a call has to pass, and the struct the handler reads. A call is checked
against the schema first, and what passes is deserialized.

## Main definitions

* `ToolArgs`, `ToolArgs.schema` — a declaration and its schema
* `problem` — why a call is refused
* `fromValue` — the derived deserialization
* `parse` — the two in order
* `Conforms` — the calls the declaration describes

## Main results

* `problem_eq_none_iff` — the checks let through what the declaration describes
* `parse_iff_conforms` — so does `parse`, and the struct reads back as the call
-/

namespace Aniani

variable {F64 : Type}

/-! ### JSON values -/

namespace JsonValue

/-- `Value::get` of a key. -/
def get (key : String) : JsonValue F64 → Option (JsonValue F64)
  | .object entries => entries.lookup key
  | _ => none

/-- `Value::as_object`. -/
def asObject : JsonValue F64 → Option (List (String × JsonValue F64))
  | .object entries => some entries
  | _ => none

/-- `Value::as_array`. -/
def asArray : JsonValue F64 → Option (List (JsonValue F64))
  | .array values => some values
  | _ => none

/-- `Value::as_str`. -/
def asStr : JsonValue F64 → Option String
  | .string s => some s
  | _ => none

/-- `Value::is_u64`. -/
def isU64 : JsonValue F64 → Bool
  | .posInt n => decide (n ≤ u64Max)
  | _ => false

/-- `Value::is_number`. -/
def isNumber : JsonValue F64 → Bool
  | .posInt _ | .negInt _ | .float _ => true
  | _ => false

/-- `Value::is_boolean`. -/
def isBoolean : JsonValue F64 → Bool
  | .bool _ => true
  | _ => false

mutual

/-- `==` of `Value`. -/
def beq [FloatOps F64] : JsonValue F64 → JsonValue F64 → Bool
  | .null, .null => true
  | .bool a, .bool b => a == b
  | .posInt m, .posInt n => m == n
  | .negInt i, .negInt j => i == j
  | .float f, .float g => FloatOps.eq f g
  | .string s, .string t => s == t
  | .array vs, .array ws => beqAll vs ws
  | .object vs, .object ws => beqEntries vs ws
  | _, _ => false

/-- The elements of two arrays. -/
def beqAll [FloatOps F64] : List (JsonValue F64) → List (JsonValue F64) → Bool
  | [], [] => true
  | v :: vs, w :: ws => beq v w && beqAll vs ws
  | _, _ => false

/-- The entries of two objects. -/
def beqEntries [FloatOps F64] :
    List (String × JsonValue F64) → List (String × JsonValue F64) → Bool
  | [], [] => true
  | (k, v) :: vs, (l, w) :: ws => k == l && beq v w && beqEntries vs ws
  | _, _ => false

end

end JsonValue

namespace Mcp

/-- A `serde_json::Map`, in the order it is walked in. -/
structure JsonObject (F64 : Type) where
  entries : List (String × JsonValue F64)
  /-- No key is there twice. -/
  nodup : (entries.map Prod.fst).Nodup

/-- The value of a key. -/
def JsonObject.get (given : JsonObject F64) (key : String) : Option (JsonValue F64) :=
  given.entries.lookup key

/-- A `Map` from pairs with distinct keys: a tree map, walked in the order of its keys. -/
def mapFromIter (pairs : List (String × JsonValue F64)) : List (String × JsonValue F64) :=
  pairs.insertionSort fun a b => a.1 ≤ b.1

/-! ### Declarations -/

/-- A type with an `ArgType` impl. An enum is declared by the wire spellings of its variants. -/
inductive ArgType where
  | string
  | u64
  | strEnum (texts : List String)
  | option (ty : ArgType)

namespace ArgType

/-- The values of a type. An enum value is told by its wire spelling, `as_str`. -/
def Value : ArgType → Type
  | string => String
  | u64 => {n : ℕ // n ≤ u64Max}
  | strEnum texts => {text : String // text ∈ texts}
  | option ty => Option ty.Value

/-- `ArgType::OPTIONAL`. -/
def optional : ArgType → Bool
  | option _ => true
  | _ => false

/-- `ArgType::arg_schema`. -/
def argSchema : ArgType → JsonValue F64
  | string => .object [("type", .string "string")]
  | u64 =>
    .object [("maximum", .posInt u64Max), ("minimum", .posInt 0), ("type", .string "integer")]
  | strEnum texts =>
    .object [("enum", .array (texts.map .string)), ("type", .string "string")]
  | option ty => ty.argSchema

end ArgType

/-- A declared field. -/
structure Field where
  name : String
  ty : ArgType

/-- A declaration by `tool_args!`. -/
structure ToolArgs where
  /-- `ToolArgs::TOOL`. -/
  tool : String
  fields : List Field
  /-- A struct has no two fields of one name. -/
  nodup : (fields.map Field.name).Nodup

/-- The names of the fields that are not optional. -/
def requiredNames (fields : List Field) : List String :=
  (fields.filter fun f => !f.ty.optional).map Field.name

/-- `ToolArgs::schema`. -/
def ToolArgs.schema (args : ToolArgs) : JsonValue F64 :=
  let properties := mapFromIter (args.fields.map fun f => (f.name, f.ty.argSchema))
  let required := (requiredNames args.fields).map JsonValue.string
  .object ([("additionalProperties", .bool false), ("properties", .object properties)] ++
    (if required.isEmpty then [] else [("required", .array required)]) ++
    [("type", .string "object")])

/-! ### Checks -/

section Checks

variable [FloatOps F64] (display : JsonValue F64 → String) (tool : String)

/-- `type_matches`. -/
def typeMatches (expected : String) (value : JsonValue F64) : Bool :=
  match expected with
  | "string" => value.asStr.isSome
  | "integer" => value.isU64
  | "number" => value.isNumber
  | "boolean" => value.isBoolean
  | "object" => value.asObject.isSome
  | "array" => value.asArray.isSome
  | _ => true

/-- `type_expectation`. -/
def typeExpectation : String → String
  | "integer" => "a non-negative integer"
  | "string" => "a string"
  | "number" => "a number"
  | "boolean" => "a boolean"
  | "object" => "an object"
  | "array" => "an array"
  | other => other

/-- `type_name`. -/
def typeName : JsonValue F64 → String
  | .null => "null"
  | .bool _ => "boolean"
  | .posInt n => if n ≤ u64Max then "integer" else "number"
  | .negInt _ => "number"
  | .float _ => "number"
  | .string _ => "string"
  | .array _ => "array"
  | .object _ => "object"

/-- `names`. -/
def names (props : List (String × JsonValue F64)) (exclude : List String) : String :=
  ", ".intercalate
    (((props.map Prod.fst).filter fun name => decide (name ∉ exclude)).insertionSort (· ≤ ·))

/-- The message of a key that is not declared. -/
def unknownArgument (props : List (String × JsonValue F64)) (key : String) : String :=
  let accepts :=
    if props.isEmpty then tool ++ " takes no arguments" else tool ++ " accepts: " ++ names props []
  "unknown argument `" ++ key ++ "` — " ++ accepts ++
    ". Undeclared keys are not filters: they are never applied, so the result would have looked " ++
    "filtered when it was not. For span/resource attributes use a raw query string."

/-- The message of a value of the wrong type. -/
def wrongType (key expected : String) (value : JsonValue F64) : String :=
  "argument `" ++ key ++ "` must be " ++ typeExpectation expected ++ ", got " ++ typeName value ++
    " (" ++ display value ++ "). A value the handler cannot read is read as absent, so its " ++
    "filter would never have been applied."

/-- The message of a value that is not in the `enum`. -/
def notInEnum (key : String) (allowed : List (JsonValue F64)) (value : JsonValue F64) : String :=
  "invalid `" ++ key ++ "`: " ++ display value ++ ". Valid values: " ++
    ", ".intercalate (allowed.map display)

/-- What `problem` finds in one argument. -/
def argumentProblem (props : List (String × JsonValue F64)) (argument : String × JsonValue F64) :
    Option String :=
  match props.lookup argument.1 with
  | none => some (unknownArgument tool props argument.1)
  | some spec =>
    match ((spec.get "type").bind JsonValue.asStr).filter fun t => !typeMatches t argument.2 with
    | some expected => some (wrongType display argument.1 expected argument.2)
    | none =>
      match ((spec.get "enum").bind JsonValue.asArray).filter fun vs => !vs.any (·.beq argument.2) with
      | some allowed => some (notInEnum display argument.1 allowed argument.2)
      | none => none

/-- The message of an argument that is missing. -/
def missingArgument (props : List (String × JsonValue F64)) (required : List String)
    (missing : String) : String :=
  let optional := names props required
  "missing required argument `" ++ missing ++ "` — " ++ tool ++ " requires: " ++
    ", ".intercalate required ++ if optional.isEmpty then "" else "; optional: " ++ optional

/-- The names a schema requires. -/
def requiredOf (schema : JsonValue F64) : List String :=
  (((schema.get "required").bind JsonValue.asArray).getD []).filterMap JsonValue.asStr

/-- `problem`, of an object. -/
def problem (schema : JsonValue F64) (given : JsonObject F64) : Option String :=
  match (schema.get "properties").bind JsonValue.asObject with
  | none => none
  | some props =>
    match given.entries.findSome? (argumentProblem display tool props) with
    | some message => some message
    | none =>
      let required := requiredOf schema
      (required.find? fun key => (given.get key).isNone).map (missingArgument tool props required)

end Checks

/-! ### Deserialization

What the `Deserialize` of a struct is derived to do is what serde documents of its attributes: there
is a variable for each field, a key of no field is refused, so is a field that comes twice, and a
field that does not come is `None` if it is an option and refused if it is not. -/

/-- The struct of a declaration. -/
def Struct : List Field → Type
  | [] => Unit
  | f :: fields => f.ty.Value × Struct fields

/-- The local variables in which a derived visitor gathers the fields. -/
def Slots : List Field → Type
  | [] => Unit
  | f :: fields => Option f.ty.Value × Slots fields

/-- How values deserialize, and what the errors say. -/
class SerdeJson (F64 : Type) where
  /-- `String::deserialize`. -/
  string : JsonValue F64 → Except String String
  /-- `u64::deserialize`. -/
  u64 : JsonValue F64 → Except String {n : ℕ // n ≤ u64Max}
  /-- The derived `deserialize` of an enum whose variants are renamed. -/
  strEnum (texts : List String) : JsonValue F64 → Except String {text : String // text ∈ texts}
  unknownField : String → List String → String
  duplicateField : String → String
  missingField : String → String
  /-- A string is read from a string. -/
  string_string (s : String) : string (.string s) = .ok s
  /-- An integer is read from an integer. -/
  u64_posInt {n : ℕ} (h : n ≤ u64Max) : u64 (.posInt n) = .ok ⟨n, h⟩
  /-- A variant is read from its name. -/
  strEnum_string {texts : List String} {text : String} (h : text ∈ texts) :
    strEnum texts (.string text) = .ok ⟨text, h⟩

section Deserialization

variable [SerdeJson F64]

/-- `deserialize` of a field's type: an option is read from `null` or from its value. -/
def ArgType.deserialize : (ty : ArgType) → JsonValue F64 → Except String ty.Value
  | .string, value => SerdeJson.string value
  | .u64, value => SerdeJson.u64 value
  | .strEnum texts, value => SerdeJson.strEnum texts value
  | .option _, .null => .ok none
  | .option ty, value => (ty.deserialize value).map some

variable (F64)

/-- `missing_field`: an option that is not there is `None`. -/
def missingField (name : String) : (ty : ArgType) → Except String ty.Value
  | .option _ => .ok none
  | _ => .error (SerdeJson.missingField F64 name)

/-- The visitor fills no variable before it sees a key. -/
def Slots.empty : (fields : List Field) → Slots fields
  | [] => ()
  | _ :: fields => (none, Slots.empty fields)

variable {F64}

/-- One entry that the visitor sees, in a struct with `deny_unknown_fields`. -/
def visitEntry (declared : List String) (key : String) (value : JsonValue F64) :
    (fields : List Field) → Slots fields → Except String (Slots fields)
  | [], _ => .error (SerdeJson.unknownField F64 key declared)
  | f :: fields, (slot, slots) =>
    if key = f.name then
      if slot.isSome then .error (SerdeJson.duplicateField F64 key)
      else (f.ty.deserialize value).map fun v => (some v, slots)
    else (visitEntry declared key value fields slots).map fun slots => (slot, slots)

variable (F64)

/-- The struct, once the visitor has seen all entries. -/
def finish : (fields : List Field) → Slots fields → Except String (Struct fields)
  | [], _ => .ok ()
  | f :: fields, (slot, slots) =>
    match slot with
    | some v => (finish fields slots).map fun rest => (v, rest)
    | none => (missingField F64 f.name f.ty).bind fun v =>
      (finish fields slots).map fun rest => (v, rest)

variable {F64}

/-- `serde_json::from_value`, of an object. -/
def fromValue (fields : List Field) (given : JsonObject F64) : Except String (Struct fields) :=
  (given.entries.foldlM (fun slots entry =>
    visitEntry (fields.map Field.name) entry.1 entry.2 fields slots) (Slots.empty fields)).bind
      (finish F64 fields)

/-- `parse`. -/
def parse [FloatOps F64] (display : JsonValue F64 → String) (args : ToolArgs)
    (given : JsonObject F64) : Except String (Struct args.fields) :=
  match problem display args.tool args.schema given with
  | some message => .error message
  | none => (fromValue args.fields given).mapError fun e =>
    args.tool ++ " could not read these arguments: " ++ e

end Deserialization

/-! ### What a declaration describes -/

/-- A value fits a type. A `null` fits none. -/
inductive ArgType.Fits : ArgType → JsonValue F64 → Prop
  | string (s : String) : Fits .string (.string s)
  | u64 {n : ℕ} (h : n ≤ u64Max) : Fits .u64 (.posInt n)
  | strEnum {texts : List String} {text : String} (h : text ∈ texts) :
      Fits (.strEnum texts) (.string text)
  | option {ty : ArgType} {value : JsonValue F64} (h : ty.Fits value) : Fits (.option ty) value

/-- Every key is declared, every value fits, and every required field is there. -/
structure Conforms (fields : List Field) (given : JsonObject F64) : Prop where
  declared : ∀ key value, given.get key = some value → ∃ f ∈ fields, f.name = key
  fits : ∀ f ∈ fields, ∀ value, given.get f.name = some value → f.ty.Fits value
  required : ∀ f ∈ fields, f.ty.optional = false → (given.get f.name).isSome

/-- A value of a type as it was given: `None` is not. -/
def ArgType.toJson : (ty : ArgType) → ty.Value → Option (JsonValue F64)
  | .string, s => some (.string s)
  | .u64, n => some (.posInt n.1)
  | .strEnum _, text => some (.string text.1)
  | .option _, none => none
  | .option ty, some v => ty.toJson v

/-- The value of the field of a name, as it was given. -/
def Struct.read (name : String) : (fields : List Field) → Struct fields → Option (JsonValue F64)
  | [], _ => none
  | f :: fields, (v, rest) => if name = f.name then f.ty.toJson v else rest.read name fields

/-! ### The checks -/

section Lookup

variable {β : Type}

theorem lookup_eq_some_iff_mem {l : List (String × β)} (h : (l.map Prod.fst).Nodup) (key : String)
    (v : β) : l.lookup key = some v ↔ (key, v) ∈ l := by
  induction l with
  | nil => simp
  | cons entry l ih =>
    obtain ⟨k, w⟩ := entry
    obtain ⟨hk, hl⟩ := List.nodup_cons.mp h
    rw [List.lookup_cons, List.mem_cons]
    by_cases heq : key = k
    · subst heq
      have hv : (key, v) ∉ l := fun hv => hk (List.mem_map.mpr ⟨(key, v), hv, rfl⟩)
      simp [hv, eq_comm]
    · rw [beq_false_of_ne heq]
      simp [heq, ih hl]

end Lookup

/-- The properties of a schema are those of the fields. -/
theorem lookup_properties (args : ToolArgs) (key : String) (spec : JsonValue F64) :
    (mapFromIter (args.fields.map fun f => (f.name, f.ty.argSchema))).lookup key = some spec ↔
      ∃ f ∈ args.fields, f.name = key ∧ f.ty.argSchema = spec := by
  have hperm := List.perm_insertionSort (fun a b : String × JsonValue F64 => a.1 ≤ b.1)
    (args.fields.map fun f => (f.name, f.ty.argSchema))
  have hnodup : ((args.fields.map fun f => (f.name, (f.ty.argSchema : JsonValue F64))).map
      Prod.fst).Nodup := by
    rw [List.map_map]
    exact args.nodup
  rw [mapFromIter, lookup_eq_some_iff_mem ((hperm.map Prod.fst).nodup_iff.mpr hnodup),
    hperm.mem_iff]
  simp [Prod.ext_iff]

section Checked

variable [FloatOps F64] (display : JsonValue F64 → String) (tool : String)

/-- The checks of an argument that has a schema. -/
theorem argumentProblem_of_lookup {props : List (String × JsonValue F64)}
    {argument : String × JsonValue F64} {spec : JsonValue F64} {expected : String}
    (hspec : props.lookup argument.1 = some spec)
    (htype : spec.get "type" = some (.string expected)) :
    argumentProblem display tool props argument = none ↔
      typeMatches expected argument.2 = true ∧
        ∀ allowed ∈ (spec.get "enum").bind JsonValue.asArray,
          (allowed.any (·.beq argument.2)) = true := by
  simp only [argumentProblem, hspec, htype]
  cases hmatch : typeMatches expected argument.2 with
  | false => simp [JsonValue.asStr, Option.filter_some, hmatch]
  | true =>
    simp only [Option.bind_some, JsonValue.asStr, hmatch, Bool.not_true, Option.filter_some]
    cases (spec.get "enum").bind JsonValue.asArray with
    | none => simp
    | some allowed =>
      simp only [Option.filter_some, Option.mem_def, Option.some.injEq, forall_eq']
      cases allowed.any (·.beq argument.2) <;> simp

theorem beq_string (text : String) (value : JsonValue F64) :
    (JsonValue.string text).beq value = true ↔ value = .string text := by
  cases value with
  | string s =>
    rw [JsonValue.beq, beq_iff_eq, JsonValue.string.injEq]
    exact eq_comm
  | _ => simp [JsonValue.beq]

omit [FloatOps F64] in
theorem fits_string_iff (value : JsonValue F64) :
    ArgType.string.Fits value ↔ typeMatches "string" value = true := by
  constructor
  · rintro ⟨s⟩
    rfl
  · intro h
    cases value with
    | string s => exact ArgType.Fits.string s
    | _ => exact absurd h (by simp [typeMatches, JsonValue.asStr])

omit [FloatOps F64] in
theorem fits_u64_iff (value : JsonValue F64) :
    ArgType.u64.Fits value ↔ typeMatches "integer" value = true := by
  constructor
  · rintro (_ | h)
    exact decide_eq_true h
  · intro h
    cases value with
    | posInt n => exact ArgType.Fits.u64 (of_decide_eq_true h)
    | _ => exact absurd h (by simp [typeMatches, JsonValue.isU64])

omit [FloatOps F64] in
theorem fits_strEnum_iff (texts : List String) (value : JsonValue F64) :
    (ArgType.strEnum texts).Fits value ↔
      typeMatches "string" value = true ∧ ∃ text ∈ texts, value = .string text := by
  constructor
  · rintro (_ | _ | h)
    exact ⟨rfl, _, h, rfl⟩
  · rintro ⟨-, text, h, rfl⟩
    exact ArgType.Fits.strEnum h

omit [FloatOps F64] in
theorem not_fits_null (ty : ArgType) : ¬ ty.Fits (JsonValue.null : JsonValue F64) := by
  induction ty with
  | option ty ih => exact fun | .option h => ih h
  | _ => rintro ⟨⟩

/-- An argument of a declared type passes the checks when it fits. -/
theorem argumentProblem_eq_none_iff_fits {props : List (String × JsonValue F64)}
    {argument : String × JsonValue F64} {ty : ArgType}
    (h : props.lookup argument.1 = some ty.argSchema) :
    argumentProblem display tool props argument = none ↔ ty.Fits argument.2 := by
  induction ty with
  | string =>
    rw [argumentProblem_of_lookup display tool h rfl, fits_string_iff]
    exact and_iff_left fun allowed hallowed => absurd hallowed (Option.not_mem_none allowed)
  | u64 =>
    rw [argumentProblem_of_lookup display tool h rfl, fits_u64_iff]
    exact and_iff_left fun allowed hallowed => absurd hallowed (Option.not_mem_none allowed)
  | strEnum texts =>
    rw [argumentProblem_of_lookup display tool h rfl, fits_strEnum_iff]
    refine and_congr_right fun _ => ?_
    show (∀ allowed ∈ some (texts.map JsonValue.string), _) ↔ _
    simp [beq_string]
  | option ty ih =>
    rw [ih h]
    exact ⟨ArgType.Fits.option, fun | .option h => h⟩

/-- An argument passes the checks when it is declared and fits. -/
theorem argumentProblem_eq_none_iff (args : ToolArgs) (argument : String × JsonValue F64) :
    argumentProblem display tool (mapFromIter (args.fields.map fun f => (f.name, f.ty.argSchema)))
        argument = none ↔
      ∃ f ∈ args.fields, f.name = argument.1 ∧ f.ty.Fits argument.2 := by
  constructor
  · intro h
    cases hspec : (mapFromIter (args.fields.map fun f =>
        (f.name, (f.ty.argSchema : JsonValue F64)))).lookup argument.1 with
    | none =>
      rw [argumentProblem, hspec] at h
      exact absurd h (by simp)
    | some spec =>
      obtain ⟨f, hf, hname, rfl⟩ := (lookup_properties args argument.1 spec).mp hspec
      exact ⟨f, hf, hname, (argumentProblem_eq_none_iff_fits display tool hspec).mp h⟩
  · rintro ⟨f, hf, hname, hfits⟩
    have hspec := (lookup_properties args argument.1 (f.ty.argSchema : JsonValue F64)).mpr
      ⟨f, hf, hname, rfl⟩
    exact (argumentProblem_eq_none_iff_fits display tool hspec).mpr hfits

omit [FloatOps F64] in
/-- The schema requires the fields that are not optional. -/
theorem requiredOf_schema (args : ToolArgs) :
    requiredOf (args.schema : JsonValue F64) = requiredNames args.fields := by
  have hstr : ∀ required : List String,
      (required.map (JsonValue.string : String → JsonValue F64)).filterMap JsonValue.asStr =
        required := by
    intro required
    rw [List.filterMap_map]
    exact List.filterMap_some
  rw [requiredOf, ToolArgs.schema]
  cases hrequired : requiredNames args.fields with
  | nil => rfl
  | cons name required => exact hstr (name :: required)

/-- **The checks let through** what the declaration describes. -/
theorem problem_eq_none_iff (args : ToolArgs) (given : JsonObject F64) :
    problem display args.tool args.schema given = none ↔ Conforms args.fields given := by
  have hprops : (args.schema.get "properties").bind JsonValue.asObject =
      some (mapFromIter (args.fields.map fun f => (f.name, (f.ty.argSchema : JsonValue F64)))) :=
    rfl
  have hnone : problem display args.tool args.schema given = none ↔
      (∀ entry ∈ given.entries, ∃ f ∈ args.fields, f.name = entry.1 ∧ f.ty.Fits entry.2) ∧
        ∀ name ∈ requiredNames args.fields, (given.get name).isSome := by
    simp only [problem, hprops, requiredOf_schema, ← argumentProblem_eq_none_iff display args.tool]
    rw [← List.findSome?_eq_none_iff]
    cases given.entries.findSome? (argumentProblem display args.tool _) with
    | some message => simp
    | none => simp [List.find?_eq_none, Option.isSome_iff_ne_none]
  have hget : ∀ key value, given.get key = some value ↔ (key, value) ∈ given.entries :=
    lookup_eq_some_iff_mem given.nodup
  rw [hnone]
  constructor
  · rintro ⟨hgiven, hrequired⟩
    refine ⟨fun key value hvalue => ?_, fun f hf value hvalue => ?_, fun f hf hopt => ?_⟩
    · obtain ⟨f, hf, hname, -⟩ := hgiven _ ((hget key value).mp hvalue)
      exact ⟨f, hf, hname⟩
    · obtain ⟨f', hf', hname, hfits⟩ := hgiven _ ((hget f.name value).mp hvalue)
      exact List.inj_on_of_nodup_map args.nodup hf' hf hname ▸ hfits
    · exact hrequired f.name (List.mem_map.mpr ⟨f, List.mem_filter.mpr ⟨hf, by simp [hopt]⟩, rfl⟩)
  · intro h
    refine ⟨fun entry hentry => ?_, fun name hname => ?_⟩
    · obtain ⟨f, hf, hname⟩ := h.declared entry.1 entry.2 ((hget _ _).mpr hentry)
      exact ⟨f, hf, hname, h.fits f hf entry.2 ((hget _ _).mpr (hname ▸ hentry))⟩
    · obtain ⟨f, hf, rfl⟩ := List.mem_map.mp hname
      obtain ⟨hf, hopt⟩ := List.mem_filter.mp hf
      exact h.required f hf (by simpa using hopt)

end Checked

/-! ### What deserializes -/

section Deserialized

variable [SerdeJson F64]

/-- A value that fits deserializes to itself. -/
theorem deserialize_of_fits {ty : ArgType} {value : JsonValue F64} (h : ty.Fits value) :
    ∃ v, ty.deserialize value = .ok v ∧ ty.toJson v = some value := by
  induction h with
  | string s => exact ⟨s, SerdeJson.string_string s, rfl⟩
  | u64 h => exact ⟨⟨_, h⟩, SerdeJson.u64_posInt h, rfl⟩
  | strEnum h => exact ⟨⟨_, h⟩, SerdeJson.strEnum_string h, rfl⟩
  | @option ty value h ih =>
    obtain ⟨v, hv, hjson⟩ := ih
    refine ⟨some v, ?_, hjson⟩
    have hsome : (ArgType.option ty).deserialize value = (ty.deserialize value).map some := by
      cases value with
      | null => exact absurd h (not_fits_null ty)
      | _ => rfl
    rw [hsome, hv]
    rfl

/-- The variables hold what was given so far. -/
def Slots.Holds (get : String → Option (JsonValue F64)) :
    (fields : List Field) → Slots fields → Prop
  | [], _ => True
  | f :: fields, (slot, slots) =>
    slot.map f.ty.toJson = (get f.name).map some ∧ slots.Holds get fields

omit [SerdeJson F64] in
theorem Slots.holds_empty (fields : List Field) :
    (Slots.empty fields).Holds (fun _ => (none : Option (JsonValue F64))) := by
  induction fields with
  | nil => exact trivial
  | cons f fields ih => exact ⟨rfl, ih⟩

omit [SerdeJson F64] in
theorem Slots.Holds.update {get : String → Option (JsonValue F64)} {fields : List Field}
    {slots : Slots fields} (h : slots.Holds get) {key : String}
    (hkey : key ∉ fields.map Field.name) (value : JsonValue F64) :
    slots.Holds (Function.update get key (some value)) := by
  induction fields with
  | nil => exact trivial
  | cons f fields ih =>
    obtain ⟨hf, hfields⟩ := not_or.mp (mt List.mem_cons.mpr hkey)
    refine ⟨?_, ih h.2 hfields⟩
    rw [Function.update_of_ne (Ne.symm hf)]
    exact h.1

/-- **One entry** that is declared and fits fills the variable of its field. -/
theorem visitEntry_of_fits (declared : List String) {key : String} {value : JsonValue F64}
    {get : String → Option (JsonValue F64)} (hkey : get key = none) {fields : List Field}
    (hnodup : (fields.map Field.name).Nodup) {slots : Slots fields} (h : slots.Holds get)
    (hfits : ∃ f ∈ fields, f.name = key ∧ f.ty.Fits value) :
    ∃ slots', visitEntry declared key value fields slots = .ok slots' ∧
      slots'.Holds (Function.update get key (some value)) := by
  induction fields with
  | nil => simp at hfits
  | cons f fields ih =>
    obtain ⟨hname, hnodup⟩ := List.nodup_cons.mp hnodup
    obtain ⟨slot, slots⟩ := slots
    obtain ⟨f', hf', rfl, hfits⟩ := hfits
    rw [visitEntry]
    by_cases heq : f'.name = f.name
    · obtain rfl | hf' := List.mem_cons.mp hf'
      · obtain ⟨v, hv, hjson⟩ := deserialize_of_fits hfits
        have hslot : slot = none := by
          have := h.1
          rw [hkey] at this
          simpa using this
        rw [if_pos rfl, hslot, hv]
        refine ⟨(some v, slots), rfl, ?_, h.2.update hname value⟩
        rw [Function.update_self, Option.map_some, Option.map_some, hjson]
      · exact absurd (List.mem_map.mpr ⟨f', hf', heq⟩) hname
    · rw [if_neg heq]
      obtain rfl | hf' := List.mem_cons.mp hf'
      · exact absurd rfl heq
      · obtain ⟨slots', hvisit, hholds⟩ := ih hnodup h.2 ⟨f', hf', rfl, hfits⟩
        refine ⟨(slot, slots'), by rw [hvisit]; rfl, ?_, hholds⟩
        rw [Function.update_of_ne (Ne.symm heq)]
        exact h.1

/-- **All entries** that are declared and fit fill the variables of their fields. -/
theorem foldlM_visitEntry_of_fits (declared : List String) {fields : List Field}
    (hnodup : (fields.map Field.name).Nodup) {entries : List (String × JsonValue F64)}
    (hentries : (entries.map Prod.fst).Nodup)
    (hfits : ∀ entry ∈ entries, ∃ f ∈ fields, f.name = entry.1 ∧ f.ty.Fits entry.2)
    {get : String → Option (JsonValue F64)} (hget : ∀ entry ∈ entries, get entry.1 = none)
    {slots : Slots fields} (h : slots.Holds get) :
    ∃ slots', entries.foldlM (fun slots entry =>
        visitEntry declared entry.1 entry.2 fields slots) slots = .ok slots' ∧
      slots'.Holds fun name => (get name).or (entries.lookup name) := by
  induction entries generalizing get slots with
  | nil => exact ⟨slots, rfl, by simpa using h⟩
  | cons entry entries ih =>
    obtain ⟨key, value⟩ := entry
    obtain ⟨hkey, hentries⟩ := List.nodup_cons.mp hentries
    obtain ⟨slots', hvisit, hholds⟩ := visitEntry_of_fits declared (hget _ List.mem_cons_self)
      hnodup h (hfits _ List.mem_cons_self)
    have hrest : ∀ entry ∈ entries, Function.update get key (some value) entry.1 = none := by
      intro entry hentry
      have hne : entry.1 ≠ key := fun heq => hkey (List.mem_map.mpr ⟨entry, hentry, heq⟩)
      rw [Function.update_of_ne hne]
      exact hget entry (List.mem_cons_of_mem _ hentry)
    obtain ⟨slots'', hfold, hholds'⟩ := ih hentries
      (fun entry hentry => hfits entry (List.mem_cons_of_mem _ hentry)) hrest hholds
    refine ⟨slots'', by rw [List.foldlM_cons, hvisit]; exact hfold, ?_⟩
    convert hholds' using 1
    funext name
    by_cases heq : name = key
    · rw [heq, hget _ List.mem_cons_self, Function.update_self, List.lookup_cons_self]
      rfl
    · rw [Function.update_of_ne heq, List.lookup_cons, beq_false_of_ne heq]

/-- **The struct** reads back as what the variables hold. -/
theorem finish_of_holds {get : String → Option (JsonValue F64)} {fields : List Field}
    {slots : Slots fields} (h : slots.Holds get)
    (hrequired : ∀ f ∈ fields, f.ty.optional = false → (get f.name).isSome) :
    ∃ args, finish F64 fields slots = .ok args ∧
      ∀ name ∈ fields.map Field.name, args.read name = get name := by
  induction fields with
  | nil => exact ⟨(), rfl, by simp⟩
  | cons f fields ih =>
    obtain ⟨slot, slots⟩ := slots
    obtain ⟨rest, hrest, hread⟩ := ih h.2 fun f hf => hrequired f (List.mem_cons_of_mem _ hf)
    have hcons : ∀ v : f.ty.Value, f.ty.toJson v = get f.name →
        ∀ name ∈ (f :: fields).map Field.name,
          Struct.read name (f :: fields) (v, rest) = get name := by
      intro v hv name hname
      rw [Struct.read]
      split_ifs with heq
      · rw [hv, heq]
      · exact hread name ((List.mem_cons.mp hname).resolve_left heq)
    have hslot : slot.map f.ty.toJson = (get f.name).map some := h.1
    cases hget : get f.name with
    | some value =>
      rw [hget, Option.map_some] at hslot
      obtain ⟨v, rfl, hv⟩ := Option.map_eq_some_iff.mp hslot
      exact ⟨(v, rest), by rw [finish, hrest]; rfl, hcons v (hv.trans hget.symm)⟩
    | none =>
      rw [hget, Option.map_none, Option.map_eq_none_iff] at hslot
      subst hslot
      obtain ⟨ty, hty⟩ : ∃ ty, f.ty = .option ty := by
        have hopt := hrequired f List.mem_cons_self
        cases hf : f.ty with
        | option ty => exact ⟨ty, rfl⟩
        | _ => exact absurd (hopt (by rw [hf]; rfl)) (by simp [hget])
      obtain ⟨name, _⟩ := f
      subst hty
      exact ⟨(none, rest), by rw [finish, missingField, hrest]; rfl, hcons none hget.symm⟩

omit [SerdeJson F64] in
theorem read_of_notMem {name : String} {fields : List Field} (h : name ∉ fields.map Field.name)
    (args : Struct fields) : args.read name = (none : Option (JsonValue F64)) := by
  induction fields with
  | nil => rfl
  | cons f fields ih =>
    obtain ⟨hf, hfields⟩ := not_or.mp (mt List.mem_cons.mpr h)
    obtain ⟨v, rest⟩ := args
    rw [Struct.read, if_neg hf]
    exact ih hfields rest

/-- A call that conforms deserializes to a struct that reads back as the call. -/
theorem fromValue_of_conforms {fields : List Field} (hnodup : (fields.map Field.name).Nodup)
    {given : JsonObject F64} (h : Conforms fields given) :
    ∃ args, fromValue fields given = .ok args ∧ ∀ name, args.read name = given.get name := by
  have hget : ∀ entry ∈ given.entries, given.get entry.1 = some entry.2 := fun entry hentry =>
    (lookup_eq_some_iff_mem given.nodup entry.1 entry.2).mpr hentry
  have hfits : ∀ entry ∈ given.entries, ∃ f ∈ fields, f.name = entry.1 ∧ f.ty.Fits entry.2 := by
    intro entry hentry
    obtain ⟨f, hf, hname⟩ := h.declared entry.1 entry.2 (hget entry hentry)
    exact ⟨f, hf, hname, h.fits f hf entry.2 (hname ▸ hget entry hentry)⟩
  obtain ⟨slots, hfold, hholds⟩ := foldlM_visitEntry_of_fits (fields.map Field.name) hnodup
    given.nodup hfits (fun _ _ => rfl) (Slots.holds_empty fields)
  obtain ⟨args, hfinish, hread⟩ := finish_of_holds hholds h.required
  refine ⟨args, by rw [fromValue, hfold]; exact hfinish, fun name => ?_⟩
  by_cases hname : name ∈ fields.map Field.name
  · exact hread name hname
  · rw [read_of_notMem hname]
    cases hvalue : given.get name with
    | none => rfl
    | some value =>
      obtain ⟨f, hf, rfl⟩ := h.declared name value hvalue
      exact absurd (List.mem_map_of_mem hf) hname

end Deserialized

/-- **A call is accepted exactly when it conforms** to the declaration, and the struct then reads
back as the call. -/
theorem parse_iff_conforms [FloatOps F64] [SerdeJson F64] (display : JsonValue F64 → String)
    (args : ToolArgs) (given : JsonObject F64) :
    ((∃ parsed, parse display args given = .ok parsed) ↔ Conforms args.fields given) ∧
      ∀ parsed, parse display args given = .ok parsed →
        ∀ name, parsed.read name = given.get name := by
  have hparse : Conforms args.fields given → ∃ parsed, parse display args given = .ok parsed ∧
      ∀ name, parsed.read name = given.get name := by
    intro h
    obtain ⟨parsed, hok, hread⟩ := fromValue_of_conforms args.nodup h
    refine ⟨parsed, ?_, hread⟩
    rw [parse, (problem_eq_none_iff display args given).mpr h, hok]
    rfl
  have hconforms : ∀ parsed, parse display args given = .ok parsed →
      Conforms args.fields given := by
    intro parsed h
    rw [← problem_eq_none_iff display args given]
    cases hproblem : problem display args.tool args.schema given with
    | none => rfl
    | some message =>
      rw [parse, hproblem] at h
      exact absurd h (by simp)
  refine ⟨⟨fun ⟨parsed, h⟩ => hconforms parsed h, fun h => ?_⟩, fun parsed h => ?_⟩
  · obtain ⟨parsed, hok, -⟩ := hparse h
    exact ⟨parsed, hok⟩
  · obtain ⟨parsed', hok, hread⟩ := hparse (hconforms parsed h)
    obtain rfl := Except.ok.inj (h.symm.trans hok)
    exact hread

/-! ### A declaration -/

/-- Values that are read from what they are written as, and from nothing else. -/
instance literalSerde : SerdeJson ℤ where
  string
    | .string s => .ok s
    | _ => .error "invalid type"
  u64
    | .posInt n => if h : n ≤ u64Max then .ok ⟨n, h⟩ else .error "invalid value"
    | _ => .error "invalid type"
  strEnum texts
    | .string text => if h : text ∈ texts then .ok ⟨text, h⟩ else .error "unknown variant"
    | _ => .error "invalid type"
  unknownField key _ := "unknown field " ++ key
  duplicateField key := "duplicate field " ++ key
  missingField key := "missing field " ++ key
  string_string _ := rfl
  u64_posInt h := dif_pos h
  strEnum_string h := dif_pos h

/-- The arguments of `query_traces`. -/
def queryTracesArgs : ToolArgs where
  tool := "query_traces"
  fields := [⟨"service", .option .string⟩, ⟨"name", .option .string⟩,
    ⟨"status", .option (.strEnum ["error", "ok", "unset"])⟩, ⟨"min_duration", .option .string⟩,
    ⟨"limit", .option .u64⟩, ⟨"traceql", .option .string⟩]
  nodup := by decide

/-- One status is read, another is refused. -/
theorem parse_iff_conforms_queryTraces :
    let read : JsonObject ℤ := ⟨[("service", .string "api"), ("status", .string "ok")], by decide⟩
    let refused : JsonObject ℤ := ⟨[("status", .string "fine")], by decide⟩
    Conforms queryTracesArgs.fields read ∧ ¬ Conforms queryTracesArgs.fields refused := by
  intro read refused
  let display : JsonValue ℤ → String := fun v => v.asStr.getD ""
  have hread : parse display queryTracesArgs read =
      .ok (some "api", none, some ⟨"ok", by decide⟩, none, none, none, ()) := rfl
  have hrefused : parse display queryTracesArgs refused =
      .error "invalid `status`: fine. Valid values: error, ok, unset" := rfl
  refine ⟨(parse_iff_conforms display queryTracesArgs read).1.mp ⟨_, hread⟩, fun h => ?_⟩
  obtain ⟨parsed, hparsed⟩ := (parse_iff_conforms display queryTracesArgs refused).1.mpr h
  exact absurd (hrefused.symm.trans hparsed) nofun

end Mcp

end Aniani
