import Aniani.Ingest.Resolved
import Aniani.Query.Text

/-!
# Attributes, as they are reported

The queries show an attribute as a text, and read it off the store, where its strings are keys. The
text is the one of what the attribute says, so it is the same whatever is interned in between.

## Main definitions

* `PreparedAttributeValue.text` — the text of a value without keys

## Main results

* `attributeText_eq`
-/

namespace Aniani

variable {Rodeo Spur F64 : Type} [Interner Rodeo Spur] [Float64 F64]

mutual

/-- `resolve_attribute_value`, of a value without keys. -/
def PreparedAttributeValue.text : PreparedAttributeValue F64 → String
  | .string s => s
  | .int i => toString i
  | .float f => Float64.display f
  | .bool b => toString b
  | .array items => "[" ++ ", ".intercalate (valueTexts items) ++ "]"
  | .bytes b => "0x" ++ hexText b
  | .keyValueList pairs => "\x7b" ++ ", ".intercalate (entryTexts pairs) ++ "\x7d"

/-- The elements of an array. -/
def valueTexts : List (PreparedAttributeValue F64) → List String
  | [] => []
  | item :: items => item.text :: valueTexts items

/-- The entries of a key-value list. -/
def entryTexts : List (String × PreparedAttributeValue F64) → List String
  | [] => []
  | (key, value) :: pairs => (key ++ "=" ++ value.text) :: entryTexts pairs

end

mutual

/-- **The text of a stored value** is the text of what it says. -/
theorem attributeText_eq (r : Rodeo) :
    (value : AttributeValue Spur F64) → attributeText r value = (value.resolved r).text
  | .string _ => rfl
  | .int _ => rfl
  | .float _ => rfl
  | .bool _ => rfl
  | .array items => by
    rw [attributeText, AttributeValue.resolved, PreparedAttributeValue.text, attributeTexts_eq]
  | .bytes _ => rfl
  | .keyValueList pairs => by
    rw [attributeText, AttributeValue.resolved, PreparedAttributeValue.text, pairTexts_eq]

theorem attributeTexts_eq (r : Rodeo) : (items : List (AttributeValue Spur F64)) →
    attributeTexts r items = valueTexts (resolvedValues r items)
  | [] => rfl
  | item :: items => by
    rw [attributeTexts, resolvedValues, valueTexts, attributeText_eq, attributeTexts_eq]

theorem pairTexts_eq (r : Rodeo) : (pairs : List (Spur × AttributeValue Spur F64)) →
    pairTexts r pairs = entryTexts (resolvedPairs r pairs)
  | [] => rfl
  | (key, value) :: pairs => by
    rw [pairTexts, resolvedPairs, entryTexts, attributeText_eq, pairTexts_eq]

end

/-- **Attributes as pairs of texts** are read off what they say. -/
theorem map_attributeText_eq (r : Rodeo) (attrs : Attributes Spur F64) :
    (attrs.map fun attr => (Interner.resolve r attr.1, attributeText r attr.2)) =
      (resolvedPairs r attrs).map fun attr => (attr.1, attr.2.text) := by
  rw [resolvedPairs_eq_map, List.map_map]
  exact List.map_congr_left fun attr _ => congrArg (Prod.mk _) (attributeText_eq r attr.2)

end Aniani
