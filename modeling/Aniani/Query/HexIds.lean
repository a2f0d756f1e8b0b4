import Aniani.Query.Timestamps

/-!
# Ids in hexadecimal digits

Trace ids and span ids come in as texts of hexadecimal digits: in the metadata of log entries, in
the path of a request and in the arguments of a tool. Each decoder cuts the bytes of the text in
pairs and has the standard library parse every pair as a number. That parser takes a `+` in front of
the digits, so a pair of `+` and one digit passes as well.

## Main definitions

* `parseHexTraceId`, `parseHexSpanId`, `parseTraceId`, `parseTraceArg` — the decoders
* `HexIds.Signed` — digits in pairs, with a `+` instead of the first of some pair

## Main results

* `HexIds.decoders_iff` — **when a decoder is exact**
-/

namespace Aniani

namespace HexIds

/-! ### The standard library -/

/-- `str::as_bytes`. -/
def asBytes (s : List Char) : List UInt8 := s.flatMap String.utf8EncodeChar

/-- `str::from_utf8`; a string is its bytes. -/
def fromUtf8 (bytes : List UInt8) : Option (List UInt8) :=
  if bytes.toByteArray.validateUTF8 then some bytes else none

/-- The value of a hexadecimal digit, by its code. -/
def hexDigit (code : ℕ) : Option ℕ :=
  if 48 ≤ code ∧ code ≤ 57 then some (code - 48)
  else if 97 ≤ code ∧ code ≤ 102 then some (code - 87)
  else if 65 ≤ code ∧ code ≤ 70 then some (code - 55)
  else none

/-- The number that some digits stand for, nothing where it is too large for a `u8`. -/
def hexNumber (digits : List UInt8) : Option ℕ :=
  digits.foldlM (fun n digit => (hexDigit digit.toNat).bind fun v =>
    if 16 * n + v < 256 then some (16 * n + v) else none) 0

/-- `u8::from_str_radix` with radix 16: digits, which may follow a `+`. -/
def u8FromStrRadix16 : List UInt8 → Option UInt8
  | [] => none
  | [digit] => (hexNumber [digit]).map UInt8.ofNat
  | first :: digits =>
    (hexNumber (if first = 43 then digits else first :: digits)).map UInt8.ofNat

/-! ### The decoders -/

/-- A pair of bytes as a byte. -/
def pairByte (pair : List UInt8) : Option UInt8 := (fromUtf8 pair).bind u8FromStrRadix16

/-- The body of the decoders of `n` bytes. -/
def parseHexId (n : ℕ) (s : List Char) : Option (List UInt8) :=
  let b := asBytes s
  if b.length ≠ 2 * n then none
  else (List.range n).mapM fun i => pairByte ((b.drop (i * 2)).take 2)

/-- `as_chunks::<2>`: the pairs, without a byte left over. -/
def asChunks2 : List UInt8 → List (List UInt8)
  | a :: b :: bytes => [a, b] :: asChunks2 bytes
  | _ => []

/-- A turn of the loop of `handle_get_trace`. -/
def parseChunk (chunk : List UInt8) : Except String UInt8 :=
  match u8FromStrRadix16 ((fromUtf8 chunk).getD []) with
  | some b => .ok b
  | none => .error "trace_id is not valid hex"

/-- The loop of `handle_get_trace`. -/
def parseChunks (bytes : List UInt8) : Except String (List UInt8) :=
  (asChunks2 bytes).mapM parseChunk

end HexIds

open HexIds

/-- `parse_hex_trace_id`. -/
def parseHexTraceId (s : List Char) : Option (List UInt8) := parseHexId 16 s

/-- `parse_hex_span_id`. -/
def parseHexSpanId (s : List Char) : Option (List UInt8) := parseHexId 8 s

/-- `parse_trace_id` of the trace endpoint. -/
def parseTraceId (s : List Char) : Option (List UInt8) := parseHexId 16 (Text.trim s)

/-- How `handle_get_trace` reads the id. -/
def parseTraceArg (hex : List Char) : Except String (List UInt8) :=
  if (asBytes hex).length ≠ 32 then .error "trace_id must be exactly 32 hex characters"
  else parseChunks (asBytes hex)

namespace HexIds

/-! ### A pair -/

theorem utf8EncodeChar_of_le {c : Char} (h : c.toNat ≤ 127) :
    String.utf8EncodeChar c = [UInt8.ofNat c.toNat] := if_pos h

/-- The first byte of another character is no ASCII byte, and there is one after it. -/
theorem utf8EncodeChar_of_lt {c : Char} (h : 127 < c.toNat) :
    ∃ a b bytes, String.utf8EncodeChar c = a :: b :: bytes ∧ 128 ≤ a.toNat := by
  have hle : ¬ c.val.toNat ≤ 0x7f := not_le.mpr h
  rw [String.utf8EncodeChar, if_neg hle]
  split_ifs
  · exact ⟨_, _, _, rfl, by rw [UInt8.toNat_ofNat']; omega⟩
  · exact ⟨_, _, _, rfl, by rw [UInt8.toNat_ofNat']; omega⟩
  · exact ⟨_, _, _, rfl, by rw [UInt8.toNat_ofNat']; omega⟩

theorem hexDigit_lt {code v : ℕ} (h : hexDigit code = some v) : v < 16 ∧ code < 128 := by
  unfold hexDigit at h
  split_ifs at h <;> (cases h; omega)

theorem hexDigit_of_ge {code : ℕ} (h : 128 ≤ code) : hexDigit code = none := by
  unfold hexDigit
  rw [if_neg (by omega), if_neg (by omega), if_neg (by omega)]

theorem fromUtf8_of_ascii {a b : UInt8} (ha : a.toNat < 128) (hb : b.toNat < 128) :
    fromUtf8 [a, b] = some [a, b] := by
  have hchar {c : UInt8} (hc : c.toNat < 128) :
      String.utf8EncodeChar (Char.ofNat c.toNat) = [c] := by
    have hvalid : c.toNat.isValidChar := .inl (by omega)
    have hcode : (Char.ofNat c.toNat).toNat = c.toNat := by
      rw [Char.ofNat, dif_pos hvalid]
      rfl
    rw [utf8EncodeChar_of_le (by omega), hcode, UInt8.ofNat_toNat]
  refine if_pos (ByteArray.validateUTF8_eq_true_iff.mpr
    ⟨[Char.ofNat a.toNat, Char.ofNat b.toNat], ?_⟩)
  simp only [List.utf8Encode, List.flatMap_cons, List.flatMap_nil, hchar ha, hchar hb,
    List.append_nil, List.singleton_append]

/-- The byte that two characters stand for, by their codes. -/
def pairValue (a b : ℕ) : Option UInt8 :=
  if a = 43 then (hexDigit b).map UInt8.ofNat
  else (hexDigit a).bind fun x => (hexDigit b).map fun y => UInt8.ofNat (16 * x + y)

theorem hexNumber_singleton (d : UInt8) : hexNumber [d] = hexDigit d.toNat := by
  cases h : hexDigit d.toNat with
  | none => simp [hexNumber, h]
  | some v =>
    have hv : v < 256 := by have := (hexDigit_lt h).1; omega
    simp [hexNumber, h, hv]

theorem hexNumber_pair (a b : UInt8) : hexNumber [a, b] =
    (hexDigit a.toNat).bind fun x => (hexDigit b.toNat).map fun y => 16 * x + y := by
  cases ha : hexDigit a.toNat with
  | none => simp [hexNumber, ha]
  | some x =>
    have hx : x < 16 := (hexDigit_lt ha).1
    have hx' : x < 256 := by omega
    cases hb : hexDigit b.toNat with
    | none => simp [hexNumber, ha, hb, hx']
    | some y =>
      have hy : 16 * x + y < 256 := by have := (hexDigit_lt hb).1; omega
      simp [hexNumber, ha, hb, hx', hy]

theorem u8FromStrRadix16_pair (a b : UInt8) :
    u8FromStrRadix16 [a, b] = pairValue a.toNat b.toNat := by
  change (hexNumber (if a = 43 then [b] else [a, b])).map UInt8.ofNat = _
  rw [pairValue]
  by_cases hsign : a = 43
  · subst hsign
    rw [if_pos rfl, hexNumber_singleton]
    rfl
  · have hcode : a.toNat ≠ 43 := fun h => hsign (UInt8.toNat_inj.mp h)
    rw [if_neg hsign, if_neg hcode, hexNumber_pair]
    cases hexDigit a.toNat with
    | none => rfl
    | some x => rw [Option.bind_some, Option.bind_some, Option.map_map]; rfl

theorem pairValue_of_ge {a b : ℕ} (h : 128 ≤ a ∨ 128 ≤ b) : pairValue a b = none := by
  rw [pairValue]
  rcases h with h | h
  · rw [if_neg (by omega), hexDigit_of_ge h, Option.bind_none]
  · rw [hexDigit_of_ge h]
    split_ifs
    · rfl
    · cases hexDigit a <;> rfl

/-- **What a decoder makes of two bytes.** -/
theorem pairByte_pair (a b : UInt8) : pairByte [a, b] = pairValue a.toNat b.toNat := by
  by_cases h : a.toNat < 128 ∧ b.toNat < 128
  · rw [pairByte, fromUtf8_of_ascii h.1 h.2, Option.bind_some, u8FromStrRadix16_pair]
  · have hnone : pairValue a.toNat b.toNat = none := pairValue_of_ge (by omega)
    rw [pairByte, hnone, Option.bind_eq_none_iff]
    intro bytes hbytes
    rw [fromUtf8] at hbytes
    split_ifs at hbytes
    obtain rfl := Option.some.inj hbytes
    rw [u8FromStrRadix16_pair, hnone]

/-! ### All pairs -/

/-- The bytes that some characters stand for. -/
def decodeChars : List Char → Option (List UInt8)
  | [] => some []
  | [_] => none
  | a :: b :: s => (pairValue a.toNat b.toNat).bind fun x => (decodeChars s).map (x :: ·)

/-- The bytes that some bytes stand for. -/
def decodeBytes : List UInt8 → Option (List UInt8)
  | [] => some []
  | [_] => none
  | a :: b :: bytes => (pairByte [a, b]).bind fun x => (decodeBytes bytes).map (x :: ·)

theorem asBytes_cons (c : Char) (s : List Char) :
    asBytes (c :: s) = String.utf8EncodeChar c ++ asBytes s := List.flatMap_cons

/-- A byte that is not ASCII is in no pair. -/
theorem decodeBytes_of_ge {a b : UInt8} {bytes : List UInt8}
    (h : 128 ≤ a.toNat ∨ 128 ≤ b.toNat) : decodeBytes (a :: b :: bytes) = none := by
  rw [decodeBytes, pairByte_pair, pairValue_of_ge h, Option.bind_none]

/-- **To decode the bytes is to decode the characters**, whatever they are. -/
theorem decodeBytes_asBytes (s : List Char) : decodeBytes (asBytes s) = decodeChars s := by
  induction s using decodeChars.induct with
  | case1 => rfl
  | case2 c =>
    rcases Nat.lt_or_ge 127 c.toNat with hc | hc
    · obtain ⟨a, b, bytes, heq, ha⟩ := utf8EncodeChar_of_lt hc
      rw [asBytes_cons, heq, List.cons_append, List.cons_append, decodeBytes_of_ge (.inl ha)]
      rfl
    · rw [asBytes_cons, utf8EncodeChar_of_le hc]
      rfl
  | case3 a b s ih =>
    rcases Nat.lt_or_ge 127 a.toNat with ha | ha
    · obtain ⟨x, y, bytes, heq, hx⟩ := utf8EncodeChar_of_lt ha
      rw [asBytes_cons, heq, List.cons_append, List.cons_append, decodeBytes_of_ge (.inl hx),
        decodeChars, pairValue_of_ge (.inl (by omega)), Option.bind_none]
    · rw [asBytes_cons, utf8EncodeChar_of_le ha, asBytes_cons, List.singleton_append]
      rcases Nat.lt_or_ge 127 b.toNat with hb | hb
      · obtain ⟨x, y, bytes, heq, hx⟩ := utf8EncodeChar_of_lt hb
        rw [heq, List.cons_append, decodeBytes_of_ge (.inr hx), decodeChars,
          pairValue_of_ge (.inr (by omega)), Option.bind_none]
      · have hcode {c : Char} (hc : c.toNat ≤ 127) : (UInt8.ofNat c.toNat).toNat = c.toNat := by
          rw [UInt8.toNat_ofNat']
          omega
        rw [utf8EncodeChar_of_le hb, List.singleton_append, decodeBytes, pairByte_pair, hcode ha,
          hcode hb, ih, decodeChars]

/-- The slices of a decoder are the pairs. -/
theorem mapM_slices (n : ℕ) {bytes : List UInt8} (h : bytes.length = 2 * n) :
    (List.range n).mapM (fun i => pairByte ((bytes.drop (i * 2)).take 2)) = decodeBytes bytes := by
  induction n generalizing bytes with
  | zero =>
    obtain rfl := List.eq_nil_of_length_eq_zero h
    rfl
  | succ n ih =>
    match bytes, h with
    | a :: b :: bytes, h =>
      have hlen : bytes.length = 2 * n := by simpa [Nat.mul_succ] using h
      have hrest := ih hlen
      have hslices : (fun i => pairByte (((a :: b :: bytes).drop (i * 2)).take 2)) ∘ Nat.succ =
          fun i => pairByte ((bytes.drop (i * 2)).take 2) := by
        funext i
        rw [Function.comp_apply, Nat.succ_mul]
        rfl
      rw [List.range_succ_eq_map, List.mapM_cons, List.mapM_map, hslices, hrest, decodeBytes]
      change (pairByte [a, b]).bind (fun x => (decodeBytes bytes).bind fun xs => some (x :: xs)) = _
      cases pairByte [a, b] with
      | none => rfl
      | some x => cases decodeBytes bytes <;> rfl

/-- The chunks of the tool are the pairs. -/
theorem toOption_parseChunks {bytes : List UInt8} {n : ℕ} (h : bytes.length = 2 * n) :
    (parseChunks bytes).toOption = decodeBytes bytes := by
  induction bytes using asChunks2.induct generalizing n with
  | case1 a b bytes ih =>
    have hpair : (fromUtf8 [a, b]).bind u8FromStrRadix16 =
        u8FromStrRadix16 ((fromUtf8 [a, b]).getD []) := by
      cases fromUtf8 [a, b] <;> rfl
    have hrest := ih (n := n - 1) (by rw [List.length_cons, List.length_cons] at h; omega)
    rw [decodeBytes, pairByte, hpair, ← hrest, parseChunks, asChunks2, List.mapM_cons, parseChunk]
    cases u8FromStrRadix16 ((fromUtf8 [a, b]).getD []) with
    | none => rfl
    | some x =>
      change Except.toOption ((parseChunks bytes).bind fun xs => .ok (x :: xs)) = _
      cases parseChunks bytes <;> rfl
  | case2 bytes hbytes =>
    match bytes, h with
    | [], _ => rfl
    | [a], h => simp at h; omega
    | a :: b :: bytes, _ => exact absurd rfl (hbytes a b bytes)

/-! ### Characters -/

/-- The character is a hexadecimal digit. -/
def isHexDigit (c : Char) : Bool := (hexDigit c.toNat).isSome

/-- Pairs of a digit, or a `+`, and a digit. -/
def signedPairs : List Char → Bool
  | [] => true
  | [_] => false
  | a :: b :: s => (isHexDigit a || a == '+') && isHexDigit b && signedPairs s

/-- The text is the hexadecimal digits of `n` bytes. -/
def IsHexText (n : ℕ) (s : List Char) : Prop := s.length = 2 * n ∧ ∀ c ∈ s, isHexDigit c = true

/-- The text is such digits, but with a `+` in place of the first digit of some pairs. -/
def Signed (n : ℕ) (s : List Char) : Prop :=
  s.length = 2 * n ∧ signedPairs s = true ∧ '+' ∈ s

/-- What a decoder of `n` bytes gives for a text is exact: it accepts the hexadecimal digits, and the
bytes are written as the text, in small letters. -/
def Exact (n : ℕ) (s : List Char) (result : Option (List UInt8)) : Prop :=
  (result.isSome = true ↔ IsHexText n s) ∧
    ∀ id ∈ result, id.length = n ∧ (hexText id).toList = s.map Char.toLower

theorem isSome_pairValue (a b : Char) :
    (pairValue a.toNat b.toNat).isSome = ((isHexDigit a || a == '+') && isHexDigit b) := by
  have hplus : a = '+' ↔ a.toNat = 43 := ⟨fun h => h ▸ rfl, fun h => Char.toNat_inj.mp h⟩
  rw [pairValue, isHexDigit, isHexDigit]
  by_cases ha : a.toNat = 43
  · rw [if_pos ha, hplus.mpr ha, Option.isSome_map]
    simp
  · have hne : (a == '+') = false := by simpa using fun h => ha (hplus.mp h)
    rw [if_neg ha, hne, Bool.or_false]
    cases hexDigit a.toNat with
    | none => rfl
    | some x => rw [Option.bind_some, Option.isSome_map]; rfl

theorem isSome_decodeChars (s : List Char) : (decodeChars s).isSome = signedPairs s := by
  induction s using decodeChars.induct with
  | case1 => rfl
  | case2 => rfl
  | case3 a b s ih =>
    rw [decodeChars, signedPairs, ← isSome_pairValue, ← ih]
    cases pairValue a.toNat b.toNat with
    | none => rfl
    | some x => rw [Option.bind_some, Option.isSome_map]; rfl

/-- What passes is ASCII, and has two characters for each byte. -/
theorem length_of_decodeChars {s : List Char} {id : List UInt8} (h : decodeChars s = some id) :
    (asBytes s).length = s.length ∧ s.length = 2 * id.length := by
  induction s using decodeChars.induct generalizing id with
  | case1 => cases h; exact ⟨rfl, rfl⟩
  | case2 => cases h
  | case3 a b s ih =>
    rw [decodeChars, Option.bind_eq_some_iff] at h
    obtain ⟨x, hx, hrest⟩ := h
    obtain ⟨ids, hids, rfl⟩ := Option.map_eq_some_iff.mp hrest
    obtain ⟨hbytes, hlength⟩ := ih hids
    have hascii : a.toNat ≤ 127 ∧ b.toNat ≤ 127 := by
      by_contra hnot
      rw [pairValue_of_ge (by omega)] at hx
      cases hx
    rw [asBytes_cons, asBytes_cons, utf8EncodeChar_of_le hascii.1, utf8EncodeChar_of_le hascii.2]
    simp only [List.singleton_append, List.length_cons, hbytes, hlength]
    exact ⟨trivial, by omega⟩

/-- **What a decoder gives for a text.** -/
theorem parseHexId_eq (n : ℕ) (s : List Char) :
    parseHexId n s = if s.length = 2 * n then decodeChars s else none := by
  rw [parseHexId]
  by_cases hbytes : (asBytes s).length = 2 * n
  · rw [if_neg (not_not.mpr hbytes), mapM_slices n hbytes, decodeBytes_asBytes]
    cases h : decodeChars s with
    | none => rw [ite_self]
    | some id => rw [if_pos ((length_of_decodeChars h).1 ▸ hbytes)]
  · rw [if_pos hbytes]
    cases h : decodeChars s with
    | none => rw [ite_self]
    | some id => rw [if_neg ((length_of_decodeChars h).1 ▸ hbytes)]

theorem toOption_parseTraceArg (s : List Char) : (parseTraceArg s).toOption = parseHexId 16 s := by
  rw [parseTraceArg, parseHexId]
  by_cases hbytes : (asBytes s).length = 2 * 16
  · rw [if_neg (not_not.mpr hbytes), if_neg (not_not.mpr hbytes), toOption_parseChunks hbytes,
      mapM_slices 16 hbytes]
  · rw [if_pos hbytes, if_pos hbytes]
    rfl

/-! ### Written in digits -/

theorem toList_hexText_cons (b : UInt8) (bytes : List UInt8) : (hexText (b :: bytes)).toList =
    Nat.digitChar (b.toNat / 16) :: Nat.digitChar (b.toNat % 16) :: (hexText bytes).toList := by
  simp [hexText]

/-- A digit is written as it was read, in small letters. -/
theorem digitChar_hexDigit {c : Char} {v : ℕ} (h : hexDigit c.toNat = some v) :
    Nat.digitChar v = c.toLower := by
  have hall : ∀ code < 128, ∀ v ∈ hexDigit code, Nat.digitChar v = (Char.ofNat code).toLower := by
    decide
  have hchar := hall c.toNat (hexDigit_lt h).2 v h
  rwa [Char.ofNat_toNat] at hchar

theorem hexDigit_digitChar {v : ℕ} (h : v < 16) : hexDigit (Nat.digitChar v).toNat = some v := by
  have hall : ∀ v < 16, hexDigit (Nat.digitChar v).toNat = some v := by decide
  exact hall v h

theorem hexText_decodeChars {s : List Char} {id : List UInt8} (h : decodeChars s = some id)
    (hs : ∀ c ∈ s, isHexDigit c = true) : (hexText id).toList = s.map Char.toLower := by
  induction s using decodeChars.induct generalizing id with
  | case1 => cases h; rfl
  | case2 => cases h
  | case3 a b s ih =>
    rw [List.forall_mem_cons, List.forall_mem_cons] at hs
    obtain ⟨v, hv⟩ := Option.isSome_iff_exists.mp hs.1
    obtain ⟨w, hw⟩ := Option.isSome_iff_exists.mp hs.2.1
    have hne : a.toNat ≠ 43 := by
      intro heq
      rw [heq] at hv
      cases hv
    have hpair : pairValue a.toNat b.toNat = some (UInt8.ofNat (16 * v + w)) := by
      rw [pairValue, if_neg hne, hv, hw]
      rfl
    have hlt : v < 16 ∧ w < 16 := ⟨(hexDigit_lt hv).1, (hexDigit_lt hw).1⟩
    have hbyte : (UInt8.ofNat (16 * v + w)).toNat = 16 * v + w := by
      rw [UInt8.toNat_ofNat']
      omega
    rw [decodeChars, hpair, Option.bind_some] at h
    obtain ⟨ids, hids, rfl⟩ := Option.map_eq_some_iff.mp h
    rw [toList_hexText_cons, hbyte, ih hids hs.2.2, show (16 * v + w) / 16 = v by omega,
      show (16 * v + w) % 16 = w by omega, digitChar_hexDigit hv, digitChar_hexDigit hw]
    rfl

theorem decodeChars_hexText (id : List UInt8) : decodeChars (hexText id).toList = some id := by
  induction id with
  | nil => rfl
  | cons b id ih =>
    have hlt := b.toNat_lt
    have hhigh := hexDigit_digitChar (v := b.toNat / 16) (by omega)
    have hlow := hexDigit_digitChar (v := b.toNat % 16) (by omega)
    have hne : (Nat.digitChar (b.toNat / 16)).toNat ≠ 43 := by
      intro heq
      rw [heq] at hhigh
      cases hhigh
    have hpair : pairValue (Nat.digitChar (b.toNat / 16)).toNat
        (Nat.digitChar (b.toNat % 16)).toNat = some b := by
      rw [pairValue, if_neg hne, hhigh, hlow, Option.bind_some, Option.map_some,
        show 16 * (b.toNat / 16) + b.toNat % 16 = b.toNat by omega, UInt8.ofNat_toNat]
    rw [toList_hexText_cons, decodeChars, hpair, ih]
    rfl

/-- **An id is read back** from its digits. -/
theorem parseHexId_hexText {n : ℕ} {id : List UInt8} (h : id.length = n) :
    parseHexId n (hexText id).toList = some id := by
  have hdecode := decodeChars_hexText id
  rw [parseHexId_eq, if_pos (h ▸ (length_of_decodeChars hdecode).2), hdecode]

theorem signedPairs_of_isHexDigit {s : List Char} {n : ℕ} (hlength : s.length = 2 * n)
    (h : ∀ c ∈ s, isHexDigit c = true) : signedPairs s = true := by
  induction s using signedPairs.induct generalizing n with
  | case1 => rfl
  | case2 => simp at hlength; omega
  | case3 a b s ih =>
    rw [List.forall_mem_cons, List.forall_mem_cons] at h
    rw [signedPairs, h.1, h.2.1, ih (n := n - 1) (by simp at hlength; omega) h.2.2]
    rfl

/-- Without a `+` the pairs are digits. -/
theorem isHexDigit_of_signedPairs {s : List Char} (h : signedPairs s = true) (hplus : '+' ∉ s) :
    ∀ c ∈ s, isHexDigit c = true := by
  induction s using signedPairs.induct with
  | case1 => simp
  | case2 => cases h
  | case3 a b s ih =>
    rw [signedPairs, Bool.and_eq_true, Bool.and_eq_true, Bool.or_eq_true] at h
    rw [List.mem_cons, List.mem_cons, not_or, not_or] at hplus
    have ha := h.1.1.resolve_right fun heq => hplus.1 (beq_iff_eq.mp heq).symm
    exact List.forall_mem_cons.mpr ⟨ha, List.forall_mem_cons.mpr ⟨h.1.2, ih h.2 hplus.2.2⟩⟩

/-- **When a decoder is exact**: on all texts but those with a `+`. -/
theorem exact_iff (n : ℕ) (s : List Char) : Exact n s (parseHexId n s) ↔ ¬ Signed n s := by
  have hsome : (parseHexId n s).isSome = true ↔ s.length = 2 * n ∧ signedPairs s = true := by
    rw [parseHexId_eq, ← isSome_decodeChars]
    split_ifs with hlength
    · simp [hlength]
    · simp [hlength]
  constructor
  · rintro ⟨haccepts, _⟩ ⟨hlength, hpairs, hplus⟩
    exact absurd ((haccepts.mp (hsome.mpr ⟨hlength, hpairs⟩)).2 _ hplus) (by decide)
  · intro hsigned
    have hdigits (hlength : s.length = 2 * n) (hpairs : signedPairs s = true) :
        ∀ c ∈ s, isHexDigit c = true :=
      isHexDigit_of_signedPairs hpairs fun hplus => hsigned ⟨hlength, hpairs, hplus⟩
    refine ⟨hsome.trans ⟨fun h => ⟨h.1, hdigits h.1 h.2⟩,
      fun h => ⟨h.1, signedPairs_of_isHexDigit h.1 h.2⟩⟩, fun id hid => ?_⟩
    obtain ⟨hlength, hpairs⟩ := hsome.mp (Option.isSome_iff_exists.mpr ⟨id, hid⟩)
    rw [Option.mem_def, parseHexId_eq, if_pos hlength] at hid
    have hid_length := (length_of_decodeChars hid).2
    exact ⟨by omega, hexText_decodeChars hid (hdigits hlength hpairs)⟩

/-- No digit is trimmed. -/
theorem trim_hexText (id : List UInt8) : Text.trim (hexText id).toList = (hexText id).toList := by
  refine Text.trim_eq_self fun c hc => ?_
  have hall : ∀ v < 16, Text.isWhitespace (Nat.digitChar v) = false := by decide
  obtain ⟨b, _, hmem⟩ := List.mem_flatMap.mp ((String.toList_ofList ▸ hc :))
  have hlt := b.toNat_lt
  rw [List.mem_cons, List.mem_singleton] at hmem
  rcases hmem with rfl | rfl
  · exact hall _ (by omega)
  · exact hall _ (by omega)

theorem parseTraceArg_eq_ok_iff {s : List Char} {id : List UInt8} :
    parseTraceArg s = .ok id ↔ parseHexId 16 s = some id := by
  rw [← toOption_parseTraceArg]
  cases parseTraceArg s with
  | error e => simp [Except.toOption]
  | ok x => simp [Except.toOption]

/-- **When the decoders are exact**, each on the text that it reads; an id is read back always. -/
theorem decoders_iff (s : List Char) :
    (Exact 16 s (parseHexTraceId s) ↔ ¬ Signed 16 s) ∧
      (Exact 8 s (parseHexSpanId s) ↔ ¬ Signed 8 s) ∧
      (Exact 16 (Text.trim s) (parseTraceId s) ↔ ¬ Signed 16 (Text.trim s)) ∧
      (Exact 16 s (parseTraceArg s).toOption ↔ ¬ Signed 16 s) ∧
      (∀ id : TraceId, parseHexTraceId (hexText id.toList).toList = some id.toList ∧
        parseTraceId (hexText id.toList).toList = some id.toList ∧
        parseTraceArg (hexText id.toList).toList = .ok id.toList) ∧
      ∀ id : SpanId, parseHexSpanId (hexText id.toList).toList = some id.toList := by
  refine ⟨exact_iff 16 s, exact_iff 8 s, exact_iff 16 (Text.trim s), ?_, fun id => ?_,
    fun id => parseHexId_hexText id.length_toList⟩
  · rw [toOption_parseTraceArg]
    exact exact_iff 16 s
  · have hid : parseHexId 16 (hexText id.toList).toList = some id.toList :=
      parseHexId_hexText id.length_toList
    refine ⟨hid, ?_, parseTraceArg_eq_ok_iff.mpr hid⟩
    rw [parseTraceId, trim_hexText, hid]

/-- An id with a `+` in it, in the place of a zero. -/
def signedId : List Char := '+' :: 'f' :: List.replicate 30 '0'

/-- It is accepted, as the id that has the zero. -/
theorem not_exact_signedId :
    parseHexTraceId signedId = some (15 :: List.replicate 15 0) ∧
      ¬ Exact 16 signedId (parseHexTraceId signedId) ∧
      ¬ Exact 16 (Text.trim signedId) (parseTraceId signedId) ∧
      ¬ Exact 16 signedId (parseTraceArg signedId).toOption ∧
      ¬ Exact 8 (signedId.take 16) (parseHexSpanId (signedId.take 16)) := by
  have hsigned : Signed 16 signedId := ⟨rfl, by decide, by decide⟩
  have htrim : Text.trim signedId = signedId := by decide
  refine ⟨?_, fun h => (exact_iff 16 _).mp h hsigned, ?_, ?_, ?_⟩
  · rw [parseHexTraceId, parseHexId_eq]
    decide
  · rw [parseTraceId, htrim]
    exact fun h => (exact_iff 16 _).mp h hsigned
  · rw [toOption_parseTraceArg]
    exact fun h => (exact_iff 16 _).mp h hsigned
  · exact fun h => (exact_iff 8 _).mp h ⟨rfl, by decide, by decide⟩

end HexIds

end Aniani
