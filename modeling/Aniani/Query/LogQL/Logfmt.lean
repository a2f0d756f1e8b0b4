import Aniani.ForMathlib.Words
import Aniani.Query.Lexical
import Aniani.Query.LogQL.Eval

/-!
# Reading `logfmt`

The `| logfmt` stage splits a line at its white space, and takes each part with a `=` in it for a pair.
The quotes around a value are taken away after that, so that a value with white space in it has been
cut by then, and no part of it is the value.

## Main definitions

* `logfmtLine` — pairs as they are written
* `LogfmtDecodes` — the pairs are extracted, and filters on them keep the line

## Main results

* `splitWhitespace_intercalate` — the parts of texts that are joined by spaces
* `filterMap_readPair_logfmtLine` — values without white space are read back
* `exists_readPair_of_mem` — every key is read, whatever its value
* `logfmtDecodes_iff`
-/

namespace Aniani

/-! ### Words of a string -/

theorem splitWhitespace_eq (s : String) :
    splitWhitespace s = (s.toList.words Text.isWhitespace).map String.ofList := rfl

/-- The parts of texts that are joined by spaces. -/
theorem splitWhitespace_intercalate (texts : List String) :
    splitWhitespace (" ".intercalate texts) = texts.flatMap splitWhitespace := by
  have hspace : Text.isWhitespace ' ' = true := by decide
  cases texts with
  | nil => simp [splitWhitespace_eq]
  | cons text texts =>
    have hjoined := List.words_append_flatMap hspace text.toList (texts.map String.toList)
    rw [List.flatMap_map, List.flatMap_map] at hjoined
    have hspaces : (" ".intercalate (text :: texts)).toList =
        text.toList ++ texts.flatMap fun t => ' ' :: t.toList := toList_intercalate_cons " " text texts
    rw [splitWhitespace_eq, hspaces, hjoined, List.map_append, List.map_flatMap, List.flatMap_cons]
    rfl

/-- No part has white space in it. -/
theorem isWhitespace_of_mem_splitWhitespace {s part : String} (h : part ∈ splitWhitespace s) :
    ∀ c ∈ part.toList, Text.isWhitespace c = false := by
  rw [splitWhitespace_eq] at h
  obtain ⟨word, hword, rfl⟩ := List.mem_map.mp h
  rw [String.toList_ofList]
  exact List.forall_of_mem_words hword

namespace LogQL

variable {F64 : Type} [FloatOps F64]

/-! ### Pairs -/

/-- A pair as it is written. -/
def logfmtPair (pair : String × String) : String := pair.1 ++ "=\"" ++ pair.2 ++ "\""

/-- Pairs as they are written, with single spaces in between. -/
def logfmtLine (pairs : List (String × String)) : String :=
  " ".intercalate (pairs.map logfmtPair)

/-- Pairs that can be written so. -/
structure IsLogfmt (pairs : List (String × String)) : Prop where
  nodup_keys : (pairs.map Prod.fst).Nodup
  key_ne_nil : ∀ pair ∈ pairs, pair.1.toList ≠ []
  key_chars : ∀ pair ∈ pairs, ∀ c ∈ pair.1.toList, Text.isWhitespace c = false ∧ c ≠ '=' ∧ c ≠ '"'
  value_chars : ∀ pair ∈ pairs, ∀ c ∈ pair.2.toList, c ≠ '"' ∧ c ≠ '\\'

/-- The conditions on the characters, checked pair by pair. -/
theorem IsLogfmt.of_all {pairs : List (String × String)} (hn : (pairs.map Prod.fst).Nodup)
    (hne : ∀ pair ∈ pairs, pair.1.toList ≠ [])
    (hkey : (pairs.all fun pair => pair.1.toList.all fun c =>
      decide (Text.isWhitespace c = false ∧ c ≠ '=' ∧ c ≠ '"')) = true)
    (hval : (pairs.all fun pair => pair.2.toList.all fun c => decide (c ≠ '"' ∧ c ≠ '\\')) = true) :
    IsLogfmt pairs where
  nodup_keys := hn
  key_ne_nil := hne
  key_chars pair hpair c hc :=
    of_decide_eq_true (List.all_eq_true.mp (List.all_eq_true.mp hkey pair hpair) c hc)
  value_chars pair hpair c hc :=
    of_decide_eq_true (List.all_eq_true.mp (List.all_eq_true.mp hval pair hpair) c hc)

/-- The pair that a part of a line is taken for. -/
def readPair (part : String) : Option (String × String) :=
  match splitOnce '=' part with
  | some (key, val) => if key.isEmpty then none else some (key, unquote val)
  | none => none

omit [FloatOps F64] in
/-- What is extracted, as a list of pairs. -/
theorem logfmtExtract_eq (line : String) (extracted : Extracted) :
    logfmtExtract line extracted = ((splitWhitespace line).filterMap readPair).foldl
      (fun extracted pair => extracted.insert pair.1 pair.2) extracted := by
  rw [List.foldl_filterMap, logfmtExtract]
  congr 1
  funext extracted part
  rw [readPair]
  cases splitOnce '=' part with
  | none => rfl
  | some pair =>
    by_cases hempty : pair.1.isEmpty = true
    · simp [hempty]
    · simp [hempty]

/-- A key is what stands before the first `=`. -/
theorem readPair_append {key : List Char} (hne : key ≠ []) (hkey : ∀ c ∈ key, c ≠ '=')
    (val : List Char) :
    readPair (String.ofList (key ++ '=' :: val)) =
      some (String.ofList key, unquote (String.ofList val)) := by
  have hrun : ∀ c ∈ key, decide (c ≠ '=') = true := fun c hc => decide_eq_true (hkey c hc)
  have hsplit : splitOnce '=' (String.ofList (key ++ '=' :: val)) =
      some (String.ofList key, String.ofList val) := by
    rw [splitOnce, String.toList_ofList, List.dropWhile_append_of_pos hrun,
      List.takeWhile_append_of_pos hrun]
    simp
  have hkey' : (String.ofList key).isEmpty = false := by
    simpa using hne
  rw [readPair, hsplit]
  simp only [hkey', Bool.false_eq_true, if_false]

/-- The quotes around a value are taken away. -/
theorem unquote_quoted (val : List Char) :
    unquote (String.ofList ('"' :: (val ++ ['"']))) = String.ofList val := by
  simp [unquote]

/-- Nothing is added to a value. -/
theorem mem_of_mem_unquote {val : String} {c : Char} (h : c ∈ (unquote val).toList) :
    c ∈ val.toList := by
  rw [unquote] at h
  split at h
  · next rest hval =>
    split at h
    · rw [String.toList_ofList] at h
      rw [hval]
      exact List.mem_cons_of_mem _ (List.mem_of_mem_dropLast h)
    · exact h
  · exact h

/-- What is read from a part without white space has none either. -/
theorem isWhitespace_of_readPair {part : String} {pair : String × String}
    (h : readPair part = some pair) (hpart : ∀ c ∈ part.toList, Text.isWhitespace c = false) :
    ∀ c ∈ pair.2.toList, Text.isWhitespace c = false := by
  rw [readPair, splitOnce] at h
  split at h
  · next key val hsplit =>
    split at hsplit
    · exact absurd hsplit (by simp)
    · next sign rest hrest =>
      obtain ⟨rfl, rfl⟩ := Prod.mk.inj (Option.some.inj hsplit)
      split at h
      · exact absurd h (by simp)
      · obtain rfl := Option.some.inj h
        intro c hc
        have hval := mem_of_mem_unquote hc
        rw [String.toList_ofList] at hval
        have hdrop : c ∈ part.toList.dropWhile (· ≠ '=') := hrest ▸ List.mem_cons_of_mem sign hval
        exact hpart c ((List.dropWhile_suffix _).subset hdrop)
  · exact absurd h (by simp)

theorem toList_logfmtPair (pair : String × String) :
    (logfmtPair pair).toList = pair.1.toList ++ '=' :: '"' :: (pair.2.toList ++ ['"']) := by
  simp [logfmtPair]

section Pairs

variable {pairs : List (String × String)}

/-- A pair is read back. -/
theorem readPair_logfmtPair (h : IsLogfmt pairs) {pair : String × String} (hpair : pair ∈ pairs) :
    readPair (logfmtPair pair) = some pair := by
  have hkey : ∀ c ∈ pair.1.toList, c ≠ '=' := fun c hc => (h.key_chars pair hpair c hc).2.1
  rw [← String.ofList_toList (s := logfmtPair pair), toList_logfmtPair,
    readPair_append (h.key_ne_nil pair hpair) hkey, unquote_quoted, String.ofList_toList,
    String.ofList_toList]

/-- A pair without white space is one part. -/
theorem splitWhitespace_logfmtPair (h : IsLogfmt pairs) {pair : String × String}
    (hpair : pair ∈ pairs) (hval : ∀ c ∈ pair.2.toList, Text.isWhitespace c = false) :
    splitWhitespace (logfmtPair pair) = [logfmtPair pair] := by
  have hsigns : ∀ c ∈ ['=', '"'], Text.isWhitespace c = false :=
    List.forall_iff_forall_mem.mp (by decide)
  have hchars : ∀ c ∈ (logfmtPair pair).toList, Text.isWhitespace c = false := by
    intro c hc
    rw [toList_logfmtPair] at hc
    simp only [List.mem_append, List.mem_cons, List.not_mem_nil, or_false] at hc
    obtain hc | rfl | rfl | hc | rfl := hc
    · exact (h.key_chars pair hpair c hc).1
    · exact hsigns _ (by simp)
    · exact hsigns _ (by simp)
    · exact hval c hc
    · exact hsigns _ (by simp)
  have hne : (logfmtPair pair).toList ≠ [] := by simp [toList_logfmtPair]
  rw [splitWhitespace_eq, List.words_eq_singleton hne hchars, List.map_singleton,
    String.ofList_toList]

/-- **Values without white space** are read back as they were written. -/
theorem filterMap_readPair_logfmtLine (h : IsLogfmt pairs)
    (hvals : ∀ pair ∈ pairs, ∀ c ∈ pair.2.toList, Text.isWhitespace c = false) :
    (splitWhitespace (logfmtLine pairs)).filterMap readPair = pairs := by
  rw [logfmtLine, splitWhitespace_intercalate, List.flatMap_map, List.filterMap_flatMap]
  have hpair : ∀ pair ∈ pairs,
      (splitWhitespace (logfmtPair pair)).filterMap readPair = [pair] := by
    intro pair hpair
    rw [splitWhitespace_logfmtPair h hpair (hvals pair hpair)]
    simp [readPair_logfmtPair h hpair]
  rw [List.flatMap_congr hpair, List.flatMap_singleton']

/-- **The first part of a pair** is taken for a pair with its key. -/
theorem exists_readPair_of_mem (h : IsLogfmt pairs) {pair : String × String}
    (hpair : pair ∈ pairs) :
    ∃ read ∈ (splitWhitespace (logfmtLine pairs)).filterMap readPair, read.1 = pair.1 := by
  have hkey : ∀ c ∈ pair.1.toList, c ≠ '=' := fun c hc => (h.key_chars pair hpair c hc).2.1
  have hbegin : ∀ c ∈ pair.1.toList ++ ['='], Text.isWhitespace c = false := by
    have hsign : Text.isWhitespace '=' = false := by decide
    intro c hc
    obtain hc | hc := List.mem_append.mp hc
    · exact (h.key_chars pair hpair c hc).1
    · rwa [List.mem_singleton.mp hc]
  have hfirst := List.append_takeWhile_mem_words (by simp) hbegin ('"' :: (pair.2.toList ++ ['"']))
  have hpart : String.ofList (pair.1.toList ++ '=' ::
      ('"' :: (pair.2.toList ++ ['"'])).takeWhile fun c => !Text.isWhitespace c) ∈
        splitWhitespace (logfmtLine pairs) := by
    rw [logfmtLine, splitWhitespace_intercalate, List.flatMap_map]
    refine List.mem_flatMap.mpr ⟨pair, hpair, List.mem_map.mpr ⟨_, ?_, rfl⟩⟩
    rw [toList_logfmtPair]
    simp only [List.append_assoc, List.singleton_append] at hfirst
    exact hfirst
  refine ⟨_, List.mem_filterMap.mpr ⟨_, hpart, readPair_append (h.key_ne_nil pair hpair) hkey _⟩, ?_⟩
  exact String.ofList_toList

end Pairs

/-! ### Decoding -/

/-- Exactly these pairs, and the labels of the stream that none of them shadows. -/
structure ExtractsTo (labels pairs : List (String × String)) (extracted : Extracted) : Prop where
  pair : ∀ pair ∈ pairs, extracted.lookup pair.1 = some pair.2
  label : ∀ key, key ∉ pairs.map Prod.fst → extracted.lookup key = (seedLabels labels).lookup key

/-- The stage extracts the pairs that a line is written from, and a filter on any of them after it
keeps the line. -/
structure LogfmtDecodes (json : JsonCrate F64) (labels pairs : List (String × String)) : Prop where
  extracts : ∃ extracted,
    applyStagesWithExtract json (logfmtLine pairs) [.logfmtExtract] labels = some extracted ∧
      ExtractsTo labels pairs extracted
  keeps : ∀ pair ∈ pairs, applyStages json (logfmtLine pairs)
    [.logfmtExtract, .labelFilter pair.1 .eq pair.2 none] labels = true

section Decodes

variable {pairs : List (String × String)} (json : JsonCrate F64) (labels : List (String × String))

/-- **Pairs written into the labels** are all that is there of their keys. -/
theorem extractsTo_foldl (hnodup : (pairs.map Prod.fst).Nodup) :
    ExtractsTo labels pairs (pairs.foldl (fun extracted pair => extracted.insert pair.1 pair.2)
      (seedLabels labels)) where
  pair pair hpair := by
    rw [Finmap.lookup_foldl_insert]
    cases hfound : pairs.reverse.find? fun c => decide (c.1 = pair.1) with
    | none =>
      have hnone := List.find?_eq_none.mp hfound pair (List.mem_reverse.mpr hpair)
      exact absurd hnone (by simp)
    | some found =>
      have hmem := List.mem_reverse.mp (List.mem_of_find?_eq_some hfound)
      have hkey : found.1 = pair.1 := by simpa using List.find?_some hfound
      rw [List.inj_on_of_nodup_map hnodup hmem hpair hkey]
      rfl
  label key hkey := by
    have hnone : pairs.reverse.find? (fun c => decide (c.1 = key)) = none := by
      refine List.find?_eq_none.mpr fun pair hpair heq => ?_
      have hmem := List.mem_map_of_mem (f := Prod.fst) (List.mem_reverse.mp hpair)
      exact hkey (of_decide_eq_true heq ▸ hmem)
    rw [Finmap.lookup_foldl_insert, hnone]
    rfl

/-- What is extracted of a key of the pairs has no white space. -/
theorem isWhitespace_of_lookup_logfmtExtract (h : IsLogfmt pairs) {pair : String × String}
    (hpair : pair ∈ pairs) (extracted : Extracted) {value : String}
    (hvalue : (logfmtExtract (logfmtLine pairs) extracted).lookup pair.1 = some value) :
    ∀ c ∈ value.toList, Text.isWhitespace c = false := by
  obtain ⟨read, hread, hkey⟩ := exists_readPair_of_mem h hpair
  rw [logfmtExtract_eq, Finmap.lookup_foldl_insert] at hvalue
  cases hfound : ((splitWhitespace (logfmtLine pairs)).filterMap readPair).reverse.find?
      fun c => decide (c.1 = pair.1) with
  | none =>
    have hnone := List.find?_eq_none.mp hfound read (List.mem_reverse.mpr hread)
    exact absurd hnone (by simp [hkey])
  | some found =>
    rw [hfound] at hvalue
    obtain rfl := Option.some.inj hvalue
    have hmem := List.mem_reverse.mp (List.mem_of_find?_eq_some hfound)
    obtain ⟨part, hpart, hfound'⟩ := List.mem_filterMap.mp hmem
    exact isWhitespace_of_readPair hfound' (isWhitespace_of_mem_splitWhitespace hpart)

/-- **Pairs are decoded** exactly when no value has white space in it. -/
theorem logfmtDecodes_iff (h : IsLogfmt pairs) :
    LogfmtDecodes json labels pairs ↔
      ∀ pair ∈ pairs, ∀ c ∈ pair.2.toList, Text.isWhitespace c = false := by
  have hstage : applyStagesWithExtract json (logfmtLine pairs) [.logfmtExtract] labels =
      some (logfmtExtract (logfmtLine pairs) (seedLabels labels)) := rfl
  constructor
  · rintro ⟨⟨extracted, hextracted, hto⟩, -⟩ pair hpair
    obtain rfl := Option.some.inj (hstage.symm.trans hextracted)
    exact isWhitespace_of_lookup_logfmtExtract h hpair _ (hto.pair pair hpair)
  · intro hvals
    have hread : logfmtExtract (logfmtLine pairs) (seedLabels labels) =
        pairs.foldl (fun extracted pair => extracted.insert pair.1 pair.2) (seedLabels labels) := by
      rw [logfmtExtract_eq, filterMap_readPair_logfmtLine h hvals]
    have hto := extractsTo_foldl labels h.nodup_keys
    rw [← hread] at hto
    refine ⟨⟨_, hstage, hto⟩, fun pair hpair => ?_⟩
    simp [applyStages, applyStagesWithExtract, applyStage, hto.pair pair hpair, matchLabel]

end Decodes

/-- A line of a status and a message of one word. -/
theorem logfmtDecodes_iff_timeout :
    let json : JsonCrate ℤ := ⟨fun _ => none, fun _ => ""⟩
    let pairs := [("level", "error"), ("msg", "timeout")]
    IsLogfmt pairs ∧ (LogfmtDecodes json [("service", "api-gw")] pairs ↔
      ∀ pair ∈ pairs, ∀ c ∈ pair.2.toList, Text.isWhitespace c = false) := by
  intro json pairs
  have hpairs : IsLogfmt pairs := .of_all (by decide) (by decide) (by decide) (by decide)
  exact ⟨hpairs, logfmtDecodes_iff json _ hpairs⟩

/-- **A message of two words** is cut, and a filter on it drops the line. -/
theorem not_logfmtDecodes_requestFailed :
    let json : JsonCrate ℤ := ⟨fun _ => none, fun _ => ""⟩
    let pairs := [("level", "error"), ("msg", "request failed")]
    IsLogfmt pairs ∧ ¬ LogfmtDecodes json [("service", "api-gw")] pairs ∧
      logfmtLine pairs = "level=\"error\" msg=\"request failed\"" ∧
      applyStages json (logfmtLine pairs)
        [.logfmtExtract, .labelFilter "msg" .eq "request failed" none]
        [("service", "api-gw")] = false := by
  intro json pairs
  have hdropped : applyStages json (logfmtLine pairs)
      [.logfmtExtract, .labelFilter "msg" .eq "request failed" none]
      [("service", "api-gw")] = false := by decide
  have hpairs : IsLogfmt pairs := .of_all (by decide) (by decide) (by decide) (by decide)
  refine ⟨hpairs, fun hdecodes => ?_, by decide, hdropped⟩
  exact absurd (hdecodes.keeps ("msg", "request failed") (by simp [pairs])) (by simp [hdropped])

end LogQL

end Aniani
