import Aniani.ForMathlib.BreakOn

/-!
# The origin guard

A request that carries an `Origin` header is answered only when the origin is a localhost variant.
The guard takes the text of the header apart by hand. The host that a text of the form
`scheme://authority` names is told by the grammar of the authority: a part before an `@` is not of
the host, nor is a port, and an address in brackets keeps them.

## Main definitions

* `checkOrigin`, `isAllowedOrigin` — the guard
* `uriHost` — the host a text names
* `ReadsLocal` — the texts the guard takes for a localhost variant
* `Fault` — those of them that name no local host

## Main results

* `isAllowedOrigin_iff` — the guard as a property of the text
* `admitsOnlyLocal_iff` — when a request that passes is of a local origin
* `not_admitsOnlyLocal_login` — a local name as the login of another host
-/

namespace Aniani.Mcp

open List (breakOn before StartsIn)

/-! ### The guard -/

/-- The `://` after a scheme. -/
def schemeEnd : List Char := [':', '/', '/']

/-- The names of the loopback address, as the guard has them. -/
def localNames : List (List Char) := ["localhost".toList, "127.0.0.1".toList, "::1".toList]

/-- What follows the first `://`, if there is one. -/
def originRest (origin : List Char) : List Char :=
  ((breakOn schemeEnd origin).map Prod.snd).getD origin

/-- The host of `is_allowed_origin`, of the text up to the next `://`. -/
def originHost (afterScheme : List Char) : List Char :=
  match afterScheme.takeWhile (· ≠ '/') with
  | '[' :: s => s.takeWhile (· ≠ ']')
  | hostport => hostport.takeWhile (· ≠ ':')

/-- `is_allowed_origin`. -/
def isAllowedOrigin (origin : List Char) : Bool :=
  decide (originHost (before schemeEnd (originRest origin)) ∈ localNames)

/-- `HeaderValue::to_str`, as the `http` crate documents it: a header is text if it contains visible
ASCII only, and spaces and tabs count as visible. -/
def toStr (value : List UInt8) : Option (List Char) :=
  if value.all fun b => decide (32 ≤ b ∧ b < 127 ∨ b = 9) then
    some (value.map fun b => Char.ofNat b.toNat)
  else none

/-- `check_origin`: whether the request is let through. -/
def checkOrigin (header : Option (List UInt8)) : Bool :=
  match header.bind toStr with
  | some origin => isAllowedOrigin origin
  | none => true

/-! ### The host of an origin -/

/-- A scheme: a letter, then letters, digits and three signs. -/
def isScheme : List Char → Bool
  | [] => false
  | c :: cs => c.isAlpha && cs.all fun c => c.isAlphanum || decide (c ∈ ['+', '-', '.'])

/-- A hexadecimal digit. -/
def isHexDigit (c : Char) : Bool :=
  c.isDigit || decide ('a' ≤ c ∧ c ≤ 'f' ∨ 'A' ≤ c ∧ c ≤ 'F')

/-- A character that stands for itself in a name. -/
def isNameChar (c : Char) : Bool :=
  c.isAlphanum || decide (c ∈ "-._~!$&'()*+,;=".toList)

/-- A name of such characters, of some more, and of bytes written as `%` and two digits. -/
def isName (extra : List Char) : List Char → Bool
  | [] => true
  | '%' :: a :: b :: s => isHexDigit a && isHexDigit b && isName extra s
  | c :: s => (isNameChar c || decide (c ∈ extra)) && isName extra s

/-- A port: nothing, or a colon and digits. -/
def isPort : List Char → Bool
  | [] => true
  | c :: s => decide (c = ':') && s.all Char.isDigit

/-- The authority ends where a path, a query or a fragment begins. -/
def authority (rest : List Char) : List Char :=
  rest.takeWhile fun c => decide (c ∉ ['/', '?', '#'])

/-- The host of an authority without userinfo. An address in brackets is not looked into. -/
def hostPort : List Char → Option (List Char)
  | '[' :: s =>
    match breakOn [']'] s with
    | none => none
    | some (address, port) => if isPort port then some ('[' :: (address ++ [']'])) else none
  | s =>
    if isName [] (s.takeWhile (· ≠ ':')) && isPort (s.dropWhile (· ≠ ':')) then
      some (s.takeWhile (· ≠ ':'))
    else none

/-- The host of an authority. -/
def authorityHost (s : List Char) : Option (List Char) :=
  match breakOn ['@'] s with
  | none => hostPort s
  | some (userinfo, host) => if isName [':'] userinfo then hostPort host else none

/-- The host a text of the form `scheme://authority` names. -/
def uriHost (origin : List Char) : Option (List Char) :=
  match breakOn schemeEnd origin with
  | none => none
  | some (scheme, rest) => if isScheme scheme then authorityHost (authority rest) else none

/-- The local hosts. -/
def localHosts : List (List Char) := ["localhost".toList, "127.0.0.1".toList, "[::1]".toList]

/-- A header that passes is text, and names a local host. -/
def AdmitsOnlyLocal (header : Option (List UInt8)) : Prop :=
  checkOrigin header = true →
    ∀ value ∈ header, ∃ origin ∈ toStr value, ∃ host ∈ uriHost origin, host ∈ localHosts

/-! ### What the guard reads -/

/-- The names the guard finds without brackets. -/
def plainNames : List (List Char) := ["localhost".toList, "127.0.0.1".toList]

/-- What the guard takes for a localhost variant: a name up to a `/` or a `:`, or one in brackets,
up to a `/`, a `]` or another `://`. -/
inductive ReadsLocal : List Char → Prop
  | plain {name tail : List Char} (hname : name ∈ plainNames) (htail : StartsIn ['/', ':'] tail) :
      ReadsLocal (name ++ tail)
  | bracketed {name tail : List Char} (hname : name ∈ localNames)
      (htail : StartsIn ['/', ']'] tail ∨ schemeEnd <+: tail) : ReadsLocal ('[' :: (name ++ tail))

theorem before_name_append {name : List Char} (hname : name ∈ localNames) (tail : List Char) :
    before schemeEnd (name ++ tail) = name ++ before schemeEnd tail := by
  refine List.before_append ?_
  simp only [localNames, List.mem_cons, List.not_mem_nil, or_false] at hname
  obtain rfl | rfl | rfl := hname
  · exact List.breakOn_append (by decide) tail
  · exact List.breakOn_append (by decide) tail
  · simp [breakOn, schemeEnd, Option.map_map, Function.comp_def]

theorem mem_localNames_of_mem_plainNames {name : List Char} (h : name ∈ plainNames) :
    name ∈ localNames := by
  revert name
  decide

theorem before_bracket (s : List Char) :
    before schemeEnd ('[' :: s) = '[' :: before schemeEnd s :=
  List.before_append (l := ['[']) (List.breakOn_append (by decide) s)

/-- The host of a text that begins with a bracket. -/
theorem originHost_bracket (s : List Char) :
    originHost ('[' :: s) = s.takeWhile fun c => decide (c ∉ ['/', ']']) := by
  rw [originHost, List.takeWhile_cons_of_pos (by decide)]
  exact List.takeWhile_ne_takeWhile_ne ']' '/' s

/-- The host of a text that begins with no bracket. -/
theorem originHost_plain {s : List Char} (h : '[' ∉ s.head?) :
    originHost s = s.takeWhile fun c => decide (c ∉ ['/', ':']) := by
  rw [← List.takeWhile_ne_takeWhile_ne, originHost]
  split
  · next s' hs =>
    cases s with
    | nil => simp at hs
    | cons c s =>
      rw [List.takeWhile_cons] at hs
      split_ifs at hs
      exact absurd (congrArg some (List.cons.inj hs).1) h
  · rfl

theorem mem_plainNames {name : List Char} (hname : name ∈ localNames) (h : ':' ∉ name) :
    name ∈ plainNames := by
  simp only [localNames, List.mem_cons, List.not_mem_nil, or_false] at hname
  obtain rfl | rfl | rfl := hname
  · decide
  · decide
  · exact absurd h (by decide)

/-- Some characters are in none of some names. -/
theorem notMem_of_mem_names {names : List (List Char)} {stops : List Char}
    (h : (names.all fun name => name.all fun c => decide (c ∉ stops)) = true) {name : List Char}
    (hname : name ∈ names) : ∀ c ∈ name, c ∉ stops := by
  intro c hc
  exact of_decide_eq_true (List.all_eq_true.mp (List.all_eq_true.mp h name hname) c hc)

theorem not_mem_of_mem_plainNames {name : List Char} (hname : name ∈ plainNames) :
    ∀ c ∈ name, c ∉ ['/', ':'] := notMem_of_mem_names (by decide) hname

theorem not_mem_of_mem_localNames {name : List Char} (hname : name ∈ localNames) :
    ∀ c ∈ name, c ∉ ['/', ']'] := notMem_of_mem_names (by decide) hname

theorem head?_plainName_append {name : List Char} (hname : name ∈ plainNames) (s : List Char) :
    '[' ∉ (name ++ s).head? := by
  simp only [plainNames, List.mem_cons, List.not_mem_nil, or_false] at hname
  obtain rfl | rfl := hname <;> simp

/-- **What the guard lets through**, of the text after the first `://`. -/
theorem originHost_mem_iff (rest : List Char) :
    originHost (before schemeEnd rest) ∈ localNames ↔ ReadsLocal rest := by
  constructor
  · intro h
    obtain ⟨after, hrest, hafter⟩ := List.exists_eq_before_append schemeEnd rest
    by_cases hhead : '[' ∈ (before schemeEnd rest).head?
    · obtain ⟨s, hs⟩ := List.head?_eq_some_iff.mp hhead
      rw [hs] at h hrest
      rw [originHost_bracket] at h
      obtain ⟨tail, hs', htail⟩ := List.exists_eq_takeWhile_append ['/', ']'] s
      rw [hrest, hs', List.cons_append, List.append_assoc]
      refine ReadsLocal.bracketed h ?_
      obtain rfl | hpre := hafter
      · exact Or.inl (by rwa [List.append_nil])
      · cases tail with
        | nil => exact Or.inr hpre
        | cons c tail => exact Or.inl htail
    · rw [originHost_plain hhead] at h
      obtain ⟨tail, hs, htail⟩ :=
        List.exists_eq_takeWhile_append ['/', ':'] (before schemeEnd rest)
      rw [hrest, hs, List.append_assoc]
      refine ReadsLocal.plain (mem_plainNames h fun hc => ?_) (htail.append fun _ => ?_)
      · exact absurd (List.mem_takeWhile_imp hc) (by decide)
      · obtain rfl | ⟨u, rfl⟩ := hafter
        · simp [StartsIn]
        · intro c hc
          obtain rfl : ':' = c := Option.some.inj hc
          decide
  · rintro (⟨hname, htail⟩ | ⟨hname, htail⟩)
    · rw [before_name_append (mem_localNames_of_mem_plainNames hname),
        originHost_plain (head?_plainName_append hname _), List.takeWhile_notMem_append
          (not_mem_of_mem_plainNames hname) (htail.of_prefix (List.before_prefix _ _))]
      exact mem_localNames_of_mem_plainNames hname
    · rw [before_bracket, before_name_append hname, originHost_bracket,
        List.takeWhile_notMem_append (not_mem_of_mem_localNames hname)]
      · exact hname
      · obtain htail | htail := htail
        · exact htail.of_prefix (List.before_prefix _ _)
        · rw [List.before_of_prefix (by decide) htail]
          simp [StartsIn]

/-! ### Local authorities -/

/-- A local host, with or without a port. -/
def IsLocal (s : List Char) : Prop :=
  ∃ host ∈ localHosts, ∃ port, isPort port = true ∧ s = host ++ port

theorem at_notMem_of_mem_localHosts {host : List Char} (h : host ∈ localHosts) : '@' ∉ host := by
  revert host
  decide

theorem mem_localHosts_of_mem_plainNames {name : List Char} (h : name ∈ plainNames) :
    name ∈ localHosts := by
  revert name
  decide

theorem at_notMem_of_isPort {s : List Char} (h : isPort s = true) : '@' ∉ s := by
  cases s with
  | nil => exact List.not_mem_nil
  | cons c s =>
    rw [isPort, Bool.and_eq_true, decide_eq_true_eq] at h
    obtain ⟨rfl, hs⟩ := h
    intro hat
    obtain hat | hat := List.mem_cons.mp hat
    · exact absurd hat (by decide)
    · exact absurd (List.all_eq_true.mp hs _ hat) (by decide)

theorem IsLocal.at_notMem {s : List Char} (h : IsLocal s) : '@' ∉ s := by
  obtain ⟨host, hhost, port, hport, rfl⟩ := h
  intro hat
  exact (List.mem_append.mp hat).elim (at_notMem_of_mem_localHosts hhost)
    (at_notMem_of_isPort hport)

theorem at_notMem_of_isName {s : List Char} (h : isName [':'] s = true) : '@' ∉ s := by
  fun_induction isName [':'] s with
  | case1 => exact List.not_mem_nil
  | case2 a b s ih =>
    simp only [Bool.and_eq_true] at h
    obtain ⟨⟨ha, hb⟩, hs⟩ := h
    intro hat
    simp only [List.mem_cons] at hat
    obtain hat | rfl | rfl | hat := hat
    · exact absurd hat (by decide)
    · exact absurd ha (by decide)
    · exact absurd hb (by decide)
    · exact ih hs hat
  | case3 c s _ ih =>
    simp only [Bool.and_eq_true] at h
    intro hat
    obtain rfl | hat := List.mem_cons.mp hat
    · exact absurd h.1 (by decide)
    · exact ih h.2 hat

theorem isName_of_mem_plainNames {name : List Char} (hname : name ∈ plainNames) :
    isName [] name = true := by
  revert name
  decide

theorem hostPort_plainName {name port : List Char} (hname : name ∈ plainNames)
    (hport : isPort port = true) : hostPort (name ++ port) = some name := by
  have hcolon : ∀ c ∈ name, decide (c ≠ ':') = true := fun c hc =>
    decide_eq_true fun heq => not_mem_of_mem_plainNames hname c hc (by simp [heq])
  have htake : port.takeWhile (· ≠ ':') = [] ∧ port.dropWhile (· ≠ ':') = port := by
    cases port with
    | nil => exact ⟨rfl, rfl⟩
    | cons c s =>
      rw [isPort, Bool.and_eq_true, decide_eq_true_eq] at hport
      simp [hport.1]
  rw [hostPort, List.takeWhile_append_of_pos hcolon, List.dropWhile_append_of_pos hcolon, htake.1,
    htake.2, List.append_nil, isName_of_mem_plainNames hname, hport]
  · rfl
  · intro s hs
    exact head?_plainName_append hname port (by rw [hs]; rfl)

/-- **A host and a port are local** when they are written as a local host and a port. -/
theorem hostPort_local_iff (s : List Char) :
    (∃ host ∈ hostPort s, host ∈ localHosts) ↔ IsLocal s := by
  constructor
  · rintro ⟨host, hhost, hlocal⟩
    refine ⟨host, hlocal, ?_⟩
    revert hhost
    fun_cases hostPort s with
    | case2 s address port hcut hport =>
      intro hhost
      obtain rfl := Option.some.inj hhost
      exact ⟨port, hport, by rw [List.eq_of_breakOn hcut]; simp⟩
    | case4 =>
      next hname =>
      intro hhost
      obtain rfl := Option.some.inj hhost
      exact ⟨_, (Bool.and_eq_true_iff.mp hname).2, List.takeWhile_append_dropWhile.symm⟩
    | _ => simp
  · rintro ⟨host, hhost, port, hport, rfl⟩
    refine ⟨host, ?_, hhost⟩
    simp only [localHosts, List.mem_cons, List.not_mem_nil, or_false] at hhost
    obtain rfl | rfl | rfl := hhost
    · exact hostPort_plainName (by decide) hport
    · exact hostPort_plainName (by decide) hport
    · simp [hostPort, hport, breakOn]

/-- The host of an authority is local when that of the part after the userinfo is. -/
theorem authorityHost_local_iff (s : List Char) :
    (∃ host ∈ authorityHost s, host ∈ localHosts) ↔
      IsLocal s ∨ ∃ userinfo hostport, s = userinfo ++ '@' :: hostport ∧
        isName [':'] userinfo = true ∧ IsLocal hostport := by
  constructor
  · fun_cases authorityHost s with
    | case1 => exact fun h => Or.inl ((hostPort_local_iff s).mp h)
    | case2 userinfo host hcut hname =>
      intro h
      exact Or.inr ⟨userinfo, host, List.eq_of_breakOn hcut, hname, (hostPort_local_iff host).mp h⟩
    | case3 => simp
  · rintro (hs | ⟨userinfo, hostport, rfl, hname, hs⟩)
    · rw [authorityHost, List.breakOn_eq_none hs.at_notMem]
      exact (hostPort_local_iff s).mpr hs
    · rw [authorityHost, List.breakOn_append (at_notMem_of_isName hname)]
      simp [breakOn, hname]
      exact (hostPort_local_iff hostport).mpr hs

/-- The authority names a local host. -/
def NamesLocal (s : List Char) : Prop := ∃ host ∈ authorityHost s, host ∈ localHosts

/-- The userinfo and the host of an authority `password@host`, after a login name. -/
def LocalLogin (s : List Char) : Prop :=
  ∃ password host, s = password ++ '@' :: host ∧ isName [':'] password = true ∧ IsLocal host

theorem authority_append {name : List Char} (h : ∀ c ∈ name, c ∉ ['/', '?', '#'])
    (tail : List Char) : authority (name ++ tail) = name ++ authority tail :=
  List.takeWhile_append_of_pos fun c hc => decide_eq_true (h c hc)

theorem authority_name_append {name : List Char} (hname : name ∈ localNames) (tail : List Char) :
    authority (name ++ tail) = name ++ authority tail :=
  authority_append (notMem_of_mem_names (by decide) hname) tail

theorem eq_cons_of_authority {c : Char} {s port : List Char} (h : authority s = c :: port) :
    ∃ rest, s = c :: rest ∧ authority rest = port := by
  cases s with
  | nil => simp [authority] at h
  | cons d rest =>
    rw [authority, List.takeWhile_cons] at h
    split_ifs at h
    obtain ⟨rfl, hport⟩ := List.cons.inj h
    exact ⟨rest, rfl, hport⟩

/-- A name in brackets is local when it is the address, the bracket ends it, and a port follows. -/
theorem namesLocal_bracketed_iff {name : List Char} (hname : name ∈ localNames)
    (tail : List Char) :
    NamesLocal (authority ('[' :: (name ++ tail))) ↔
      name = "::1".toList ∧ ∃ port, tail = ']' :: port ∧ isPort (authority port) = true := by
  have hauth : authority ('[' :: (name ++ tail)) = '[' :: (name ++ authority tail) := by
    rw [← authority_name_append hname]
    rfl
  rw [NamesLocal, hauth, authorityHost_local_iff]
  constructor
  · rintro (⟨host, hhost, port, hport, heq⟩ | ⟨userinfo, host, heq, huser, -⟩)
    · simp only [localHosts, localNames, List.mem_cons, List.not_mem_nil, or_false] at hhost hname
      obtain rfl | rfl | rfl := hhost
      · simp at heq
      · simp at heq
      · obtain rfl | rfl | rfl := hname
        · simp at heq
        · simp at heq
        · simp only [String.reduceToList, List.cons_append, List.nil_append, List.cons.injEq,
            true_and] at heq
          obtain ⟨rest, rfl, rfl⟩ := eq_cons_of_authority heq
          exact ⟨rfl, rest, rfl, hport⟩
    · cases userinfo with
      | nil => exact absurd (List.cons.inj heq).1 (by decide)
      | cons c userinfo =>
        obtain ⟨rfl, -⟩ := List.cons.inj heq
        exact absurd huser (by simp [isName, isNameChar])
  · rintro ⟨rfl, port, rfl, hport⟩
    exact Or.inl ⟨"[::1]".toList, by decide, authority port, hport, rfl⟩

/-- A name with a port is local when the port is one, or it is the password of a login. -/
theorem namesLocal_port_iff {name : List Char} (hname : name ∈ plainNames) (tail : List Char) :
    NamesLocal (authority (name ++ ':' :: tail)) ↔
      (authority tail).all Char.isDigit = true ∨ LocalLogin (authority tail) := by
  have hauth : authority (name ++ ':' :: tail) = name ++ ':' :: authority tail := by
    rw [authority_name_append (mem_localNames_of_mem_plainNames hname)]
    rfl
  have hcolon : ∀ s, isName [':'] (name ++ ':' :: s) = isName [':'] s := by
    intro s
    simp only [plainNames, List.mem_cons, List.not_mem_nil, or_false] at hname
    obtain rfl | rfl := hname <;> rfl
  rw [NamesLocal, hauth, authorityHost_local_iff]
  constructor
  · rintro (⟨host, hhost, port, hport, heq⟩ | ⟨userinfo, host, heq, huser, hhost⟩)
    · simp only [localHosts, plainNames, List.mem_cons, List.not_mem_nil, or_false] at hhost hname
      left
      obtain rfl | rfl | rfl := hhost <;> obtain rfl | rfl := hname <;> simp at heq
      all_goals
        subst heq
        simpa [isPort] using hport
    · right
      obtain ⟨s, rfl, hs⟩ | ⟨s, rfl, hs⟩ := List.append_eq_append_iff.mp heq
      · cases s with
        | nil => exact absurd (List.cons.inj hs).1 (by decide)
        | cons c password =>
          obtain ⟨rfl, htail⟩ := List.cons.inj hs
          exact ⟨password, host, htail, (hcolon password).symm.trans huser, hhost⟩
      · cases s with
        | nil => exact absurd (List.cons.inj hs).1 (by decide)
        | cons c s =>
          obtain ⟨rfl, -⟩ := List.cons.inj hs
          have hat := at_notMem_of_mem_localHosts (mem_localHosts_of_mem_plainNames hname)
          exact absurd hat (by simp)
  · rintro (hdigits | ⟨password, host, heq, huser, hhost⟩)
    · exact Or.inl ⟨name, mem_localHosts_of_mem_plainNames hname, ':' :: authority tail,
        by simpa [isPort] using hdigits, rfl⟩
    · rw [heq]
      exact Or.inr ⟨name ++ ':' :: password, host, by simp, (hcolon password).trans huser, hhost⟩

/-- A name that ends the authority is local. -/
theorem namesLocal_of_startsIn {name tail : List Char} (hname : name ∈ plainNames)
    (htail : StartsIn ['/'] tail) : NamesLocal (authority (name ++ tail)) := by
  have hnil : authority tail = [] := by
    cases tail with
    | nil => rfl
    | cons c tail =>
      obtain rfl := List.mem_singleton.mp (htail c rfl)
      rfl
  rw [NamesLocal, authority_name_append (mem_localNames_of_mem_plainNames hname), hnil,
    authorityHost_local_iff]
  exact Or.inl ⟨name, mem_localHosts_of_mem_plainNames hname, [], rfl, rfl⟩

/-! ### What the guard misreads -/

/-- The texts that pass the guard and name no local host. -/
inductive Fault (origin : List Char) : Prop
  /-- There is no `://`, or no scheme before it. -/
  | scheme (hread : ReadsLocal (originRest origin))
      (hscheme : ∀ cut ∈ breakOn schemeEnd origin, isScheme cut.1 = false)
  /-- The brackets are not around the address, or more than a port follows them. -/
  | brackets {name tail : List Char} (hrest : originRest origin = '[' :: (name ++ tail))
      (hname : name ∈ localNames) (htail : StartsIn ['/', ']'] tail ∨ schemeEnd <+: tail)
      (hport : ∀ port, name = "::1".toList → tail = ']' :: port → isPort (authority port) = false)
  /-- What follows the colon is not a port, and not the password of a login at a local host. -/
  | port {name tail : List Char} (hrest : originRest origin = name ++ ':' :: tail)
      (hname : name ∈ plainNames) (hport : (authority tail).all Char.isDigit = false)
      (hlogin : ¬ LocalLogin (authority tail))

theorem Fault.readsLocal {origin : List Char} (h : Fault origin) :
    ReadsLocal (originRest origin) := by
  cases h with
  | scheme hread => exact hread
  | brackets hrest hname htail => exact hrest ▸ ReadsLocal.bracketed hname htail
  | port hrest hname =>
    refine hrest ▸ ReadsLocal.plain hname ?_
    intro c hc
    obtain rfl : ':' = c := Option.some.inj hc
    decide

/-- A text names a local host by its scheme and its authority. -/
theorem uriHost_local_iff (origin : List Char) :
    (∃ host ∈ uriHost origin, host ∈ localHosts) ↔
      (∃ cut ∈ breakOn schemeEnd origin, isScheme cut.1 = true) ∧
        NamesLocal (authority (originRest origin)) := by
  rw [uriHost, originRest]
  cases breakOn schemeEnd origin with
  | none => simp
  | some cut =>
    cases hscheme : isScheme cut.1 with
    | false => simp [hscheme]
    | true => simp [hscheme, NamesLocal]

/-- **What passes the guard names a local host** except for the faults. -/
theorem uriHost_local_iff_not_fault {origin : List Char} (h : ReadsLocal (originRest origin)) :
    (∃ host ∈ uriHost origin, host ∈ localHosts) ↔ ¬ Fault origin := by
  rw [uriHost_local_iff]
  constructor
  · rintro ⟨⟨cut, hcut, hscheme⟩, hlocal⟩ hfault
    cases hfault with
    | scheme _ hno => exact absurd (hno cut hcut) (by simp [hscheme])
    | brackets hrest hname _ hport =>
      rw [hrest, namesLocal_bracketed_iff hname] at hlocal
      obtain ⟨haddr, port, htail, hok⟩ := hlocal
      exact absurd (hport port haddr htail) (by simp [hok])
    | port hrest hname hport hlogin =>
      rw [hrest, namesLocal_port_iff hname] at hlocal
      exact hlocal.elim (fun hok => absurd hport (by simp [hok])) hlogin
  · intro hfault
    refine ⟨?_, ?_⟩
    · by_contra hno
      refine hfault (Fault.scheme h fun cut hcut => ?_)
      exact Bool.eq_false_iff.mpr fun hscheme => hno ⟨cut, hcut, hscheme⟩
    · generalize hrest : originRest origin = rest at h
      cases h with
      | @plain name tail hname htail =>
        cases tail with
        | nil => exact namesLocal_of_startsIn hname (by simp [StartsIn])
        | cons c tail =>
          have hc : c = '/' ∨ c = ':' := by simpa using htail c rfl
          obtain rfl | rfl := hc
          · exact namesLocal_of_startsIn hname fun c hc => by simpa using hc.symm
          · rw [namesLocal_port_iff hname]
            by_contra hno
            obtain ⟨hdigits, hlogin⟩ := not_or.mp hno
            exact hfault (Fault.port hrest hname (Bool.eq_false_iff.mpr hdigits) hlogin)
      | bracketed hname htail =>
        rw [namesLocal_bracketed_iff hname]
        by_contra hno
        refine hfault (Fault.brackets hrest hname htail ?_)
        intro port haddr hport
        exact Bool.eq_false_iff.mpr fun hok => hno ⟨haddr, port, hport, hok⟩

/-- **A request that passes is of a local origin** when its header is text, and none of the faults
is in it. -/
theorem admitsOnlyLocal_iff (header : Option (List UInt8)) :
    AdmitsOnlyLocal header ↔ ∀ value ∈ header, ∃ origin ∈ toStr value, ¬ Fault origin := by
  cases header with
  | none => simp [AdmitsOnlyLocal]
  | some value =>
    cases htext : toStr value with
    | none => simp [AdmitsOnlyLocal, checkOrigin, htext]
    | some origin =>
      have hpass : checkOrigin (some value) = isAllowedOrigin origin := by
        rw [checkOrigin, Option.bind_some, htext]
      have hread : isAllowedOrigin origin = true ↔ ReadsLocal (originRest origin) := by
        rw [isAllowedOrigin, decide_eq_true_iff, originHost_mem_iff]
      simp only [AdmitsOnlyLocal, hpass, hread, Option.mem_def, Option.some.injEq, forall_eq',
        htext, exists_eq_left']
      by_cases h : ReadsLocal (originRest origin)
      · exact ⟨fun hlocal => (uriHost_local_iff_not_fault h).mp (hlocal h),
          fun hfault _ => (uriHost_local_iff_not_fault h).mpr hfault⟩
      · exact ⟨fun _ hfault => h hfault.readsLocal, fun _ hlocal => absurd hlocal h⟩

/-- The header of an origin whose login is a local name. -/
def loginHeader : List UInt8 :=
  "http://localhost:x@evil.com".toList.map fun c => UInt8.ofNat c.toNat

/-- **A local name as the login of another host** passes the guard, and so does a header that is
not text. -/
theorem not_admitsOnlyLocal_login :
    ¬ AdmitsOnlyLocal (some loginHeader) ∧ ¬ AdmitsOnlyLocal (some [0xFF]) := by
  have htext : toStr loginHeader = some "http://localhost:x@evil.com".toList := by decide
  have hhost : uriHost "http://localhost:x@evil.com".toList = some "evil.com".toList := by decide
  constructor
  · intro h
    obtain ⟨origin, horigin, host, hname, hlocal⟩ := h (by decide) loginHeader rfl
    obtain rfl := Option.some.inj (htext.symm.trans horigin)
    obtain rfl := Option.some.inj (hhost.symm.trans hname)
    exact absurd hlocal (by decide)
  · intro h
    obtain ⟨origin, horigin, -⟩ := h rfl [0xFF] rfl
    have hbytes : toStr [0xFF] = none := by decide
    simp [hbytes] at horigin

end Aniani.Mcp
