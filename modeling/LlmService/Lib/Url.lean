import LlmService.Lib.Infix

/-!
# Splitting URLs

`urlsplit` and `urlunsplit`, for URLs with a network location. What
`urlsplit` makes of such a URL is well formed (`wellFormed_of_urlsplit`), and
well-formed parts are split as they were put together (`urlsplit_urlunsplit`).
-/

namespace LlmService.Url

structure SplitResult where
  scheme : List Char
  netloc : List Char
  path : List Char
  query : List Char
  fragment : List Char
  deriving DecidableEq

/-- What is before the first `c`, and what is after it. -/
def cutAt (c : Char) (text : List Char) : List Char × List Char :=
  (text.takeWhile (· ≠ c), (text.dropWhile (· ≠ c)).tail)

/-- `_WHATWG_C0_CONTROL_OR_SPACE` -/
def isC0OrSpace (c : Char) : Bool := c.toNat ≤ 32

/-- `_UNSAFE_URL_BYTES_TO_REMOVE` -/
def isUnsafe (c : Char) : Bool := c = '\t' || c = '\r' || c = '\n'

/-- `scheme_chars` -/
def isSchemeChar (c : Char) : Bool := c.isAlphanum || c = '+' || c = '-' || c = '.'

/-- What ends the network location. -/
def isDelim (c : Char) : Bool := c = '/' || c = '?' || c = '#'

def clean (url : List Char) : List Char :=
  (url.dropWhile isC0OrSpace).filter fun c => !isUnsafe c

def splitScheme (url : List Char) : List Char × List Char :=
  let name := url.takeWhile (· ≠ ':')
  match url.drop name.length, name with
  | ':' :: rest, c :: _ =>
    -- with another character before the colon, the URL has no scheme
    if c.isAlpha && name.all isSchemeChar then (PyText.lower name, rest) else ([], url)
  | _, _ => ([], url)

/-- `_splitnetloc`, after two slashes. -/
def splitNetloc : List Char → List Char × List Char
  | '/' :: '/' :: rest => (rest.takeWhile fun c => !isDelim c, rest.dropWhile fun c => !isDelim c)
  | url => ([], url)

/-- `urlsplit`; the check of the network location is a parameter, and `none` a `ValueError`. -/
def urlsplit (netlocOk : List Char → Bool) (url : List Char) : Option SplitResult :=
  let (scheme, url) := splitScheme (clean url)
  let (netloc, url) := splitNetloc url
  let (url, fragment) := cutAt '#' url
  let (path, query) := cutAt '?' url
  if netlocOk netloc then some { scheme, netloc, path, query, fragment } else none

/-- `urlunsplit`, of parts with a network location. -/
def urlunsplit (r : SplitResult) : List Char :=
  r.scheme ++ ':' :: '/' :: '/' :: (r.netloc
    ++ ((if r.path = [] ∨ r.path.head? = some '/' then r.path else '/' :: r.path)
    ++ ((if r.query = [] then [] else '?' :: r.query)
    ++ (if r.fragment = [] then [] else '#' :: r.fragment))))

/-- A scheme as `urlsplit` gives it. -/
def IsScheme (scheme : List Char) : Prop :=
  (∃ c ∈ scheme.head?, c.isAlpha = true) ∧ (∀ c ∈ scheme, isSchemeChar c = true) ∧
    PyText.lower scheme = scheme

structure SplitResult.WellFormed (r : SplitResult) : Prop where
  scheme : IsScheme r.scheme
  netloc_ne : r.netloc ≠ []
  netloc : ∀ c ∈ r.netloc, isDelim c = false ∧ isUnsafe c = false
  path_head : ∀ c ∈ r.path.head?, c = '/'
  path : ∀ c ∈ r.path, c ≠ '?' ∧ c ≠ '#' ∧ isUnsafe c = false
  query : ∀ c ∈ r.query, c ≠ '#' ∧ isUnsafe c = false
  fragment : ∀ c ∈ r.fragment, isUnsafe c = false

/-! ## Cutting -/

theorem cutAt_append_cons {c : Char} {a : List Char} (ha : c ∉ a) (b : List Char) :
    cutAt c (a ++ c :: b) = (a, b) := by
  have hall : ∀ d ∈ a, decide (d ≠ c) = true := by
    intro d hd
    have hne : d ≠ c := fun h => ha (h ▸ hd)
    simpa using hne
  rw [cutAt, List.takeWhile_append_of_pos hall, List.dropWhile_append_of_pos hall]
  simp

theorem cutAt_of_not_mem {c : Char} {a : List Char} (ha : c ∉ a) : cutAt c a = (a, []) := by
  have hall : ∀ d ∈ a, decide (d ≠ c) = true := by
    intro d hd
    have hne : d ≠ c := fun h => ha (h ▸ hd)
    simpa using hne
  rw [cutAt, List.takeWhile_eq_self_iff.mpr hall, List.dropWhile_eq_nil_iff.mpr hall]
  rfl

/-- A part that is put after a character if it is there is cut off there again. -/
theorem cutAt_append_optional {c : Char} {a : List Char} (ha : c ∉ a) (b : List Char) :
    cutAt c (a ++ if b = [] then [] else c :: b) = (a, b) := by
  by_cases hb : b = []
  · rw [if_pos hb, List.append_nil, cutAt_of_not_mem ha, hb]
  · rw [if_neg hb, cutAt_append_cons ha]

theorem not_mem_cutAt_fst (c : Char) (text : List Char) : c ∉ (cutAt c text).1 := by
  intro h
  simpa using List.mem_takeWhile_imp h

theorem mem_of_mem_cutAt_fst {c d : Char} {text : List Char} (h : d ∈ (cutAt c text).1) :
    d ∈ text := (List.takeWhile_prefix _).subset h

theorem head_cutAt_fst {c d : Char} {text : List Char} (h : d ∈ (cutAt c text).1.head?) :
    d ∈ text.head? ∧ d ≠ c := by
  cases text with
  | nil => cases h
  | cons e text =>
    by_cases he : e = c
    · rw [cutAt, List.takeWhile_cons_of_neg (by simpa using he)] at h
      cases h
    · rw [cutAt, List.takeWhile_cons_of_pos (by simpa using he)] at h
      obtain rfl : e = d := Option.some.inj h
      exact ⟨rfl, he⟩

theorem mem_of_mem_cutAt_snd {c d : Char} {text : List Char} (h : d ∈ (cutAt c text).2) :
    d ∈ text := (List.dropWhile_suffix _).subset (List.mem_of_mem_tail h)

/-! ## Putting together and splitting -/

theorem isAlpha_bounds {c : Char} (h : c.isAlpha = true) : 65 ≤ c.toNat := by
  unfold Char.isAlpha Char.isUpper Char.isLower at h
  simp only [Bool.or_eq_true, Bool.and_eq_true,
    decide_eq_true_eq, UInt32.le_iff_toNat_le, ge_iff_le] at h
  change (65 ≤ c.toNat ∧ c.toNat ≤ 90) ∨ (97 ≤ c.toNat ∧ c.toNat ≤ 122) at h
  omega

theorem not_isC0OrSpace_of_isAlpha {c : Char} (h : c.isAlpha = true) : isC0OrSpace c = false := by
  have := isAlpha_bounds h
  simp only [isC0OrSpace, decide_eq_false_iff_not]
  omega

/-- No character of a scheme is removed from a URL, or ends the scheme. -/
theorem isSchemeChar_ne {c : Char} (h : isSchemeChar c = true) :
    isUnsafe c = false ∧ c ≠ ':' := by
  have hnot : ['\t', '\r', '\n', ':'].all (fun d => !isSchemeChar d) = true := by decide
  have hne : ∀ d ∈ ['\t', '\r', '\n', ':'], c ≠ d := by
    intro d hd heq
    have hd' := List.all_eq_true.mp hnot d hd
    rw [← heq, h] at hd'
    cases hd'
  constructor
  · have htab : c ≠ '\t' := hne _ (by decide)
    have hreturn : c ≠ '\r' := hne _ (by decide)
    have hbreak : c ≠ '\n' := hne _ (by decide)
    simp [isUnsafe, htab, hreturn, hbreak]
  · exact hne ':' (by decide)

theorem clean_append {scheme rest : List Char} (h : IsScheme scheme)
    (hrest : ∀ c ∈ rest, isUnsafe c = false) : clean (scheme ++ rest) = scheme ++ rest := by
  obtain ⟨⟨c, hc, halpha⟩, hchars, -⟩ := h
  obtain ⟨tail, rfl⟩ := List.head?_eq_some_iff.mp hc
  rw [clean, List.cons_append,
    List.dropWhile_cons_of_neg (by simp [not_isC0OrSpace_of_isAlpha halpha])]
  apply List.filter_eq_self.mpr
  intro d hd
  rw [← List.cons_append, List.mem_append] at hd
  rcases hd with hd | hd
  · simp [(isSchemeChar_ne (hchars d hd)).1]
  · simp [hrest d hd]

theorem splitScheme_append {scheme : List Char} (h : IsScheme scheme) (rest : List Char) :
    splitScheme (scheme ++ ':' :: rest) = (scheme, rest) := by
  obtain ⟨⟨c, hc, halpha⟩, hchars, hlower⟩ := h
  have hname : (scheme ++ ':' :: rest).takeWhile (· ≠ ':') = scheme := by
    have hall : ∀ d ∈ scheme, decide (d ≠ ':') = true := by
      intro d hd
      simpa using (isSchemeChar_ne (hchars d hd)).2
    rw [List.takeWhile_append_of_pos hall]
    simp
  have hall : scheme.all isSchemeChar = true := List.all_eq_true.mpr hchars
  obtain ⟨tail, rfl⟩ := List.head?_eq_some_iff.mp hc
  simp only [splitScheme, hname, List.drop_left, halpha, hall, hlower]
  rfl

theorem splitNetloc_append {netloc rest : List Char} (h : ∀ c ∈ netloc, isDelim c = false)
    (hrest : ∀ c ∈ rest.head?, isDelim c = true) :
    splitNetloc ('/' :: '/' :: (netloc ++ rest)) = (netloc, rest) := by
  have hall : ∀ c ∈ netloc, (!isDelim c) = true := by
    intro c hc
    rw [h c hc]
    rfl
  rw [splitNetloc, List.takeWhile_append_of_pos hall, List.dropWhile_append_of_pos hall]
  cases rest with
  | nil => simp
  | cons c rest =>
    have hc : isDelim c = true := hrest c rfl
    simp [hc]

/-- What a part adds to a URL: nothing, or the part after a character. -/
theorem mem_optional {a c : Char} {part : List Char} (h : c ∈ if part = [] then [] else a :: part) :
    c = a ∨ c ∈ part := by
  split at h
  · cases h
  · exact List.mem_cons.mp h

namespace SplitResult.WellFormed

variable {r : SplitResult}

theorem urlunsplit_eq (h : r.WellFormed) :
    urlunsplit r = r.scheme ++ ':' :: '/' :: '/' :: (r.netloc ++ (r.path
      ++ ((if r.query = [] then [] else '?' :: r.query)
      ++ (if r.fragment = [] then [] else '#' :: r.fragment)))) := by
  have hslash : r.path = [] ∨ r.path.head? = some '/' := by
    cases hpath : r.path with
    | nil => exact .inl rfl
    | cons c path => exact .inr (by rw [h.path_head c (by rw [hpath]; rfl)]; rfl)
  rw [urlunsplit, if_pos hslash]

/-- What follows the network location begins with a delimiter. -/
theorem isDelim_head (h : r.WellFormed) :
    ∀ c ∈ (r.path ++ ((if r.query = [] then [] else '?' :: r.query)
      ++ (if r.fragment = [] then [] else '#' :: r.fragment))).head?, isDelim c = true := by
  intro c hc
  cases hpath : r.path with
  | cons d path =>
    rw [hpath] at hc
    obtain rfl : d = c := Option.some.inj hc
    rw [h.path_head d (by rw [hpath]; rfl)]
    decide
  | nil =>
    by_cases hquery : r.query = []
    · by_cases hfragment : r.fragment = []
      · simp [hpath, hquery, hfragment] at hc
      · simp [hpath, hquery, hfragment] at hc
        rw [← hc]
        decide
    · simp [hpath, hquery] at hc
      rw [← hc]
      decide

/-- No character is removed from a URL that is put together. -/
theorem isUnsafe_rest (h : r.WellFormed) :
    ∀ c ∈ ':' :: '/' :: '/' :: (r.netloc ++ (r.path
      ++ ((if r.query = [] then [] else '?' :: r.query)
      ++ (if r.fragment = [] then [] else '#' :: r.fragment)))), isUnsafe c = false := by
  intro c hc
  simp only [List.mem_cons, List.mem_append] at hc
  rcases hc with rfl | rfl | rfl | hc | hc | hc | hc
  · decide
  · decide
  · decide
  · exact (h.netloc c hc).2
  · exact (h.path c hc).2.2
  · rcases mem_optional hc with rfl | hc
    · decide
    · exact (h.query c hc).2
  · rcases mem_optional hc with rfl | hc
    · decide
    · exact h.fragment c hc

theorem not_mem_path (h : r.WellFormed) : '?' ∉ r.path := fun hmem => (h.path _ hmem).1 rfl

theorem not_mem_path_query (h : r.WellFormed) :
    '#' ∉ r.path ++ if r.query = [] then [] else '?' :: r.query := by
  intro hmem
  rcases List.mem_append.mp hmem with hmem | hmem
  · exact (h.path _ hmem).2.1 rfl
  · rcases mem_optional hmem with hmark | hmem
    · exact absurd hmark (by decide)
    · exact (h.query _ hmem).1 rfl

end SplitResult.WellFormed

/-- Well-formed parts are split as they were put together. -/
theorem urlsplit_urlunsplit {netlocOk : List Char → Bool} {r : SplitResult} (h : r.WellFormed)
    (hok : netlocOk r.netloc = true) : urlsplit netlocOk (urlunsplit r) = some r := by
  rw [h.urlunsplit_eq, urlsplit, clean_append h.scheme h.isUnsafe_rest,
    splitScheme_append h.scheme]
  dsimp only
  rw [splitNetloc_append (fun c hc => (h.netloc c hc).1) h.isDelim_head, ← List.append_assoc]
  dsimp only
  rw [cutAt_append_optional h.not_mem_path_query]
  dsimp only
  rw [cutAt_append_optional h.not_mem_path]
  dsimp only
  rw [if_pos hok]

theorem mem_of_mem_splitScheme {url : List Char} {c : Char} (h : c ∈ (splitScheme url).2) :
    c ∈ url := by
  simp only [splitScheme] at h
  split at h
  · next rest d _ hdrop _ =>
    split at h
    · have hmem : c ∈ url.drop (url.takeWhile (· ≠ ':')).length := by
        rw [hdrop]
        exact List.mem_cons_of_mem _ h
      exact List.mem_of_mem_drop hmem
    · exact h
  · exact h

/-- The network location has no delimiter, and one begins what follows it. -/
theorem splitNetloc_cases (url : List Char) :
    splitNetloc url = ([], url) ∨
      (∀ c ∈ (splitNetloc url).1, isDelim c = false ∧ c ∈ url) ∧
        (∀ c ∈ (splitNetloc url).2.head?, isDelim c = true) ∧
        ∀ c ∈ (splitNetloc url).2, c ∈ url := by
  rw [splitNetloc.eq_def]
  split
  · next rest =>
    right
    refine ⟨?_, ?_, ?_⟩
    · intro c hc
      have hmem := (List.takeWhile_prefix _).subset hc
      refine ⟨by simpa using List.mem_takeWhile_imp hc, ?_⟩
      exact List.mem_cons_of_mem _ (List.mem_cons_of_mem _ hmem)
    · intro c hc
      have hhead := List.head?_dropWhile_not (fun c => !isDelim c) rest
      rw [Option.mem_def] at hc
      rw [hc] at hhead
      simpa using hhead
    · intro c hc
      have hmem := (List.dropWhile_suffix _).subset hc
      exact List.mem_cons_of_mem _ (List.mem_cons_of_mem _ hmem)
  · exact .inl rfl

/-- A URL with a scheme and a network location is split into well-formed parts. -/
theorem wellFormed_of_urlsplit {netlocOk : List Char → Bool} {url : List Char} {r : SplitResult}
    (h : urlsplit netlocOk url = some r) (hscheme : IsScheme r.scheme) (hnetloc : r.netloc ≠ []) :
    r.WellFormed ∧ netlocOk r.netloc = true := by
  have hurl : ∀ c ∈ (splitScheme (clean url)).2, isUnsafe c = false := by
    intro c hc
    simpa using (List.mem_filter.mp (mem_of_mem_splitScheme hc)).2
  simp only [urlsplit] at h
  split at h
  · next hok =>
    obtain rfl := Option.some.inj h
    dsimp only at hscheme hnetloc
    rcases splitNetloc_cases (splitScheme (clean url)).2 with hnone | ⟨hparts, hhead, hrest⟩
    · rw [hnone] at hnetloc
      exact absurd rfl hnetloc
    · generalize splitNetloc (splitScheme (clean url)).2 = split at *
      obtain ⟨netloc, rest⟩ := split
      dsimp only at *
      have hbefore : ∀ c ∈ (cutAt '#' rest).1, c ≠ '#' ∧ isUnsafe c = false := by
        intro c hc
        refine ⟨?_, hurl c (hrest c (mem_of_mem_cutAt_fst hc))⟩
        intro heq
        exact not_mem_cutAt_fst '#' rest (heq ▸ hc)
      refine ⟨⟨hscheme, hnetloc, ?_, ?_, ?_, ?_, ?_⟩, hok⟩
      · intro c hc
        exact ⟨(hparts c hc).1, hurl c (hparts c hc).2⟩
      · -- what begins the path is the delimiter that ends the network location
        intro c hc
        obtain ⟨hc, hmark⟩ := head_cutAt_fst hc
        obtain ⟨hc, hbreak⟩ := head_cutAt_fst hc
        have hdelim := hhead c hc
        simpa [isDelim, hmark, hbreak] using hdelim
      · intro c hc
        obtain ⟨hbreak, hsafe⟩ := hbefore c (mem_of_mem_cutAt_fst hc)
        refine ⟨?_, hbreak, hsafe⟩
        intro heq
        exact not_mem_cutAt_fst '?' _ (heq ▸ hc)
      · intro c hc
        exact hbefore c (mem_of_mem_cutAt_snd hc)
      · intro c hc
        exact hurl c (hrest c (mem_of_mem_cutAt_snd hc))
  · cases h

/-- Well-formed parts are those of one URL. -/
theorem urlunsplit_inj {netlocOk : List Char → Bool} {r r' : SplitResult} (h : r.WellFormed)
    (h' : r'.WellFormed) (hok : netlocOk r.netloc = true) (hok' : netlocOk r'.netloc = true)
    (heq : urlunsplit r = urlunsplit r') : r = r' := by
  have hsplit := urlsplit_urlunsplit h hok
  rw [heq, urlsplit_urlunsplit h' hok'] at hsplit
  exact (Option.some.inj hsplit).symm

/-! ## Parameters of the path -/

/-- `uses_params` -/
def usesParams : List String :=
  ["", "ftp", "hdl", "prospero", "http", "imap", "https", "shttp", "rtsp", "rtsps", "rtspu", "sip",
    "sips", "mms", "sftp", "tel"]

structure ParseResult extends SplitResult where
  params : List Char

/-- What is after the last slash. -/
def lastSegment (path : List Char) : List Char := (path.reverse.takeWhile (· ≠ '/')).reverse

/-- What is before the last segment. -/
def beforeSegment (path : List Char) : List Char := (path.reverse.dropWhile (· ≠ '/')).reverse

/-- `_splitparams`: the parameters begin at the first semicolon of the last segment. -/
def splitParams (path : List Char) : List Char × List Char :=
  (beforeSegment path ++ (cutAt ';' (lastSegment path)).1, (cutAt ';' (lastSegment path)).2)

/-- `urlparse` -/
def urlparse (netlocOk : List Char → Bool) (url : List Char) : Option ParseResult :=
  (urlsplit netlocOk url).map fun r =>
    if String.ofList r.scheme ∈ usesParams ∧ ';' ∈ r.path then
      { r with path := (splitParams r.path).1, params := (splitParams r.path).2 }
    else { r with params := [] }

/-- `urlunparse` -/
def urlunparse (p : ParseResult) : List Char :=
  urlunsplit { p.toSplitResult with
    path := if p.params = [] then p.path else p.path ++ ';' :: p.params }

theorem beforeSegment_append (path : List Char) :
    beforeSegment path ++ lastSegment path = path := by
  rw [beforeSegment, lastSegment, ← List.reverse_append, List.takeWhile_append_dropWhile,
    List.reverse_reverse]

theorem splitParams_fst_of_not_mem {path : List Char} (h : ';' ∉ lastSegment path) :
    (splitParams path).1 = path := by
  rw [splitParams, cutAt_of_not_mem h]
  exact beforeSegment_append path

/-- Parameters are cut off. -/
theorem splitParams_fst_length {path : List Char} (h : ';' ∈ lastSegment path) :
    (splitParams path).1.length < path.length := by
  have hcut : (cutAt ';' (lastSegment path)).1.length < (lastSegment path).length := by
    apply Nat.lt_of_le_of_ne (List.takeWhile_prefix _).length_le
    intro hlength
    have heq := (List.takeWhile_prefix (fun c => decide (c ≠ ';'))).eq_of_length hlength
    apply not_mem_cutAt_fst ';' (lastSegment path)
    rw [cutAt]
    dsimp only
    rw [heq]
    exact h
  have hsum := congrArg List.length (beforeSegment_append path)
  rw [List.length_append] at hsum
  rw [splitParams, List.length_append]
  omega

theorem splitParams_fst_isPrefix (path : List Char) : (splitParams path).1 <+: path := by
  obtain ⟨rest, hrest⟩ := List.takeWhile_prefix (l := lastSegment path) (fun c => decide (c ≠ ';'))
  refine ⟨rest, ?_⟩
  rw [splitParams, List.append_assoc]
  dsimp only [cutAt]
  rw [hrest, beforeSegment_append]

/-- A path that ends in a slash has no last segment. -/
theorem lastSegment_concat_slash (path : List Char) : lastSegment (path ++ ['/']) = [] := by
  simp [lastSegment]

/-! ## Trailing slashes -/

/-- `path.rstrip("/")` -/
def rstripSlash (path : List Char) : List Char := PyText.dropEndWhile (· = '/') path

theorem rstripSlash_isPrefix (path : List Char) : rstripSlash path <+: path :=
  PyText.dropEndWhile_isPrefix _ _

theorem rstripSlash_concat (path : List Char) : rstripSlash (path ++ ['/']) = rstripSlash path := by
  simp [rstripSlash, PyText.dropEndWhile]

theorem rstripSlash_rstripSlash (path : List Char) :
    rstripSlash (rstripSlash path) = rstripSlash path :=
  PyText.dropEndWhile_eq_self (PyText.getLast_dropEndWhile _ path)

/-- A path is as it is without trailing slashes, or ends in one. -/
theorem rstripSlash_cases (path : List Char) :
    rstripSlash path = path ∨ ∃ init, path = init ++ ['/'] := by
  rcases List.eq_nil_or_concat path with rfl | ⟨init, c, rfl⟩
  · exact .inl rfl
  · by_cases hc : c = '/'
    · exact .inr ⟨init, by rw [hc, List.concat_eq_append]⟩
    · left
      apply PyText.dropEndWhile_eq_self
      intro d hd
      rw [List.concat_eq_append, List.getLast?_concat] at hd
      obtain rfl := Option.some.inj hd
      simpa using hc

/-- Without parameters in its last segment, only the trailing slashes of a path go. -/
theorem rstripSlash_splitParams {path : List Char} (h : ';' ∉ lastSegment (rstripSlash path)) :
    rstripSlash (splitParams path).1 = rstripSlash path := by
  rcases rstripSlash_cases path with hsame | ⟨init, rfl⟩
  · rw [hsame] at h
    rw [splitParams_fst_of_not_mem h]
  · rw [splitParams_fst_of_not_mem]
    rw [lastSegment_concat_slash]
    exact List.not_mem_nil

end LlmService.Url
