import LlmService.Lib.UrlQuery
import LlmService.ContextWindow.Models

/-!
# canonical_url

`tools/web_search.py`: the URL under which a search result is counted once.
The functions of `urllib.parse` are those of the library; case mapping, the
decoding of bytes and the check of a network location come with the data that
they read. A lone surrogate is no character of Lean: characters stand for those
of a text, and the data tell which.
-/

namespace LlmService

namespace WebSearch

open Url

/-- What the URL functions read of the Unicode database and of the codecs. -/
structure UrlData where
  /-- `text.lower()` -/
  lower : Text → Text
  /-- `bytes.decode("utf-8", "replace")` -/
  decode : List UInt8 → Text
  /-- whether `urlsplit` takes the network location -/
  netlocOk : Text → Bool
  /-- whether UTF-8 has the character; a lone surrogate is one that it has not -/
  encodable : Char → Bool

/-- Case mapping is idempotent, and brings in no delimiter and no white space;
encoded text is decoded as it was. -/
structure UrlData.Lawful (d : UrlData) : Prop where
  lower_lower : ∀ text, d.lower (d.lower text) = d.lower text
  lower_ne_nil : ∀ text, text ≠ [] → d.lower text ≠ []
  mem_of_mem_lower : ∀ text c, c ∈ d.lower text →
    isDelim c = true ∨ isUnsafe c = true ∨ c = ' ' → c ∈ text
  netlocOk_lower : ∀ netloc, d.netlocOk netloc = true → d.netlocOk (d.lower netloc) = true
  decode_encodeUtf8 : ∀ text, d.decode (encodeUtf8 text) = text

def trackingParams : List String :=
  ["fbclid", "gclid", "ref", "ref_src", "mc_cid", "mc_eid", "igshid"]

section Definitions

variable (d : UrlData)

/-- `k.lower().startswith("utm_") or k.lower() in _TRACKING_PARAMS` -/
def isTracking (key : Text) : Bool :=
  "utm_".toList <+: d.lower key ∨ String.ofList (d.lower key) ∈ trackingParams

/-- The fields of a query that are no tracking parameters. -/
def keptFields (query : Text) : List (Text × Text) :=
  (parseQsl d.decode query).filter fun field => !isTracking d field.1

def canonicalUrl (url : Text) : Option Text :=
  match urlparse d.netlocOk (PyText.strip url) with
  | none => none
  | some p =>
    if String.ofList p.scheme ∉ ["http", "https"] ∨ p.netloc = [] ∨ ' ' ∈ p.netloc then none
    else
      let query := urlencode (keptFields d p.query)
      -- the parameters of the last segment are dropped with the fragment
      some (urlunparse
        { scheme := p.scheme
          netloc := d.lower p.netloc
          path := if rstripSlash p.path = [] then ['/'] else rstripSlash p.path
          params := []
          query
          fragment := [] })

/-- A field that is kept cannot be encoded. -/
def Unencodable (url : Text) : Prop :=
  ∃ p ∈ urlparse d.netlocOk (PyText.strip url), ∃ field ∈ keptFields d p.query,
    ∃ c ∈ field.1 ++ field.2, d.encodable c = false

instance (url : Text) : Decidable (Unencodable d url) :=
  -- the characters are those of the field, not all that there are
  have : ∀ field : Text × Text, Decidable (∃ c ∈ field.1 ++ field.2, d.encodable c = false) :=
    fun field => List.decidableBEx (fun c => d.encodable c = false) (field.1 ++ field.2)
  inferInstanceAs (Decidable (∃ p ∈ urlparse d.netlocOk (PyText.strip url), _))

/-- `urlencode` comes to the fields of a URL that is accepted, and stands outside the `try`. -/
def EncodeFails (url : Text) : Prop := (canonicalUrl d url).isSome ∧ Unencodable d url

instance (url : Text) : Decidable (EncodeFails d url) := inferInstanceAs (Decidable (_ ∧ _))

def unicodeEncodeError : Exc := { cls := .other "UnicodeEncodeError" }

/-- A call of `canonical_url`: its value, unless it raises. -/
def callCanonicalUrl (url : Text) : Except Exc (Option Text) :=
  if EncodeFails d url then .error unicodeEncodeError else .ok (canonicalUrl d url)

/-- The same page: only trailing slashes of the path, tracking parameters and the
fragment differ. -/
structure SamePage (r r' : SplitResult) : Prop where
  scheme : r'.scheme = r.scheme
  netloc : r'.netloc = r.netloc
  path : rstripSlash r'.path = rstripSlash r.path
  query : keptFields d r'.query = keptFields d r.query

/-- `canonical_url` is a normal form at this URL. -/
structure IsNormal (url : Text) : Prop where
  idempotent : ∀ canonical, canonicalUrl d url = some canonical →
    canonicalUrl d canonical = some canonical
  same : ∀ other r r', urlsplit d.netlocOk (PyText.strip url) = some r →
    urlsplit d.netlocOk (PyText.strip other) = some r' → SamePage d r r' →
    canonicalUrl d other = canonicalUrl d url

/-- The last segment of the path, without its trailing slashes, has no parameters. -/
def NoParams (r : SplitResult) : Prop := ';' ∉ lastSegment (rstripSlash r.path)

/-- A field is kept, or the path without its trailing slashes does not end in white space. -/
def EndsInText (r : SplitResult) : Prop :=
  keptFields d r.query ≠ [] ∨ ∀ c ∈ (rstripSlash r.path).getLast?, PyText.isSpace c = false

end Definitions

/-! ## The parts of a canonical URL -/

section Parts

variable (d : UrlData)

/-- What is accepted of the parts of a URL. -/
structure Accepted (r : SplitResult) : Prop where
  scheme : String.ofList r.scheme ∈ ["http", "https"]
  netloc_ne : r.netloc ≠ []
  netloc : ' ' ∉ r.netloc

def canonicalPath (path : Text) : Text :=
  if rstripSlash (splitParams path).1 = [] then ['/'] else rstripSlash (splitParams path).1

/-- The parts of the canonical URL. -/
def canonicalParts (r : SplitResult) : SplitResult where
  scheme := r.scheme
  netloc := d.lower r.netloc
  path := canonicalPath r.path
  query := urlencode (keptFields d r.query)
  fragment := []

theorem urlparse_path {netlocOk : Text → Bool} {url : Text} {r : SplitResult}
    (h : urlsplit netlocOk url = some r) (hscheme : String.ofList r.scheme ∈ ["http", "https"]) :
    ∃ p, urlparse netlocOk url = some p ∧ p.scheme = r.scheme ∧ p.netloc = r.netloc ∧
      p.path = (splitParams r.path).1 ∧ p.query = r.query := by
  have huses : String.ofList r.scheme ∈ usesParams := by
    rcases List.mem_cons.mp hscheme with h | h
    · rw [h]
      decide
    · rw [List.mem_singleton.mp h]
      decide
  rw [urlparse, h, Option.map_some]
  by_cases hparams : ';' ∈ r.path
  · rw [if_pos ⟨huses, hparams⟩]
    exact ⟨_, rfl, rfl, rfl, rfl, rfl⟩
  · rw [if_neg fun hboth => hparams hboth.2]
    refine ⟨_, rfl, rfl, rfl, ?_, rfl⟩
    rw [splitParams_fst_of_not_mem]
    intro hmem
    apply hparams
    have hsuffix := beforeSegment_append r.path
    rw [← hsuffix]
    exact List.mem_append_right _ hmem

theorem canonicalUrl_eq_some_iff {url canonical : Text} :
    canonicalUrl d url = some canonical ↔
      ∃ r, urlsplit d.netlocOk (PyText.strip url) = some r ∧ Accepted r ∧
        canonical = urlunsplit (canonicalParts d r) := by
  cases hsplit : urlsplit d.netlocOk (PyText.strip url) with
  | none => simp [canonicalUrl, urlparse, hsplit]
  | some r =>
    by_cases hscheme : String.ofList r.scheme ∈ ["http", "https"]
    · obtain ⟨p, hparse, hps, hpn, hpp, hpq⟩ := urlparse_path hsplit hscheme
      rw [canonicalUrl, hparse]
      simp only [hps, hpn, hpp, hpq]
      by_cases hnetloc : r.netloc = [] ∨ ' ' ∈ r.netloc
      · rw [if_pos (.inr hnetloc)]
        constructor
        · intro h
          cases h
        · rintro ⟨r', hr', hacc, -⟩
          cases hr'
          exact absurd hnetloc (not_or.mpr ⟨hacc.netloc_ne, hacc.netloc⟩)
      · rw [if_neg (not_or.mpr ⟨not_not_intro hscheme, hnetloc⟩)]
        rw [not_or] at hnetloc
        constructor
        · intro h
          refine ⟨r, rfl, ⟨hscheme, hnetloc.1, hnetloc.2⟩, ?_⟩
          rw [← Option.some.inj h]
          rfl
        · rintro ⟨r', hr', -, rfl⟩
          cases hr'
          rfl
    · have hrejected : canonicalUrl d url = none := by
        rw [canonicalUrl, urlparse, hsplit, Option.map_some]
        by_cases hparams : String.ofList r.scheme ∈ usesParams ∧ ';' ∈ r.path
        · rw [if_pos hparams]
          exact if_pos (.inl hscheme)
        · rw [if_neg hparams]
          exact if_pos (.inl hscheme)
      rw [hrejected]
      constructor
      · intro h
        cases h
      · rintro ⟨r', hr', hacc, -⟩
        cases hr'
        exact absurd hacc.scheme hscheme

variable {d} {r r' : SplitResult}

theorem isScheme_of_mem {scheme : Text} (h : String.ofList scheme ∈ ["http", "https"]) :
    IsScheme scheme ∧ ∀ c ∈ scheme.head?, PyText.isSpace c = false := by
  have hcases : scheme = ['h', 't', 't', 'p'] ∨ scheme = ['h', 't', 't', 'p', 's'] := by
    rcases List.mem_cons.mp h with h | h
    · left
      rw [← String.toList_ofList (l := scheme), h]
      exact PyText.toList_eq rfl
    · right
      rw [← String.toList_ofList (l := scheme), List.mem_singleton.mp h]
      exact PyText.toList_eq rfl
  have hchars : ['h', 't', 't', 'p', 's'].all isSchemeChar = true := by decide
  have hspace : ∀ c ∈ some 'h', PyText.isSpace c = false := by
    intro c hc
    obtain rfl := Option.some.inj hc
    decide
  rcases hcases with rfl | rfl
  · refine ⟨⟨⟨'h', rfl, by decide⟩, ?_, by decide⟩, hspace⟩
    intro c hc
    exact List.all_eq_true.mp hchars c (List.mem_append_left ['s'] hc)
  · exact ⟨⟨⟨'h', rfl, by decide⟩, List.all_eq_true.mp hchars, by decide⟩, hspace⟩

theorem isSpace_of_isUnsafe {c : Char} (h : isUnsafe c = true) : PyText.isSpace c = true := by
  simp only [isUnsafe, Bool.or_eq_true, decide_eq_true_eq] at h
  rcases h with (rfl | rfl) | rfl <;> decide

theorem canonicalPath_cases (path : Text) :
    canonicalPath path = ['/'] ∨ canonicalPath path ≠ [] ∧ canonicalPath path <+: path := by
  rw [canonicalPath]
  by_cases hnone : rstripSlash (splitParams path).1 = []
  · exact .inl (if_pos hnone)
  · rw [if_neg hnone]
    exact .inr ⟨hnone, (rstripSlash_isPrefix _).trans (splitParams_fst_isPrefix _)⟩

/-- A canonical path begins with a slash. -/
theorem canonicalPath_head {path : Text} (h : ∀ c ∈ path.head?, c = '/') :
    (canonicalPath path).head? = some '/' := by
  rcases canonicalPath_cases path with heq | ⟨hne, hbegins⟩
  · rw [heq]
    rfl
  · obtain ⟨rest, hrest⟩ := hbegins
    obtain ⟨c, tail, htail⟩ := List.exists_cons_of_ne_nil hne
    rw [htail] at hrest ⊢
    rw [h c (by rw [← hrest]; rfl)]
    rfl

theorem canonicalParts_wellFormed (hd : d.Lawful) (hr : r.WellFormed) (hacc : Accepted r)
    (hok : d.netlocOk r.netloc = true) :
    (canonicalParts d r).WellFormed ∧ Accepted (canonicalParts d r) ∧
      d.netlocOk (canonicalParts d r).netloc = true := by
  have hlower : ∀ c ∈ d.lower r.netloc, isDelim c = false ∧ isUnsafe c = false := by
    intro c hc
    constructor
    · by_contra hdelim
      rw [Bool.not_eq_false] at hdelim
      rw [(hr.netloc c (hd.mem_of_mem_lower _ c hc (.inl hdelim))).1] at hdelim
      cases hdelim
    · by_contra hunsafe
      rw [Bool.not_eq_false] at hunsafe
      rw [(hr.netloc c (hd.mem_of_mem_lower _ c hc (.inr (.inl hunsafe)))).2] at hunsafe
      cases hunsafe
  refine ⟨⟨hr.scheme, hd.lower_ne_nil _ hr.netloc_ne, hlower, ?_, ?_, ?_, by simp [canonicalParts]⟩,
    ⟨hacc.scheme, hd.lower_ne_nil _ hr.netloc_ne, ?_⟩, hd.netlocOk_lower _ hok⟩
  · intro c hc
    rw [canonicalParts, canonicalPath_head hr.path_head] at hc
    exact (Option.some.inj hc).symm
  · intro c hc
    rcases canonicalPath_cases r.path with heq | ⟨-, hbegins⟩
    · rw [canonicalParts, heq, List.mem_singleton] at hc
      rw [hc]
      decide
    · exact hr.path c (hbegins.subset hc)
  · intro c hc
    obtain ⟨hbreak, hspace⟩ := urlencode_spec hc
    refine ⟨hbreak, ?_⟩
    by_contra hunsafe
    rw [isSpace_of_isUnsafe (by simpa using hunsafe)] at hspace
    cases hspace
  · intro hmem
    exact hacc.netloc (hd.mem_of_mem_lower _ _ hmem (.inr (.inr rfl)))

/-- The canonical URL of parts that are put together as they are stripped. -/
theorem canonicalUrl_urlunsplit (hr : r.WellFormed) (hacc : Accepted r)
    (hok : d.netlocOk r.netloc = true) {url : Text}
    (hstrip : PyText.strip url = urlunsplit r) :
    canonicalUrl d url = some (urlunsplit (canonicalParts d r)) := by
  rw [canonicalUrl_eq_some_iff]
  refine ⟨r, ?_, hacc, rfl⟩
  rw [hstrip, urlsplit_urlunsplit hr hok]

theorem keptFields_urlencode (hd : d.Lawful) (query : Text) :
    keptFields d (urlencode (keptFields d query)) = keptFields d query := by
  rw [keptFields, parseQsl_urlencode hd.decode_encodeUtf8, keptFields, List.filter_filter]
  simp

theorem canonicalPath_of_noParams {path : Text} (h : ';' ∉ lastSegment (rstripSlash path)) :
    canonicalPath path = if rstripSlash path = [] then ['/'] else rstripSlash path := by
  rw [canonicalPath, rstripSlash_splitParams h]

theorem canonicalPath_canonicalPath {path : Text} (h : ';' ∉ lastSegment (rstripSlash path)) :
    canonicalPath (canonicalPath path) = canonicalPath path := by
  rw [canonicalPath_of_noParams h]
  by_cases hnone : rstripSlash path = []
  · rw [if_pos hnone]
    decide
  · rw [if_neg hnone, canonicalPath_of_noParams (by rw [rstripSlash_rstripSlash]; exact h),
      rstripSlash_rstripSlash, if_neg hnone]

/-- A canonical URL without parameters has canonical parts. -/
theorem canonicalParts_canonicalParts (hd : d.Lawful) (h : NoParams r) :
    canonicalParts d (canonicalParts d r) = canonicalParts d r := by
  rw [canonicalParts, canonicalParts]
  dsimp only
  rw [hd.lower_lower, canonicalPath_canonicalPath h, keptFields_urlencode hd]

/-! ## The end of a canonical URL -/

theorem urlunsplit_head (hacc : Accepted r) :
    ∀ c ∈ (urlunsplit r).head?, PyText.isSpace c = false := by
  obtain ⟨⟨⟨c, hc, -⟩, -⟩, hspace⟩ := isScheme_of_mem hacc.scheme
  obtain ⟨tail, htail⟩ := List.head?_eq_some_iff.mp hc
  intro e he
  rw [urlunsplit, htail] at he
  obtain rfl : c = e := Option.some.inj he
  exact hspace c hc

/-- Parts whose path begins with a slash, without a fragment. -/
theorem urlunsplit_of_path (hpath : r.path.head? = some '/') (hfragment : r.fragment = []) :
    urlunsplit r = (r.scheme ++ ':' :: '/' :: '/' :: r.netloc)
      ++ (r.path ++ if r.query = [] then [] else '?' :: r.query) := by
  rw [urlunsplit, if_pos (.inr hpath), if_pos hfragment]
  simp

theorem canonicalParts_query_eq_nil_iff :
    (canonicalParts d r).query = [] ↔ keptFields d r.query = [] := urlencode_eq_nil_iff _

/-- A canonical URL is stripped of nothing if it ends in text. -/
theorem strip_canonical (hr : r.WellFormed) (hacc : Accepted (canonicalParts d r))
    (hparams : NoParams r) (hends : EndsInText d r) :
    PyText.strip (urlunsplit (canonicalParts d r)) = urlunsplit (canonicalParts d r) := by
  apply PyText.strip_eq_self (urlunsplit_head hacc)
  have hhead : (canonicalParts d r).path.head? = some '/' := canonicalPath_head hr.path_head
  rw [urlunsplit_of_path hhead rfl]
  intro c hc
  by_cases hquery : (canonicalParts d r).query = []
  · have hpath : (canonicalParts d r).path ≠ [] := by
      intro hnil
      rw [hnil] at hhead
      cases hhead
    rw [if_pos hquery, List.append_nil, List.getLast?_append_of_ne_nil _ hpath] at hc
    have hlast := hends.resolve_left fun h => h (canonicalParts_query_eq_nil_iff.mp hquery)
    change c ∈ (canonicalPath r.path).getLast? at hc
    rw [canonicalPath_of_noParams hparams] at hc
    split at hc
    · obtain rfl : '/' = c := Option.some.inj hc
      decide
    · exact hlast c hc
  · rw [if_neg hquery, List.getLast?_append_of_ne_nil _ (by simp),
      List.getLast?_append_of_ne_nil _ (by simp), List.getLast?_cons_of_ne_nil hquery] at hc
    exact (urlencode_spec (List.mem_of_getLast? hc)).2

/-! ## Normal forms -/

theorem wellFormed_of_accepted {url : Text} (h : urlsplit d.netlocOk url = some r)
    (hacc : Accepted r) : r.WellFormed ∧ d.netlocOk r.netloc = true :=
  wellFormed_of_urlsplit h (isScheme_of_mem hacc.scheme).1 hacc.netloc_ne

theorem canonicalUrl_canonical (hd : d.Lawful) (hr : r.WellFormed) (hacc : Accepted r)
    (hok : d.netlocOk r.netloc = true) (hparams : NoParams r) (hends : EndsInText d r) :
    canonicalUrl d (urlunsplit (canonicalParts d r)) =
      some (urlunsplit (canonicalParts d r)) := by
  obtain ⟨hr', hacc', hok'⟩ := canonicalParts_wellFormed hd hr hacc hok
  have hstrip := strip_canonical hr hacc' hparams hends
  rw [canonicalUrl_urlunsplit hr' hacc' hok' hstrip, canonicalParts_canonicalParts hd hparams]

theorem canonicalUrl_eq_of_samePage {url other : Text}
    (hurl : urlsplit d.netlocOk (PyText.strip url) = some r)
    (hother : urlsplit d.netlocOk (PyText.strip other) = some r') (hacc : Accepted r)
    (hparams : NoParams r) (hsame : SamePage d r r') :
    canonicalUrl d other = canonicalUrl d url := by
  have hacc' : Accepted r' := by
    refine ⟨?_, ?_, ?_⟩
    · rw [hsame.scheme]
      exact hacc.scheme
    · rw [hsame.netloc]
      exact hacc.netloc_ne
    · rw [hsame.netloc]
      exact hacc.netloc
  have hparams' : NoParams r' := by
    rw [NoParams, hsame.path]
    exact hparams
  have hpath : canonicalPath r'.path = canonicalPath r.path := by
    rw [canonicalPath_of_noParams hparams', canonicalPath_of_noParams hparams, hsame.path]
  have hparts : canonicalParts d r' = canonicalParts d r := by
    rw [canonicalParts, canonicalParts, hsame.scheme, hsame.netloc, hpath, hsame.query]
  rw [(canonicalUrl_eq_some_iff d).mpr ⟨r, hurl, hacc, rfl⟩,
    (canonicalUrl_eq_some_iff d).mpr ⟨r', hother, hacc', rfl⟩, hparts]

/-- Parts with another path of the same characters. -/
theorem wellFormed_path (hr : r.WellFormed) {path fragment : Text}
    (hhead : path.head? = some '/') (hmem : ∀ c ∈ path, c ∈ r.path)
    (hfragment : ∀ c ∈ fragment, isUnsafe c = false) :
    ({ r with path, fragment } : SplitResult).WellFormed := by
  refine ⟨hr.scheme, hr.netloc_ne, hr.netloc, ?_, ?_, hr.query, hfragment⟩
  · intro c hc
    rw [hhead] at hc
    exact (Option.some.inj hc).symm
  · intro c hc
    exact hr.path c (hmem c hc)

theorem canonicalPath_length_le {path : Text} (h : path ≠ []) :
    (canonicalPath path).length ≤ path.length := by
  have hlength := List.length_pos_iff.mpr h
  rcases canonicalPath_cases path with heq | ⟨-, hbegins⟩
  · rw [heq]
    exact hlength
  · exact hbegins.length_le

theorem rstrip_head {path : Text} (h : path.head? = some '/') :
    (PyText.rstrip path).head? = some '/' := by
  obtain ⟨blank, happend, hblank⟩ := PyText.exists_rstrip_append path
  cases hstripped : PyText.rstrip path with
  | nil =>
    rw [hstripped, List.nil_append] at happend
    rw [happend] at h
    have hspace := hblank '/' (List.mem_of_mem_head? h)
    exact absurd hspace (by decide)
  | cons c rest =>
    rw [happend, hstripped] at h
    exact h

/-- Without a query, the white space at the end of the path is stripped. -/
theorem strip_urlunsplit (hacc : Accepted r) (hhead : r.path.head? = some '/')
    (hquery : r.query = []) (hfragment : r.fragment = []) :
    PyText.strip (urlunsplit r) = urlunsplit { r with path := PyText.rstrip r.path } := by
  have hne : PyText.rstrip r.path ≠ [] := by
    intro hnil
    have hstripped := rstrip_head hhead
    rw [hnil] at hstripped
    cases hstripped
  have hparts := urlunsplit_of_path (r := { r with path := PyText.rstrip r.path })
    (rstrip_head hhead) hfragment
  rw [PyText.strip_eq_rstrip (urlunsplit_head hacc), urlunsplit_of_path hhead hfragment, hparts,
    if_pos hquery, List.append_nil, List.append_nil, PyText.rstrip_append hne]

/-- A canonical URL that ends in white space has another canonical URL. -/
theorem canonicalUrl_ne_of_blank (hd : d.Lawful) (hr : r.WellFormed) (hacc : Accepted r)
    (hok : d.netlocOk r.netloc = true) (hparams : NoParams r) (hends : ¬ EndsInText d r) :
    canonicalUrl d (urlunsplit (canonicalParts d r)) ≠
      some (urlunsplit (canonicalParts d r)) := by
  obtain ⟨hr', hacc', hok'⟩ := canonicalParts_wellFormed hd hr hacc hok
  rw [EndsInText, not_or, not_not] at hends
  obtain ⟨hkept, hlast⟩ := hends
  have hhead : (canonicalParts d r).path.head? = some '/' := canonicalPath_head hr.path_head
  have hpath : (canonicalParts d r).path = rstripSlash r.path := by
    rw [canonicalParts]
    dsimp only
    rw [canonicalPath_of_noParams hparams]
    apply if_neg
    intro hnil
    apply hlast
    intro c hc
    rw [hnil] at hc
    cases hc
  rw [← hpath] at hlast
  -- the second time, `url.strip()` takes off what `rstrip("/")` has exposed
  have hstrip := strip_urlunsplit hacc' hhead (canonicalParts_query_eq_nil_iff.mpr hkept) rfl
  generalize canonicalParts d r = o at *
  have hstripped := rstrip_head hhead
  have hshort : (PyText.rstrip o.path).length < o.path.length := by
    apply Nat.lt_of_le_of_ne (PyText.rstrip_isPrefix _).length_le
    intro hlength
    apply hlast
    rw [← (PyText.rstrip_isPrefix o.path).eq_of_length hlength]
    exact PyText.getLast_dropEndWhile _ _
  have hq := wellFormed_path hr' hstripped (fun _ hc => (PyText.rstrip_isPrefix _).subset hc)
    hr'.fragment
  have haccq : Accepted { o with path := PyText.rstrip o.path } :=
    ⟨hacc'.scheme, hacc'.netloc_ne, hacc'.netloc⟩
  rw [canonicalUrl_urlunsplit hq haccq hok' hstrip]
  intro hsame
  obtain ⟨hq', -, hokq'⟩ := canonicalParts_wellFormed hd hq haccq hok'
  have hparts := urlunsplit_inj hq' hr' hokq' hok' (Option.some.inj hsame)
  have hlength : (canonicalPath (PyText.rstrip o.path)).length ≤ (PyText.rstrip o.path).length := by
    apply canonicalPath_length_le
    intro hnil
    rw [hnil] at hstripped
    cases hstripped
  -- a fixed point would have a path longer than the one it is the canonical path of
  have hagain : canonicalPath (PyText.rstrip o.path) = o.path :=
    congrArg SplitResult.path hparts
  rw [hagain] at hlength
  omega

/-- The same parts with a path of the same characters and another fragment. -/
theorem canonicalUrl_variant (hr : r.WellFormed) (hacc : Accepted r)
    (hok : d.netlocOk r.netloc = true) {path : Text} (hhead : path.head? = some '/')
    (hmem : ∀ c ∈ path, c ∈ r.path) :
    ∃ url, urlsplit d.netlocOk (PyText.strip url) = some { r with path, fragment := ['x'] } ∧
      canonicalUrl d url = some (urlunsplit (canonicalParts d { r with path })) := by
  have hfragment : ∀ c ∈ ['x'], isUnsafe c = false := by
    intro c hc
    rw [List.mem_singleton.mp hc]
    decide
  have hvariant := wellFormed_path hr hhead hmem hfragment
  have haccepted : Accepted { r with path, fragment := ['x'] } :=
    ⟨hacc.scheme, hacc.netloc_ne, hacc.netloc⟩
  have hstrip : PyText.strip (urlunsplit { r with path, fragment := ['x'] }) =
      urlunsplit { r with path, fragment := ['x'] } := by
    apply PyText.strip_eq_self (urlunsplit_head haccepted)
    intro c hc
    -- the fragment keeps `url.strip()` off the path
    have hend : urlunsplit { r with path, fragment := ['x'] } =
        urlunsplit { r with path, fragment := [] } ++ ['#', 'x'] := by
      simp [urlunsplit]
    rw [hend, List.getLast?_append_of_ne_nil _ (by simp)] at hc
    obtain rfl : 'x' = c := Option.some.inj hc
    decide
  refine ⟨_, ?_, canonicalUrl_urlunsplit hvariant haccepted hok hstrip⟩
  rw [hstrip, urlsplit_urlunsplit hvariant hok]

/-- Parameters in the last segment stay only before a slash. -/
theorem canonicalPath_ne_of_params {path : Text} (hhead : path.head? = some '/')
    (hslash : rstripSlash path = path) (hparams : ';' ∈ lastSegment path) :
    canonicalPath path ≠ canonicalPath (path ++ ['/']) := by
  have hne : path ≠ [] := by
    intro hnil
    rw [hnil] at hhead
    cases hhead
  have hlast : ';' ∉ lastSegment (path ++ ['/']) := by
    rw [lastSegment_concat_slash]
    exact List.not_mem_nil
  -- behind the slash the last segment is empty, so its parameters are not seen
  have hkeeps : canonicalPath (path ++ ['/']) = path := by
    rw [canonicalPath, splitParams_fst_of_not_mem hlast, rstripSlash_concat, hslash, if_neg hne]
  have hmem : ';' ∈ path := by
    rw [← beforeSegment_append path]
    exact List.mem_append_right _ hparams
  have hlong : 2 ≤ path.length := by
    obtain ⟨tail, rfl⟩ := List.head?_eq_some_iff.mp hhead
    have htail := (List.mem_cons.mp hmem).resolve_left (by decide)
    have := List.length_pos_of_mem htail
    rw [List.length_cons]
    omega
  intro heq
  rw [hkeeps, canonicalPath] at heq
  have hcut := splitParams_fst_length hparams
  have hshort := (rstripSlash_isPrefix (splitParams path).1).length_le
  split at heq
  · rw [← heq] at hlong
    simp at hlong
  · rw [heq] at hshort
    omega

/-- With parameters in the last segment, one more slash gives another URL. -/
theorem not_isNormal_of_params (hd : d.Lawful) {url : Text}
    (hsplit : urlsplit d.netlocOk (PyText.strip url) = some r) (hacc : Accepted r)
    (hparams : ¬ NoParams r) : ¬ IsNormal d url := by
  intro hnormal
  obtain ⟨hr, hok⟩ := wellFormed_of_accepted hsplit hacc
  rw [NoParams, not_not] at hparams
  have hbegins := rstripSlash_isPrefix r.path
  have hslash := rstripSlash_rstripSlash r.path
  have hconcat := rstripSlash_concat (rstripSlash r.path)
  rw [hslash] at hconcat
  have hhead : (rstripSlash r.path).head? = some '/' := by
    cases hbare : rstripSlash r.path with
    | nil =>
      rw [hbare] at hparams
      cases hparams
    | cons c tail =>
      obtain ⟨rest, hrest⟩ := hbegins
      rw [hr.path_head c (by rw [← hrest, hbare]; rfl)]
      rfl
  have hsame : ∀ path, rstripSlash path = rstripSlash r.path →
      SamePage d r { r with path, fragment := ['x'] } :=
    fun path hpath => ⟨rfl, rfl, hpath, rfl⟩
  generalize hbare : rstripSlash r.path = bare at *
  have hmem : ∀ c ∈ bare ++ ['/'], c ∈ r.path := by
    intro c hc
    rcases List.mem_append.mp hc with hc | hc
    · exact hbegins.subset hc
    · rw [List.mem_singleton.mp hc]
      exact hbegins.subset (List.mem_of_mem_head? hhead)
  have hhead' : (bare ++ ['/']).head? = some '/' := by
    rw [List.head?_append, hhead]
    rfl
  -- the page without a trailing slash, and with one
  obtain ⟨u, husplit, hu⟩ := canonicalUrl_variant hr hacc hok hhead
    fun c hc => hmem c (List.mem_append_left _ hc)
  obtain ⟨v, hvsplit, hv⟩ := canonicalUrl_variant hr hacc hok hhead' hmem
  have heq := (hnormal.same u _ _ hsplit husplit (hsame bare hslash)).trans
    (hnormal.same v _ _ hsplit hvsplit (hsame (bare ++ ['/']) hconcat)).symm
  rw [hu, hv] at heq
  have hcanonical : ∀ path, path.head? = some '/' → (∀ c ∈ path, c ∈ r.path) →
      (canonicalParts d { r with path }).WellFormed ∧ d.netlocOk (d.lower r.netloc) = true := by
    intro path hpath hchars
    have hvariant := wellFormed_path hr hpath hchars hr.fragment
    have haccepted : Accepted { r with path } := ⟨hacc.scheme, hacc.netloc_ne, hacc.netloc⟩
    obtain ⟨hcanonical, -, hcanonicalOk⟩ := canonicalParts_wellFormed hd hvariant haccepted hok
    exact ⟨hcanonical, hcanonicalOk⟩
  obtain ⟨hu', hok'⟩ := hcanonical bare hhead fun c hc => hmem c (List.mem_append_left _ hc)
  obtain ⟨hv', -⟩ := hcanonical (bare ++ ['/']) hhead' hmem
  have hparts := urlunsplit_inj hu' hv' hok' hok' (Option.some.inj heq)
  exact canonicalPath_ne_of_params hhead hslash hparams (congrArg SplitResult.path hparts)

/-- `canonical_url` is a normal form where the last segment of the path has no parameters
and the canonical URL ends in text. -/
theorem isNormal_iff (hd : d.Lawful) {url canonical : Text}
    (h : canonicalUrl d url = some canonical) :
    IsNormal d url ↔
      ∃ r, urlsplit d.netlocOk (PyText.strip url) = some r ∧ NoParams r ∧ EndsInText d r := by
  obtain ⟨r, hsplit, hacc, rfl⟩ := (canonicalUrl_eq_some_iff d).mp h
  obtain ⟨hr, hok⟩ := wellFormed_of_accepted hsplit hacc
  constructor
  · intro hnormal
    have hparams : NoParams r := by
      by_contra hparams
      exact not_isNormal_of_params hd hsplit hacc hparams hnormal
    refine ⟨r, hsplit, hparams, ?_⟩
    by_contra hends
    exact canonicalUrl_ne_of_blank hd hr hacc hok hparams hends (hnormal.idempotent _ h)
  · rintro ⟨r', hsplit', hparams, hends⟩
    rw [hsplit] at hsplit'
    obtain rfl := Option.some.inj hsplit'
    refine ⟨?_, ?_⟩
    · intro canonical hcanonical
      rw [h] at hcanonical
      obtain rfl := Option.some.inj hcanonical
      exact canonicalUrl_canonical hd hr hacc hok hparams hends
    · intro other r₁ r₂ hurl hother hsame
      rw [hsplit] at hurl
      obtain rfl := Option.some.inj hurl
      exact canonicalUrl_eq_of_samePage hsplit hother hacc hparams hsame

end Parts

/-! ## ASCII text -/

/-- A noncharacter, for U+D83D. -/
def loneSurrogate : Char := '\uFFFF'

/-- ASCII case mapping, network locations without brackets. -/
def asciiUrlData : UrlData where
  lower := PyText.lower
  decode bytes :=
    match bytes.toByteArray.utf8Decode? with
    | some text => text.toList
    | none => ['\uFFFD']
  netlocOk netloc := '[' ∉ netloc ∧ ']' ∉ netloc
  encodable c := c ≠ loneSurrogate

theorem asciiUrlData_lawful : asciiUrlData.Lawful where
  lower_lower := PyText.lower_lower
  lower_ne_nil text h := by simpa [asciiUrlData, PyText.lower] using h
  mem_of_mem_lower text c h hc := by
    apply PyText.mem_of_mem_lower h
    simp only [isDelim, isUnsafe, Bool.or_eq_true, decide_eq_true_eq] at hc
    rcases hc with ((rfl | rfl) | rfl) | ((rfl | rfl) | rfl) | rfl <;> decide
  netlocOk_lower netloc h := by
    simp only [asciiUrlData, decide_eq_true_eq] at h ⊢
    exact ⟨fun hmem => h.1 (PyText.mem_of_mem_lower hmem (by decide)),
      fun hmem => h.2 (PyText.mem_of_mem_lower hmem (by decide))⟩
  decode_encodeUtf8 text := by
    have hbytes : (encodeUtf8 text).toByteArray = text.utf8Encode := rfl
    simp [asciiUrlData, hbytes]

theorem isNormal_iff_query : IsNormal asciiUrlData "http://A/b/?ref=1&q#f".toList := by
  have hurl : "http://A/b/?ref=1&q#f".toList = ['h', 't', 't', 'p', ':', '/', '/', 'A', '/', 'b',
      '/', '?', 'r', 'e', 'f', '=', '1', '&', 'q', '#', 'f'] := PyText.toList_eq rfl
  have hcanonical : canonicalUrl asciiUrlData "http://A/b/?ref=1&q#f".toList =
      some ['h', 't', 't', 'p', ':', '/', '/', 'a', '/', 'b', '?', 'q', '='] := by
    rw [hurl]
    decide
  apply (isNormal_iff asciiUrlData_lawful hcanonical).mpr
  refine ⟨⟨"http".toList, ['A'], ['/', 'b', '/'], ['r', 'e', 'f', '=', '1', '&', 'q'], ['f']⟩,
    ?_, ?_, ?_⟩
  · rw [hurl]
    decide
  · rw [NoParams]
    decide
  · right
    intro c hc
    obtain rfl : 'b' = c := Option.some.inj hc
    decide

/-- The parameters that a slash has hidden are cut off the second time. -/
theorem not_isNormal_params :
    canonicalUrl asciiUrlData "http://h/a;x/".toList = some "http://h/a;x".toList ∧
      ¬ IsNormal asciiUrlData "http://h/a;x/".toList := by
  have hurl : "http://h/a;x/".toList =
      ['h', 't', 't', 'p', ':', '/', '/', 'h', '/', 'a', ';', 'x', '/'] := PyText.toList_eq rfl
  have hcanonical : canonicalUrl asciiUrlData "http://h/a;x/".toList =
      some ['h', 't', 't', 'p', ':', '/', '/', 'h', '/', 'a', ';', 'x'] := by
    rw [hurl]
    decide
  refine ⟨?_, ?_⟩
  · rw [hcanonical]
    exact congrArg some (PyText.toList_eq rfl).symm
  · intro hnormal
    have hagain := hnormal.idempotent _ hcanonical
    revert hagain
    decide

end WebSearch

end LlmService
