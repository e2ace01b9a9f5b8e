import Mathlib.Data.List.AList
import LlmService.Lib.Sieve
import LlmService.Lib.Within
import LlmService.Tools.CanonicalUrl

/-!
# _deduplicate_by_domain

`tools/web_search.py`: of the aggregated results, those are kept whose URL can
be used and is new, as long as their domain has room. The loop is a sieve over
the results (`deduplicateByDomain_eq`).
-/

namespace LlmService

namespace WebSearch

open Url

def maxResultsPerDomain : Nat := 2

/-- A result, with values of any type. -/
abbrev RawResult (V : Type) := AList fun _ : String => V

/-- `str(value)`, and a text as a value. -/
structure FieldValues (V : Type) where
  str : V → Text
  text : Text → V
  str_text : ∀ t, str (text t) = t

section Definitions

variable {V : Type} (d : UrlData) (v : FieldValues V)

/-- `str(r.get("url", ""))` -/
def urlText (r : RawResult V) : Text :=
  match r.lookup "url" with
  | none => []
  | some value => v.str value

/-- `{**r, "url": url}` -/
def withUrl (r : RawResult V) (url : Text) : RawResult V := r.insert "url" (v.text url)

structure Dedup (V : Type) where
  seenUrls : List Text := []
  perDomain : AList (fun _ : Text => Nat) := ∅
  deduped : List (RawResult V) := []

/-- One result. -/
def dedupStep (s : Dedup V) (r : RawResult V) : Except Exc (Dedup V) := do
  match ← callCanonicalUrl d (urlText v r) with
  | none => return s
  | some url =>
    if url ∈ s.seenUrls then return s
    match urlparse d.netlocOk url with
    | none => throw { cls := .other "ValueError" }
    | some p =>
      let domain := p.netloc
      if maxResultsPerDomain ≤ (s.perDomain.lookup domain).getD 0 then return s
      return {
        seenUrls := url :: s.seenUrls
        perDomain := s.perDomain.insert domain ((s.perDomain.lookup domain).getD 0 + 1)
        deduped := s.deduped ++ [withUrl v r url] }

def deduplicateByDomain (results : List (RawResult V)) : Except Exc (List (RawResult V)) := do
  let s ← results.foldlM (dedupStep d v) {}
  return s.deduped

/-- The domain of a URL that can be parsed. -/
def domainOf (url : Text) : Text :=
  match urlparse d.netlocOk url with
  | none => []
  | some p => p.netloc

def domains (kept : List (RawResult V)) : List Text := kept.map fun r => domainOf d (urlText v r)

/-- What is kept of a result behind the results that are kept. -/
def pick (kept : List (RawResult V)) (r : RawResult V) : Option (RawResult V) :=
  match canonicalUrl d (urlText v r) with
  | none => none
  | some url =>
    if url ∈ kept.map (urlText v) ∨ maxResultsPerDomain ≤ (domains d v kept).count (domainOf d url)
    then none
    else some (withUrl v r url)

/-- The kept results, each with its position: they come in their order with their canonical URLs,
which differ, and no domain has too many; a result that is dropped has no usable URL, that of an
earlier kept one, or comes after as many of its domain as may be kept. -/
structure Deduplicated (results out : List (RawResult V)) (kept : List (Nat × RawResult V)) :
    Prop where
  out_eq : out = kept.map Prod.snd
  increasing : (kept.map Prod.fst).Pairwise (· < ·)
  canonical : ∀ entry ∈ kept, ∃ r url, results[entry.1]? = some r ∧
    canonicalUrl d (urlText v r) = some url ∧ entry.2 = withUrl v r url
  distinct : (out.map (urlText v)).Nodup
  bounded : ∀ domain, (domains d v out).count domain ≤ maxResultsPerDomain
  dropped : ∀ i r, results[i]? = some r → i ∉ kept.map Prod.fst →
    canonicalUrl d (urlText v r) = none ∨
      ∃ url, canonicalUrl d (urlText v r) = some url ∧
        (url ∈ (Sieve.before kept i).map (urlText v) ∨
          maxResultsPerDomain ≤ (domains d v (Sieve.before kept i)).count (domainOf d url))

end Definitions

section Loop

variable {V : Type} {d : UrlData} {v : FieldValues V} {s : Dedup V} {r : RawResult V}
  {kept : List (RawResult V)} {url : Text}

@[simp] theorem urlText_withUrl (r : RawResult V) (url : Text) :
    urlText v (withUrl v r url) = url := by
  have hlookup : (withUrl v r url).lookup "url" = some (v.text url) := AList.lookup_insert r
  rw [urlText, hlookup]
  exact v.str_text url

/-- A canonical URL can be parsed. -/
theorem urlparse_canonicalUrl (hd : d.Lawful) {raw : Text} (h : canonicalUrl d raw = some url) :
    ∃ p, urlparse d.netlocOk url = some p ∧ p.netloc = domainOf d url := by
  obtain ⟨parts, hsplit, hacc, rfl⟩ := (canonicalUrl_eq_some_iff d).mp h
  obtain ⟨hparts, hok⟩ := wellFormed_of_accepted hsplit hacc
  obtain ⟨hcanonical, -, hcanonicalOk⟩ := canonicalParts_wellFormed hd hparts hacc hok
  have hparse : (urlparse d.netlocOk (urlunsplit (canonicalParts d parts))).isSome := by
    rw [urlparse, urlsplit_urlunsplit hcanonical hcanonicalOk]
    rfl
  obtain ⟨p, hp⟩ := Option.isSome_iff_exists.mp hparse
  refine ⟨p, hp, ?_⟩
  rw [domainOf, hp]

/-- The loop remembers the URLs of the results that it keeps, and how many it keeps of each
domain. -/
structure Remembers (d : UrlData) (v : FieldValues V) (s : Dedup V) (kept : List (RawResult V)) :
    Prop where
  deduped : s.deduped = kept
  seenUrls : ∀ url, url ∈ s.seenUrls ↔ url ∈ kept.map (urlText v)
  perDomain : ∀ domain, (s.perDomain.lookup domain).getD 0 = (domains d v kept).count domain

theorem remembers_start : Remembers d v {} [] := by
  refine ⟨rfl, fun url => Iff.rfl, fun domain => ?_⟩
  show ((∅ : AList fun _ : Text => Nat).lookup domain).getD 0 = 0
  rw [AList.lookup_empty]
  rfl

/-- A result that is kept. -/
theorem Remembers.keep (h : Remembers d v s kept) (url : Text) :
    Remembers d v
      { seenUrls := url :: s.seenUrls
        perDomain := s.perDomain.insert (domainOf d url)
          ((s.perDomain.lookup (domainOf d url)).getD 0 + 1)
        deduped := s.deduped ++ [withUrl v r url] }
      (kept ++ [withUrl v r url]) := by
  refine ⟨congrArg (· ++ _) h.deduped, ?_, ?_⟩
  · intro other
    rw [List.mem_cons, h.seenUrls, List.map_append, List.mem_append, List.map_singleton,
      List.mem_singleton, urlText_withUrl, or_comm]
  · intro domain
    have hcount : (domains d v (kept ++ [withUrl v r url])).count domain =
        (domains d v kept).count domain + if domainOf d url = domain then 1 else 0 := by
      rw [domains, List.map_append, List.count_append, List.map_singleton, urlText_withUrl,
        List.count_singleton]
      simp [domains]
    rw [hcount]
    by_cases hdomain : domainOf d url = domain
    · subst hdomain
      rw [AList.lookup_insert, if_pos rfl, h.perDomain]
      rfl
    · rw [AList.lookup_insert_ne (Ne.symm hdomain), if_neg hdomain, h.perDomain]
      rfl

theorem dedupStep_of_none (hr : ¬ EncodeFails d (urlText v r))
    (hurl : canonicalUrl d (urlText v r) = none) : dedupStep d v s r = .ok s := by
  rw [dedupStep, callCanonicalUrl, if_neg hr, hurl]
  rfl

theorem dedupStep_of_some (hr : ¬ EncodeFails d (urlText v r)) {p : ParseResult}
    (hurl : canonicalUrl d (urlText v r) = some url) (hparse : urlparse d.netlocOk url = some p) :
    dedupStep d v s r =
      if url ∈ s.seenUrls then .ok s
      else if maxResultsPerDomain ≤ (s.perDomain.lookup p.netloc).getD 0 then .ok s
      else .ok {
        seenUrls := url :: s.seenUrls
        perDomain := s.perDomain.insert p.netloc ((s.perDomain.lookup p.netloc).getD 0 + 1)
        deduped := s.deduped ++ [withUrl v r url] } := by
  have hcall : callCanonicalUrl d (urlText v r) = .ok (some url) := by
    rw [callCanonicalUrl, if_neg hr, hurl]
  simp only [dedupStep, hcall, bind, Except.bind, hparse]
  rfl

theorem dedupStep_remembers (hd : d.Lawful) (h : Remembers d v s kept)
    (hr : ¬ EncodeFails d (urlText v r)) :
    ∃ s', dedupStep d v s r = .ok s' ∧ Remembers d v s' (kept ++ (pick d v kept r).toList) := by
  cases hurl : canonicalUrl d (urlText v r) with
  | none =>
    refine ⟨s, dedupStep_of_none hr hurl, ?_⟩
    rw [pick, hurl]
    simpa using h
  | some url =>
    obtain ⟨p, hparse, hdomain⟩ := urlparse_canonicalUrl hd hurl
    rw [dedupStep_of_some hr hurl hparse, pick, hurl, hdomain, h.perDomain]
    dsimp only
    by_cases hseen : url ∈ s.seenUrls
    · rw [if_pos hseen, if_pos (.inl ((h.seenUrls url).mp hseen))]
      exact ⟨s, rfl, by simpa using h⟩
    · rw [if_neg hseen]
      by_cases hfull : maxResultsPerDomain ≤ (domains d v kept).count (domainOf d url)
      · rw [if_pos hfull, if_pos (.inr hfull)]
        exact ⟨s, rfl, by simpa using h⟩
      · rw [if_neg hfull, if_neg (not_or.mpr ⟨fun hmem => hseen ((h.seenUrls url).mpr hmem), hfull⟩)]
        refine ⟨_, rfl, ?_⟩
        rw [← h.perDomain]
        exact h.keep url

/-- A result that cannot be encoded ends the loop. -/
theorem dedupStep_of_encodeFails (s : Dedup V) (hr : EncodeFails d (urlText v r)) :
    dedupStep d v s r = .error unicodeEncodeError := by
  rw [dedupStep, callCanonicalUrl, if_pos hr]
  rfl

theorem foldlM_remembers (hd : d.Lawful) (h : Remembers d v s kept) (results : List (RawResult V))
    (hresults : ∀ r ∈ results, ¬ EncodeFails d (urlText v r)) :
    ∃ s', results.foldlM (dedupStep d v) s = .ok s' ∧
      Remembers d v s' (Sieve.sift (pick d v) kept results) := by
  induction results generalizing s kept with
  | nil => exact ⟨s, rfl, h⟩
  | cons r results ih =>
    obtain ⟨s₁, hstep, h₁⟩ := dedupStep_remembers hd h (hresults r List.mem_cons_self)
    obtain ⟨s₂, hrest, h₂⟩ := ih h₁ fun r' hr' => hresults r' (List.mem_cons_of_mem _ hr')
    refine ⟨s₂, ?_, h₂⟩
    rw [List.foldlM_cons, hstep]
    exact hrest

/-- The loop goes through only where every result can be encoded. -/
theorem not_encodeFails_of_foldlM {s' : Dedup V} {results : List (RawResult V)}
    (h : results.foldlM (dedupStep d v) s = .ok s') : ∀ r ∈ results, ¬ EncodeFails d (urlText v r) := by
  induction results generalizing s with
  | nil => exact List.forall_mem_nil _
  | cons r results ih =>
    rw [List.foldlM_cons] at h
    obtain ⟨s₁, hstep, hrest⟩ := except_bind_eq_ok.mp h
    refine List.forall_mem_cons.mpr ⟨?_, ih hrest⟩
    intro hr
    rw [dedupStep_of_encodeFails s hr] at hstep
    cases hstep

theorem deduplicateByDomain_eq (hd : d.Lawful) {results : List (RawResult V)}
    (hresults : ∀ r ∈ results, ¬ EncodeFails d (urlText v r)) :
    deduplicateByDomain d v results = .ok (Sieve.sift (pick d v) [] results) := by
  obtain ⟨s, hfold, h⟩ := foldlM_remembers hd remembers_start results hresults
  rw [deduplicateByDomain, hfold, ← h.deduped]
  rfl

theorem not_encodeFails_of_ok {results out : List (RawResult V)}
    (h : deduplicateByDomain d v results = .ok out) : ∀ r ∈ results, ¬ EncodeFails d (urlText v r) := by
  obtain ⟨s, hfold, -⟩ := except_bind_eq_ok.mp h
  exact not_encodeFails_of_foldlM hfold

theorem eq_sift_of_ok (hd : d.Lawful) {results out : List (RawResult V)}
    (h : deduplicateByDomain d v results = .ok out) : out = Sieve.sift (pick d v) [] results := by
  have hsift := deduplicateByDomain_eq (v := v) hd (not_encodeFails_of_ok h)
  exact Except.ok.inj (h.symm.trans hsift)

theorem pick_eq_some_iff {o : RawResult V} :
    pick d v kept r = some o ↔
      ∃ url, canonicalUrl d (urlText v r) = some url ∧ o = withUrl v r url ∧
        url ∉ kept.map (urlText v) ∧
        (domains d v kept).count (domainOf d url) < maxResultsPerDomain := by
  rw [pick]
  cases hurl : canonicalUrl d (urlText v r) with
  | none => simp
  | some url =>
    dsimp only
    by_cases hdrop : url ∈ kept.map (urlText v) ∨
        maxResultsPerDomain ≤ (domains d v kept).count (domainOf d url)
    · rw [if_pos hdrop]
      constructor
      · intro h
        cases h
      · rintro ⟨url', hurl', -, hnew, hroom⟩
        obtain rfl := Option.some.inj hurl'
        rcases hdrop with hmem | hfull
        · exact absurd hmem hnew
        · exact absurd hroom (Nat.not_lt.mpr hfull)
    · rw [if_neg hdrop]
      rw [not_or, Nat.not_le] at hdrop
      constructor
      · intro h
        exact ⟨url, rfl, (Option.some.inj h).symm, hdrop⟩
      · rintro ⟨url', hurl', rfl, -⟩
        rw [Option.some.inj hurl']

theorem pick_eq_none_iff :
    pick d v kept r = none ↔
      canonicalUrl d (urlText v r) = none ∨
        ∃ url, canonicalUrl d (urlText v r) = some url ∧
          (url ∈ kept.map (urlText v) ∨
            maxResultsPerDomain ≤ (domains d v kept).count (domainOf d url)) := by
  rw [pick]
  cases hurl : canonicalUrl d (urlText v r) with
  | none => simp
  | some url =>
    dsimp only
    by_cases hdrop : url ∈ kept.map (urlText v) ∨
        maxResultsPerDomain ≤ (domains d v kept).count (domainOf d url)
    · rw [if_pos hdrop]
      exact iff_of_true rfl (.inr ⟨url, rfl, hdrop⟩)
    · rw [if_neg hdrop]
      constructor
      · intro h
        cases h
      · rintro (h | ⟨url', hurl', h⟩)
        · cases h
        · obtain rfl := Option.some.inj hurl'
          exact absurd h hdrop

/-- The URLs that are kept differ, and no domain has too many. -/
theorem sift_pick (results : List (RawResult V)) :
    ((Sieve.sift (pick d v) [] results).map (urlText v)).Nodup ∧
      ∀ domain, (domains d v (Sieve.sift (pick d v) [] results)).count domain ≤
        maxResultsPerDomain := by
  refine Sieve.sift_invariant (P := fun kept : List (RawResult V) =>
    (kept.map (urlText v)).Nodup ∧
      ∀ domain, (domains d v kept).count domain ≤ maxResultsPerDomain) ?_ ?_
  · exact ⟨List.nodup_nil, fun domain => Nat.zero_le _⟩
  · intro kept r o hkept hpick
    obtain ⟨url, -, rfl, hnew, hroom⟩ := pick_eq_some_iff.mp hpick
    refine ⟨?_, ?_⟩
    · rw [List.map_append, List.map_singleton, urlText_withUrl, List.nodup_append]
      refine ⟨hkept.1, List.nodup_singleton _, fun a ha b hb hab => hnew ?_⟩
      rw [← List.mem_singleton.mp hb, ← hab]
      exact ha
    · intro domain
      have hold := hkept.2 domain
      rw [domains, List.map_append, List.count_append, List.map_singleton, urlText_withUrl,
        List.count_singleton]
      by_cases hdomain : domainOf d url = domain
      · rw [← hdomain, if_pos (beq_self_eq_true _)]
        exact hroom
      · rw [if_neg (by simpa using hdomain)]
        exact hold

end Loop

/-- What is left is deduplicated by canonical URL and by domain, and nothing else is dropped. -/
theorem deduplicated_sift {V : Type} (d : UrlData) (v : FieldValues V) (results : List (RawResult V)) :
    ∃ kept, Deduplicated d v results (Sieve.sift (pick d v) [] results) kept := by
  obtain ⟨kept, hsifts, hout⟩ := Sieve.exists_sifts (pick d v) results
  refine ⟨kept, hout, hsifts.increasing, ?_, (sift_pick results).1, (sift_pick results).2, ?_⟩
  · intro entry hentry
    obtain ⟨r, hr, hpick⟩ := hsifts.picked entry hentry
    obtain ⟨url, hurl, heq, -⟩ := pick_eq_some_iff.mp hpick
    exact ⟨r, url, hr, hurl, heq⟩
  · intro i r hr hi
    exact pick_eq_none_iff.mp (hsifts.dropped i r hr hi)

/-- The results are deduplicated exactly if no URL that is accepted has a field that cannot be
encoded. -/
theorem deduplicated_iff_encodable {V : Type} {d : UrlData} (hd : d.Lawful)
    (v : FieldValues V) (results : List (RawResult V)) :
    (∃ out kept, deduplicateByDomain d v results = .ok out ∧ Deduplicated d v results out kept) ↔
      ∀ r ∈ results, ¬ EncodeFails d (urlText v r) := by
  constructor
  · intro h
    obtain ⟨out, kept, hout, -⟩ := h
    exact not_encodeFails_of_ok hout
  · intro h
    obtain ⟨kept, hkept⟩ := deduplicated_sift d v results
    exact ⟨_, kept, deduplicateByDomain_eq hd h, hkept⟩

/-- Results whose values are texts. -/
def textValues : FieldValues Text := ⟨id, id, fun _ => rfl⟩

def page (url : Text) : RawResult Text := AList.insert "url" url ∅

/-- Three pages of one domain, of which one comes twice, and one of another. -/
def pages : List (RawResult Text) :=
  ["http://a/x", "http://a/x#f", "http://a/y?utm_source=s&q=1", "http://a/z", "ftp://b/", "http://b/"].map
    fun url => page url.toList

example : (deduplicateByDomain asciiUrlData textValues pages).toOption.map (·.map (urlText textValues)) =
    some (["http://a/x", "http://a/y?q=1", "http://b/"].map String.toList) := by
  decide +kernel

theorem deduplicated_pages :
    ∃ out kept, deduplicateByDomain asciiUrlData textValues pages = .ok out ∧
      Deduplicated asciiUrlData textValues pages out kept :=
  (deduplicated_iff_encodable asciiUrlData_lawful textValues pages).mpr (by decide +kernel)

/-- A surrogate in a field of the query raises. -/
theorem not_deduplicated_surrogate :
    let results := [page ("http://a/?q=".toList ++ [loneSurrogate])]
    deduplicateByDomain asciiUrlData textValues results = .error unicodeEncodeError ∧
      ¬ ∃ out kept, deduplicateByDomain asciiUrlData textValues results = .ok out ∧
        Deduplicated asciiUrlData textValues results out kept := by
  intro results
  have hfails : EncodeFails asciiUrlData
      (urlText textValues (page ("http://a/?q=".toList ++ [loneSurrogate]))) := by
    decide +kernel
  have hraises : deduplicateByDomain asciiUrlData textValues results = .error unicodeEncodeError := by
    rw [deduplicateByDomain, List.foldlM_cons, dedupStep_of_encodeFails _ hfails]
    rfl
  refine ⟨hraises, ?_⟩
  intro h
  obtain ⟨out, kept, hout, -⟩ := h
  rw [hraises] at hout
  cases hout

end WebSearch

end LlmService
