/-
Which requests go to Tomcat (jk_uri_worker_map.c of mod_jk, and `jk_wildchar_match` of jk_util.c).

A rule maps the paths that match its context to a worker, or takes them away from it. The rules are sorted, the most specific
first; rules that are equally specific stand in any order, as `qsort` leaves them.

- `jkWildcharMatch_iff`: the matcher, which gives up early, finds exactly the paths that the pattern means.
- `mapUriToWorker_spec`: the worker is that of a most specific rule that matches, unless a rule takes the path away.
-/
import Mathlib.Data.Char
import Rubbos.Core.Glob
import Rubbos.Core.Text

namespace Rubbos.Connector

open Rubbos.Core Glob

/-! ## jk_wildchar_match -/

/-- 0, 1 and -1 -/
inductive Match where
  | found
  | noMatch
  | abort
deriving DecidableEq, Repr

/-- the loop behind a star: at the first place that does not answer NoMatch -/
def tryRest (f : Text → Match) : Text → Match
  | [] => .abort
  | c :: str =>
    match f (c :: str) with
    | .noMatch => tryRest f str
    | ret => ret

def sameChar (icase : Bool) (c d : Char) : Bool := if icase then d.toLower = c.toLower else d = c

/-- `jk_wildchar_match` -/
def jkWildcharMatch (icase : Bool) : (exp str : Text) → Match
  | [], str => if str = [] then .found else .noMatch
  | c :: exp, str =>
    if c = '*' then
      if exp.dropWhile (· = '*') = [] then .found else tryRest (jkWildcharMatch icase (exp.dropWhile (· = '*'))) str
    else
      match str with
      | [] => .abort
      | d :: str => if c = '?' ∨ sameChar icase c d then jkWildcharMatch icase exp str else .noMatch
termination_by exp => exp.length
decreasing_by
  · exact Nat.lt_succ_of_le (List.dropWhile_sublist _).length_le
  · exact Nat.lt_succ_self _

/-- what a pattern means -/
def token (icase : Bool) (c : Char) : Token Char :=
  if c = '*' then .star else if c = '?' then .one fun _ => true else .one (sameChar icase c)

def tokens (icase : Bool) (exp : Text) : List (Token Char) := exp.map (token icase)

section

variable {icase : Bool} {exp str : Text} {ts : List (Token Char)}

/-- what an answer says -/
def Says (ts : List (Token Char)) (str : Text) : Match → Prop
  | .found => Matches ts str
  | .noMatch => ¬ Matches ts str
  | .abort => ∀ v, v <:+ str → ¬ Matches ts v

theorem tryRest_says {f : Text → Match} (hnil : ¬ Matches ts []) (h : ∀ s, Says ts s (f s)) (str : Text) :
    (tryRest f str = .found ∧ Matches (.star :: ts) str) ∨
      (tryRest f str = .abort ∧ ∀ v, v <:+ str → ¬ Matches ts v) := by
  induction str with
  | nil =>
    refine .inr ⟨rfl, fun v hv => ?_⟩
    rwa [List.suffix_nil.1 hv]
  | cons c str ih =>
    have hhere := h (c :: str)
    unfold tryRest
    cases hf : f (c :: str) with
    | found =>
      rw [hf] at hhere
      exact .inl ⟨rfl, matches_star_iff.2 (.inl hhere)⟩
    | abort =>
      rw [hf] at hhere
      exact .inr ⟨rfl, hhere⟩
    | noMatch =>
      rw [hf] at hhere
      refine ih.imp (fun h => ⟨h.1, matches_star_iff.2 (.inr h.2)⟩) fun h => ⟨h.1, fun v hv => ?_⟩
      obtain rfl | hv := List.suffix_cons_iff.1 hv
      · exact hhere
      · exact h.2 v hv

/-- stars in a row -/
theorem matches_dropStars : Matches (.star :: tokens icase exp) str ↔ Matches (.star :: tokens icase (exp.dropWhile (· = '*'))) str := by
  induction exp with
  | nil => exact Iff.rfl
  | cons c exp ih =>
    by_cases hc : c = '*'
    · subst hc
      rw [List.dropWhile_cons_of_pos (by simp), ← ih]
      simp only [tokens, List.map_cons, token, if_true]
      exact matches_star_star
    · rw [List.dropWhile_cons_of_neg (by simpa using hc)]

theorem not_matches_nil_of_head {c : Char} (hc : c ≠ '*') : ¬ Matches (tokens icase (c :: exp)) [] := by
  simp only [tokens, List.map_cons, token, if_neg hc]
  split_ifs <;> exact not_matches_one_nil

theorem jkWildcharMatch_says (icase : Bool) (exp str : Text) : Says (tokens icase exp) str (jkWildcharMatch icase exp str) := by
  fun_induction jkWildcharMatch icase exp str with
  | case1 => exact rfl
  | case2 str h => exact h
  | case3 exp str hrest =>
    have hstar : Matches (.star :: tokens icase exp) str := by
      rw [matches_dropStars, hrest]
      exact matches_star_end
    simpa [tokens, token, Says] using hstar
  | case4 exp str hrest ih =>
    have hnil : ¬ Matches (tokens icase (exp.dropWhile (· = '*'))) [] := by
      obtain ⟨c, rest, hcons⟩ := List.exists_cons_of_ne_nil hrest
      have hhead := List.head?_dropWhile_not (fun c => decide (c = '*')) exp
      rw [hcons] at hhead ⊢
      exact not_matches_nil_of_head (by simpa using hhead)
    have hstar : ∀ v, Matches (tokens icase ('*' :: exp)) v ↔ Matches (.star :: tokens icase (exp.dropWhile (· = '*'))) v := by
      intro v
      rw [← matches_dropStars]
      simp [tokens, token]
    obtain ⟨hret, hmatch⟩ | ⟨hret, habort⟩ := tryRest_says hnil ih str
    · rw [hret]
      exact (hstar str).2 hmatch
    · rw [hret]
      intro v hv hmatch
      exact not_matches_star_suffix habort v hv ((hstar v).1 hmatch)
  | case5 c exp hc =>
    intro v hv
    rw [List.suffix_nil.1 hv]
    exact not_matches_nil_of_head hc
  | case6 c exp hc d str hsame ih =>
    obtain ⟨p, hp, htoken⟩ : ∃ p : Char → Bool, p d ∧ token icase c = .one p := by
      by_cases hany : c = '?'
      · exact ⟨fun _ => true, rfl, by simp [token, hany]⟩
      · exact ⟨sameChar icase c, by simpa [hany] using hsame, by simp [token, hc, hany]⟩
    have htokens : tokens icase (c :: exp) = .one p :: tokens icase exp := by simp [tokens, htoken]
    rw [htokens]
    cases hret : jkWildcharMatch icase exp str with
    | found =>
      rw [hret] at ih
      exact matches_one_cons.2 ⟨hp, ih⟩
    | noMatch =>
      rw [hret] at ih
      exact fun h => ih (matches_one_cons.1 h).2
    | abort =>
      rw [hret] at ih
      exact not_matches_suffix ih
  | case7 c exp hc d str hdiff =>
    rw [not_or] at hdiff
    have htokens : tokens icase (c :: exp) = .one (sameChar icase c) :: tokens icase exp := by simp [tokens, token, hc, hdiff.1]
    rw [htokens]
    exact fun h => hdiff.2 (matches_one_cons.1 h).1

theorem jkWildcharMatch_iff (icase : Bool) (exp str : Text) :
    jkWildcharMatch icase exp str = .found ↔ Matches (tokens icase exp) str := by
  have h := jkWildcharMatch_says icase exp str
  cases hret : jkWildcharMatch icase exp str with
  | found =>
    rw [hret] at h
    exact iff_of_true rfl h
  | noMatch =>
    rw [hret] at h
    exact iff_of_false (by simp) h
  | abort =>
    rw [hret] at h
    exact iff_of_false (by simp) (h str (List.suffix_refl str))

end

/-! ## The rules -/

/-- `uri_worker_record_t`, with the flags of its match_type -/
structure UriWorkerRecord where
  context : Text
  worker_name : Text
  source_type : ℕ
  disabled : Bool
  no_match : Bool
  /-- the context has a '*' or a '?', otherwise the match is exact -/
  wildchar : Bool
deriving DecidableEq, Repr

/-- what `strtok(w, ";")` leaves of w -/
def cutExtensions (w : Text) : Text := w.takeWhile (· = ';') ++ (w.dropWhile (· = ';')).takeWhile (· ≠ ';')

/-- the record that `uri_worker_map_add` makes of a rule -/
def recordOf (puri worker : Text) (source_type : ℕ) : Option UriWorkerRecord :=
  let disabled := puri.head? = some '-'
  let puri := if disabled then puri.tail else puri
  let no_match := puri.head? = some '!'
  let uri := if no_match then puri.tail else puri
  if uri.head? = some '/' then
    some ⟨uri, cutExtensions worker, source_type, disabled, no_match, uri.any fun c => c = '*' ∨ c = '?'⟩
  else none

def workerCountContextUriTokens (context : Text) : ℕ := context.count '/'

def workerCompare (e₁ e₂ : UriWorkerRecord) : ℤ :=
  let tokens₁ : ℤ := workerCountContextUriTokens e₁.context
  let tokens₂ : ℤ := workerCountContextUriTokens e₂.context
  if tokens₁ ≠ tokens₂ then tokens₂ - tokens₁
  else if e₂.context.length ≠ e₁.context.length then (e₂.context.length : ℤ) - e₁.context.length
  else (e₂.source_type : ℤ) - e₁.source_type

/-- e₁ may stand before e₂ -/
def NotAfter (e₁ e₂ : UriWorkerRecord) : Prop := workerCompare e₁ e₂ ≤ 0

instance : DecidableRel NotAfter := fun _ _ => inferInstanceAs (Decidable (_ ≤ _))

/-- `jk_uri_worker_map_t`: the rules in an order that `worker_qsort` may leave -/
structure UriWorkerMap where
  maps : List UriWorkerRecord
  reject_unsafe : Bool
  sorted : maps.Pairwise NotAfter

/-- the number of rules with MATCH_TYPE_NO_MATCH -/
def UriWorkerMap.nosize (uw_map : UriWorkerMap) : ℕ := uw_map.maps.countP (·.no_match)

def UriWorkerRecord.matches (uwr : UriWorkerRecord) (url : Text) : Bool :=
  if uwr.wildchar then jkWildcharMatch false uwr.context url = .found
  else uwr.context.isPrefixOf url && url.length = uwr.context.length

def findMatch (uw_map : UriWorkerMap) (url : Text) : Option UriWorkerRecord :=
  uw_map.maps.find? fun uwr => !(uwr.disabled || uwr.no_match) && uwr.matches url

/-- `is_nomatch`, for the worker of the rule that was found -/
def isNomatch (uw_map : UriWorkerMap) (uri worker : Text) : Bool :=
  uw_map.maps.any fun uwr => uwr.no_match && !uwr.disabled && (uwr.worker_name = worker || uwr.worker_name = ['*']) && uwr.matches uri

def JK_MAX_URI_LEN : ℕ := 4095

/-- what is written before the uri; a host that is too long is left out, but not the slash before it -/
def urlPrefix : Option Text → Text
  | none => []
  | some vhost =>
    let slash := if vhost.head? = some '/' then [] else ['/']
    if JK_MAX_URI_LEN ≤ vhost.length + slash.length then slash else slash ++ vhost

/-- the copy of the uri ends with its first character that is unsafe or does not fit -/
def copyable (uw_map : UriWorkerMap) (remain : ℕ) (uri : Text) : Bool :=
  uri.length ≤ remain && !(uw_map.reject_unsafe && uri.any fun c => c = '%' ∨ c = '\\')

/-- `map_uri_to_worker_ext`: the rule whose worker is returned -/
def mapUriToWorker (uw_map : UriWorkerMap) (uri : Text) (vhost : Option Text) : Option UriWorkerRecord :=
  let vhost := urlPrefix vhost
  if uri.head? ≠ some '/' then none
  else if !copyable uw_map (JK_MAX_URI_LEN - vhost.length) uri then none
  else
    let url := vhost ++ uri
    let rv :=
      match findMatch uw_map url with
      | some uwr => some uwr
      | none => if vhost = [] then none else findMatch uw_map uri
    match rv with
    | none => none
    | some uwr =>
      if uw_map.nosize ≠ 0 ∧ (isNomatch uw_map url uwr.worker_name ∨ vhost ≠ [] ∧ isNomatch uw_map uri uwr.worker_name) then none
      else some uwr

/-! ## What the rules mean -/

/-- the path is one that the context describes -/
def UriWorkerRecord.Covers (uwr : UriWorkerRecord) (url : Text) : Prop :=
  if uwr.wildchar then Matches (tokens false uwr.context) url else url = uwr.context

def UriWorkerRecord.Mounts (uwr : UriWorkerRecord) : Prop := uwr.disabled = false ∧ uwr.no_match = false

def UriWorkerRecord.Unmounts (uwr : UriWorkerRecord) (worker : Text) : Prop :=
  uwr.disabled = false ∧ uwr.no_match = true ∧ (uwr.worker_name = worker ∨ uwr.worker_name = ['*'])

/-- the rule mounts the path, and no rule that does is more specific -/
structure MostSpecific (uw_map : UriWorkerMap) (url : Text) (uwr : UriWorkerRecord) : Prop where
  mem : uwr ∈ uw_map.maps
  mounts : uwr.Mounts
  covers : uwr.Covers url
  first : ∀ other ∈ uw_map.maps, other.Mounts → other.Covers url → NotAfter uwr other

/-- no rule mounts the path -/
def Unmapped (uw_map : UriWorkerMap) (url : Text) : Prop := ∀ uwr ∈ uw_map.maps, uwr.Mounts → ¬ uwr.Covers url

/-- a rule takes the path away from the worker -/
def TakenAway (uw_map : UriWorkerMap) (worker url : Text) : Prop := ∃ uwr ∈ uw_map.maps, uwr.Unmounts worker ∧ uwr.Covers url

/-- the paths that are looked up: with the host in front, and without -/
def lookups (vhost : Option Text) (uri : Text) : List Text :=
  if urlPrefix vhost = [] then [uri] else [urlPrefix vhost ++ uri, uri]

/-- a most specific rule for the first of the paths that is mapped at all -/
def Chosen (uw_map : UriWorkerMap) : List Text → UriWorkerRecord → Prop
  | [], _ => False
  | url :: urls, uwr => MostSpecific uw_map url uwr ∨ Unmapped uw_map url ∧ Chosen uw_map urls uwr

section

variable {uw_map : UriWorkerMap} {uwr : UriWorkerRecord} {url uri : Text} {vhost : Option Text}

theorem matches_iff : uwr.matches url = true ↔ uwr.Covers url := by
  unfold UriWorkerRecord.matches UriWorkerRecord.Covers
  split_ifs
  · simpa using jkWildcharMatch_iff false uwr.context url
  · rw [Bool.and_eq_true, List.isPrefixOf_iff_prefix, decide_eq_true_eq]
    constructor
    · rintro ⟨hstart, hlen⟩
      exact (hstart.eq_of_length hlen.symm).symm
    · rintro rfl
      exact ⟨List.prefix_refl _, rfl⟩

theorem mostSpecific_of_findMatch (h : findMatch uw_map url = some uwr) : MostSpecific uw_map url uwr := by
  obtain ⟨hmatch, before, after, hmaps, hbefore⟩ := List.find?_eq_some_iff_append.1 h
  simp only [Bool.and_eq_true, Bool.not_eq_true', Bool.or_eq_false_iff] at hmatch
  refine ⟨List.mem_of_find?_eq_some h, hmatch.1, matches_iff.1 hmatch.2, fun other hother hmounts hcovers => ?_⟩
  have hsorted := uw_map.sorted
  rw [hmaps, List.mem_append, List.mem_cons] at hother
  rw [hmaps, List.pairwise_append, List.pairwise_cons] at hsorted
  obtain hother | rfl | hother := hother
  · have hnot := hbefore other hother
    rw [matches_iff.2 hcovers] at hnot
    simp [hmounts.1, hmounts.2] at hnot
  · simp [NotAfter, workerCompare]
  · exact hsorted.2.1.1 other hother

theorem findMatch_eq_none_iff : findMatch uw_map url = none ↔ Unmapped uw_map url := by
  unfold findMatch Unmapped UriWorkerRecord.Mounts
  rw [List.find?_eq_none]
  refine forall₂_congr fun uwr _ => ?_
  rw [Bool.and_eq_true, matches_iff]
  simp

theorem isNomatch_iff {worker : Text} : isNomatch uw_map url worker = true ↔ TakenAway uw_map worker url := by
  unfold isNomatch TakenAway UriWorkerRecord.Unmounts
  rw [List.any_eq_true]
  refine exists_congr fun uwr => and_congr_right fun _ => ?_
  rw [Bool.and_eq_true, matches_iff]
  simp only [Bool.and_eq_true, Bool.not_eq_true', Bool.or_eq_true, decide_eq_true_eq]
  tauto

theorem nosize_ne_zero {worker : Text} (h : TakenAway uw_map worker url) : uw_map.nosize ≠ 0 := by
  obtain ⟨uwr, hmem, hunmounts, -⟩ := h
  have hpos : 0 < uw_map.nosize := List.countP_pos_iff.2 ⟨uwr, hmem, hunmounts.2.1⟩
  omega

/-- the rule that is looked up -/
def lookup (uw_map : UriWorkerMap) : List Text → Option UriWorkerRecord
  | [] => none
  | url :: urls => (findMatch uw_map url).or (lookup uw_map urls)

theorem chosen_of_lookup {urls : List Text} (h : lookup uw_map urls = some uwr) : Chosen uw_map urls uwr := by
  induction urls with
  | nil => cases h
  | cons url urls ih =>
    unfold lookup at h
    cases hfind : findMatch uw_map url with
    | some r =>
      rw [hfind] at h
      cases h
      exact .inl (mostSpecific_of_findMatch hfind)
    | none =>
      rw [hfind] at h
      exact .inr ⟨findMatch_eq_none_iff.1 hfind, ih h⟩

theorem lookup_eq_none_iff {urls : List Text} : lookup uw_map urls = none ↔ ∀ url ∈ urls, Unmapped uw_map url := by
  induction urls with
  | nil => simp [lookup]
  | cons url urls ih => rw [lookup, Option.or_eq_none_iff, ih, findMatch_eq_none_iff, List.forall_mem_cons]

/-- the uri can be looked up at all -/
def Accepted (uw_map : UriWorkerMap) (vhost : Option Text) (uri : Text) : Prop :=
  uri.head? = some '/' ∧ copyable uw_map (JK_MAX_URI_LEN - (urlPrefix vhost).length) uri

theorem lookup_lookups (uw_map : UriWorkerMap) (vhost : Option Text) (uri : Text) : lookup uw_map (lookups vhost uri) =
    match findMatch uw_map (urlPrefix vhost ++ uri) with
    | some uwr => some uwr
    | none => if urlPrefix vhost = [] then none else findMatch uw_map uri := by
  unfold lookups
  split_ifs with hvhost
  · rw [hvhost, List.nil_append]
    cases hfind : findMatch uw_map uri <;> simp [lookup, hfind]
  · cases hfind : findMatch uw_map (urlPrefix vhost ++ uri) <;> simp [lookup, hfind]

/-- nosize only saves the loops -/
theorem denied_iff (uw_map : UriWorkerMap) (vhost : Option Text) (uri worker : Text) :
    (uw_map.nosize ≠ 0 ∧ (isNomatch uw_map (urlPrefix vhost ++ uri) worker ∨ urlPrefix vhost ≠ [] ∧ isNomatch uw_map uri worker)) ↔
      ∃ url ∈ lookups vhost uri, TakenAway uw_map worker url := by
  have hurls : (isNomatch uw_map (urlPrefix vhost ++ uri) worker ∨ urlPrefix vhost ≠ [] ∧ isNomatch uw_map uri worker) ↔
      ∃ url ∈ lookups vhost uri, TakenAway uw_map worker url := by
    unfold lookups
    by_cases hvhost : urlPrefix vhost = [] <;> simp [hvhost, isNomatch_iff]
  rw [hurls]
  refine ⟨And.right, fun h => ⟨?_, h⟩⟩
  obtain ⟨url, -, htaken⟩ := h
  exact nosize_ne_zero htaken

open Classical in
/-- the lookup, and then the rules that take paths away -/
theorem mapUriToWorker_eq (haccepted : Accepted uw_map vhost uri) : mapUriToWorker uw_map uri vhost =
    match lookup uw_map (lookups vhost uri) with
    | none => none
    | some uwr => if ∃ url ∈ lookups vhost uri, TakenAway uw_map uwr.worker_name url then none else some uwr := by
  unfold mapUriToWorker
  simp only [haccepted.1, haccepted.2, ne_eq, not_true_eq_false, if_false, Bool.not_true, Bool.false_eq_true]
  rw [← lookup_lookups]
  split
  · rfl
  · exact if_congr (denied_iff _ _ _ _) rfl rfl

/-- **The mapping.** A worker that is returned is that of a most specific rule, and no rule takes the path away from it; none is
returned only if the uri is not accepted, no rule mounts it, or one takes it away from a most specific rule's worker. -/
theorem mapUriToWorker_spec (uw_map : UriWorkerMap) (uri : Text) (vhost : Option Text) :
    (∀ uwr, mapUriToWorker uw_map uri vhost = some uwr → Accepted uw_map vhost uri ∧ Chosen uw_map (lookups vhost uri) uwr ∧
      ∀ url ∈ lookups vhost uri, ¬ TakenAway uw_map uwr.worker_name url) ∧
    (mapUriToWorker uw_map uri vhost = none → ¬ Accepted uw_map vhost uri ∨ (∀ url ∈ lookups vhost uri, Unmapped uw_map url) ∨
      ∃ uwr, Chosen uw_map (lookups vhost uri) uwr ∧ ∃ url ∈ lookups vhost uri, TakenAway uw_map uwr.worker_name url) := by
  by_cases haccepted : Accepted uw_map vhost uri
  · rw [mapUriToWorker_eq haccepted]
    cases hlookup : lookup uw_map (lookups vhost uri) with
    | none => exact ⟨fun uwr h => absurd h (by simp), fun _ => .inr (.inl (lookup_eq_none_iff.1 hlookup))⟩
    | some r =>
      have hchosen := chosen_of_lookup hlookup
      simp only
      split_ifs with htaken
      · exact ⟨fun uwr h => absurd h (by simp), fun _ => .inr (.inr ⟨r, hchosen, htaken⟩)⟩
      · refine ⟨fun uwr h => ?_, fun h => absurd h (by simp)⟩
        cases h
        exact ⟨haccepted, hchosen, fun url hurl h => htaken ⟨url, hurl, h⟩⟩
  · have hnone : mapUriToWorker uw_map uri vhost = none := by
      unfold mapUriToWorker
      simp only
      split
      · rfl
      · split
        · rfl
        · rename_i hslash hcopy
          exact absurd ⟨by simpa using hslash, by simpa using hcopy⟩ haccepted
    exact ⟨fun uwr h => absurd h (by simp [hnone]), fun _ => .inl haccepted⟩

end

end Rubbos.Connector
