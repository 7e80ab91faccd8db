/-
Which requests mod_jk takes (`jk_translate` and `jk_map_to_storage` of mod_jk.c).

Apache runs both hooks on a request, and other modules change it in between. `jk_translate` leaves the worker in the notes of the
request, serves a file of the JkAutoAlias directory, or declines; `jk_map_to_storage` maps the request if nothing has before.

- `hooks_mapped`: whatever the other hooks do, a request that has a worker has a normal path that the rules map to this worker.
- `translate_ok`: what is not mapped is a file of the alias directory, and not one of WEB-INF or META-INF.
- `rubbos_forwarded_iff`: the site forwards the requests whose paths lead below /rubbos.
-/
import Mathlib.Data.List.DropRight
import Rubbos.Connector.ServletNormalize
import Rubbos.Connector.UriWorkerMap

namespace Rubbos.Connector

open Rubbos.Core Glob

/-! ## Model -/

def JK_HANDLER : Text := "jakarta-servlet".toList
def DIR_MAGIC_TYPE : Text := "httpd/unix-directory".toList

/-- `r->main`, with its note JK_WORKER_NAME -/
structure MainRequest where
  handler : Option Text
  filename : Option Text
  worker : Option Text
deriving DecidableEq

/-- `request_rec` -/
structure Request where
  uri : Text
  filename : Option Text
  handler : Option Text
  proxyreq : Bool
  /-- the variable no-jk is set -/
  no_jk : Bool
  /-- the note JK_WORKER_NAME -/
  worker : Option Text
  /-- `orig_uri` of `jk_request_conf_t` -/
  orig_uri : Option Text
  main : Option MainRequest
deriving DecidableEq

/-- `jk_server_conf_t` -/
structure ServerConf where
  uw_map : Option UriWorkerMap
  /-- JkAutoAlias -/
  alias_dir : Option Text
  strip_session : Bool
  strip_session_name : Option Text

inductive Status where
  | declined
  | ok
  | badRequest
  | notFound
  | forbidden
deriving DecidableEq, Repr

/-- `apr_filetype_e`, as far as it is asked for -/
inductive Filetype where
  | nofile
  | reg
  | dir
deriving DecidableEq, Repr

def strcasecmp (s t : Text) : Bool := s.map Char.toLower = t.map Char.toLower

/-- T_OS_ESCAPE_PATH -/
def osEscaped (c : Char) : Bool := !(c.isAlphanum || "$-_.+!*'(),:;@&=/~".toList.contains c)

/-- `c2x` -/
def c2x (c : Char) : Text := ['%', Nat.digitChar (c.toNat / 16), Nat.digitChar (c.toNat % 16)]

/-- `ap_os_escape_path`, partial -/
def apOsEscapePath (path : Text) : Text := path.flatMap fun c => if osEscaped c then c2x c else [c]

/-- a listing of a directory that is mapped with JkAutoAlias is left to Apache -/
def servesListing (conf : ServerConf) (stat : Text → Filetype) (r : Request) (clean_uri : Text) : Bool :=
  match r.main, conf.alias_dir with
  | some main, some alias_dir =>
    main.handler = some DIR_MAGIC_TYPE &&
      (clean_uri.length ≤ 1 || stat (alias_dir ++ apOsEscapePath clean_uri) ≠ .reg)
  | _, _ => false

/-- the context directory of a path, and the child in it -/
def contextDirs (index : Text) : Text × Option Text :=
  match index.tail.dropWhile (· ≠ '/') with
  | [] => (index, none)
  | _ :: suffix => (index.take 1 ++ index.tail.takeWhile (· ≠ '/'), some (suffix.takeWhile (· ≠ '/')))

/-- automatically map a uri to a context static file -/
def autoAlias (alias_dir : Text) (stat : Text → Filetype) (r : Request) (clean_uri : Text) : Status × Request :=
  if clean_uri.length ≤ 1 then (.declined, r)
  else
    let (context_dir, child_dir) := contextDirs clean_uri
    if child_dir.any fun child_dir => strcasecmp child_dir "WEB-INF".toList || strcasecmp child_dir "META-INF".toList then (.notFound, r)
    else if stat (alias_dir ++ apOsEscapePath context_dir) = .dir then
      (.ok, { r with filename := some (alias_dir ++ apOsEscapePath clean_uri) })
    else if 4 < context_dir.length ∧ strcasecmp (context_dir.drop (context_dir.length - 4)) ".war".toList then (.forbidden, r)
    else (.declined, r)

/-- the request is for a worker -/
def mapped (r : Request) (clean_uri worker : Text) : Request :=
  { r with orig_uri := some r.uri, uri := clean_uri, handler := some JK_HANDLER, worker := some worker }

/-- `jk_translate` -/
def jkTranslate (conf : ServerConf) (stat : Text → Filetype) (r : Request) : Status × Request :=
  let r := { r with orig_uri := none }
  if r.proxyreq ∨ r.handler = some JK_HANDLER ∨ r.no_jk then (.declined, r)
  else
    match jkServletNormalize r.uri with
    | .ok clean_uri =>
      if servesListing conf stat r clean_uri then (.declined, r)
      else
        match conf.uw_map with
        | none => (.declined, r)
        | some uw_map =>
          match mapUriToWorker uw_map clean_uri none with
          | some uwr =>
            (.ok, { mapped r clean_uri uwr.worker_name with
              main := r.main.map fun main => { main with handler := some JK_HANDLER, worker := some uwr.worker_name } })
          | none =>
            match conf.alias_dir with
            | some alias_dir => autoAlias alias_dir stat r clean_uri
            | none => (.declined, r)
    | _ => (.badRequest, r)

/-- `jk_strip_session_id` -/
def jkStripSessionId (session_name : Text) : Text → Text
  | [] => []
  | c :: path =>
    if session_name.isPrefixOf (c :: path) then ((c :: path).drop session_name.length).dropWhile fun c => c ≠ ';' ∧ c ≠ '/'
    else c :: jkStripSessionId session_name path

/-- `apr_filepath_name_get` -/
def aprFilepathNameGet (pathname : Text) : Text := pathname.rtakeWhile (· ≠ '/')

/-- the end of `jk_map_to_storage`; merge is `apr_filepath_merge` -/
def storeName (merge : Text → Text → Option Text) (r : Request) : Status × Request :=
  if r.worker = none then (.declined, r)
  else
    let name := aprFilepathNameGet r.uri
    match r.main.bind (·.filename) with
    | some filename =>
      if aprFilepathNameGet filename = [] then
        match merge filename name with
        | some merged => (.ok, { r with filename := some merged })
        | none => (.declined, { r with filename := some name })
      else (.ok, { r with filename := some name })
    | none => (.ok, { r with filename := some name })

/-- `jk_map_to_storage` -/
def jkMapToStorage (conf : ServerConf) (merge : Text → Text → Option Text) (r : Request) : Status × Request :=
  if r.proxyreq ∨ r.worker ≠ none then storeName merge r
  else if r.handler = some JK_HANDLER ∨ r.no_jk then (.declined, r)
  else
    match jkServletNormalize r.uri with
    | .ok clean_uri =>
      match conf.uw_map with
      | none => (.declined, r)
      | some uw_map =>
        match mapUriToWorker uw_map clean_uri none with
        | some uwr =>
          storeName merge { mapped r clean_uri uwr.worker_name with
            main := r.main.map fun main => { main with worker := some uwr.worker_name } }
        | none =>
          match conf.strip_session, conf.strip_session_name with
          | true, some name =>
            (.declined, { r with uri := jkStripSessionId name r.uri, filename := r.filename.map (jkStripSessionId name) })
          | _, _ => storeName merge r
    | _ => (.badRequest, r)

/-- what is done to a request; the file system may answer differently every time -/
inductive Hook where
  | translate (stat : Text → Filetype)
  | mapToStorage (merge : Text → Text → Option Text)
  /-- another module sets what mod_jk asks for; the path and the notes of mod_jk it leaves alone -/
  | other (handler filename : Option Text) (proxyreq no_jk : Bool)

def runHook (conf : ServerConf) (r : Request) : Hook → Request
  | .translate stat => (jkTranslate conf stat r).2
  | .mapToStorage merge => (jkMapToStorage conf merge r).2
  | .other handler filename proxyreq no_jk =>
    { r with handler := handler, filename := filename, proxyreq := proxyreq, no_jk := no_jk }

theorem pairwise_toList {α : Type} (R : α → α → Prop) (o : Option α) : o.toList.Pairwise R := by
  cases o <;> simp

def SOURCE_TYPE_JKMOUNT : ℕ := 2

/-- `JkMount /rubbos/* worker1` -/
def rubbosMount : Option UriWorkerRecord := recordOf "/rubbos/*".toList "worker1".toList SOURCE_TYPE_JKMOUNT

def rubbosMap : UriWorkerMap := ⟨rubbosMount.toList, false, pairwise_toList _ _⟩

/-- httpd.conf -/
def rubbosConf : ServerConf where
  uw_map := some rubbosMap
  alias_dir := none
  strip_session := false
  strip_session_name := none

/-- a request for the story, by a detour -/
def storyRequest : Request where
  uri := "/rubbos//x/../servlets;v=1/./ViewStory".toList
  filename := none
  handler := none
  proxyreq := false
  no_jk := false
  worker := none
  orig_uri := none
  main := none

/-! ## The mount of the site -/

/-- the rules map the path to the worker -/
def Routed (conf : ServerConf) (uri worker : Text) : Prop :=
  ∃ uw_map uwr, conf.uw_map = some uw_map ∧ mapUriToWorker uw_map uri none = some uwr ∧ uwr.worker_name = worker

section

variable {conf : ServerConf} {stat : Text → Filetype} {merge : Text → Text → Option Text} {r : Request}

/-- a request for a worker -/
theorem jkTranslate_mapped (conf : ServerConf) (stat : Text → Filetype) (r : Request) {clean_uri : Text} {uw_map : UriWorkerMap}
    {uwr : UriWorkerRecord}
    (hskip : ¬ (r.proxyreq = true ∨ r.handler = some JK_HANDLER ∨ r.no_jk = true)) (hclean : jkServletNormalize r.uri = .ok clean_uri)
    (hlisting : servesListing conf stat { r with orig_uri := none } clean_uri = false) (huw_map : conf.uw_map = some uw_map)
    (hmap : mapUriToWorker uw_map clean_uri none = some uwr) :
    jkTranslate conf stat r = (.ok, { mapped r clean_uri uwr.worker_name with
      main := r.main.map fun main => { main with handler := some JK_HANDLER, worker := some uwr.worker_name } }) := by
  unfold jkTranslate
  simp only [hskip, hclean, hlisting, huw_map, hmap, if_false, Bool.false_eq_true, mapped]

/-- a context that is a literal and a star -/
theorem covers_below {uwr : UriWorkerRecord} {literal url : Text} (hwildchar : uwr.wildchar = true)
    (hcontext : uwr.context = literal ++ ['*']) (hliteral : ∀ c ∈ literal, c ≠ '*' ∧ c ≠ '?') : uwr.Covers url ↔ literal <+: url := by
  have htokens : tokens false uwr.context = literal.map (fun c => .one (sameChar false c)) ++ [.star] := by
    rw [hcontext, tokens, List.map_append]
    congr 1
    refine List.map_congr_left fun c hc => ?_
    obtain ⟨hstar, hany⟩ := hliteral c hc
    rw [token, if_neg hstar, if_neg hany]
  unfold UriWorkerRecord.Covers
  rw [if_pos hwildchar, htokens]
  exact matches_prefix_star fun a b => by simp [sameChar]

/-- a path lies below a directory of the root -/
theorem below_iff {p : Place} (hp : p.Named) {name : Text} (hname : '/' ∉ name) :
    '/' :: (name ++ ['/']) <+: p.path ↔ p.dir.getLast? = some name := by
  have hdir : ∀ seg ∈ p.dir.reverse, '/' ∉ seg := fun seg hseg => (hp.dir seg (List.mem_reverse.1 hseg)).2.1
  rw [← List.head?_reverse, Place.path, List.cons_prefix_cons]
  simp only [true_and]
  cases hrev : p.dir.reverse with
  | nil =>
    simp only [pathText_nil, List.head?_nil, reduceCtorEq, iff_false]
    exact fun h => hp.file.2.1 (h.subset (by simp))
  | cons seg dirs =>
    rw [hrev] at hdir
    have hseg : '/' ∉ seg := hdir seg (by simp)
    simp only [pathText_cons, List.head?_cons, Option.some.injEq]
    constructor
    · intro h
      have hcut : ∀ {u : Text} (t : Text), '/' ∉ u → (u ++ '/' :: t).takeWhile (· ≠ '/') = u := by
        intro u t hu
        rw [List.takeWhile_append_of_pos fun c hc => by simpa using fun h : c = '/' => hu (h ▸ hc)]
        simp
      obtain ⟨t, ht⟩ := h
      rw [List.append_assoc, List.singleton_append] at ht
      have hsame := congrArg (List.takeWhile (· ≠ '/')) ht
      rw [hcut _ hname, hcut _ hseg] at hsame
      exact hsame.symm
    · rintro rfl
      exact ⟨pathText dirs p.file, by simp⟩

theorem mem_rubbosMap {uwr : UriWorkerRecord} :
    uwr ∈ rubbosMap.maps ↔ uwr = ⟨"/rubbos/".toList ++ ['*'], "worker1".toList, SOURCE_TYPE_JKMOUNT, false, false, true⟩ := by
  have hmount : rubbosMount = some ⟨"/rubbos/".toList ++ ['*'], "worker1".toList, SOURCE_TYPE_JKMOUNT, false, false, true⟩ := by
    decide
  have hmaps : rubbosMap.maps = rubbosMount.toList := rfl
  rw [hmaps, hmount, Option.toList_some, List.mem_singleton]

theorem covers_rubbos {uwr : UriWorkerRecord} (h : uwr ∈ rubbosMap.maps) {p : Place} (hp : p.Named) :
    uwr.Covers p.path ↔ p.dir.getLast? = some "rubbos".toList := by
  rw [mem_rubbosMap] at h
  have hbelow := below_iff hp (show '/' ∉ "rubbos".toList by decide)
  rw [← hbelow]
  subst h
  exact covers_below rfl rfl (by decide)

theorem accepted_rubbos {p : Place} : Accepted rubbosMap none p.path ↔ p.path.length ≤ JK_MAX_URI_LEN := by
  simp [Accepted, copyable, rubbosMap, urlPrefix, Place.path]

theorem routed_rubbos {p : Place} (hp : p.Named) {worker : Text} : Routed rubbosConf p.path worker ↔
    worker = "worker1".toList ∧ p.dir.getLast? = some "rubbos".toList ∧ p.path.length ≤ JK_MAX_URI_LEN := by
  have hlookups : lookups none p.path = [p.path] := by simp [lookups, urlPrefix]
  obtain ⟨hsome, hnone⟩ := mapUriToWorker_spec rubbosMap p.path none
  rw [hlookups] at hsome hnone
  simp only [List.mem_singleton, exists_eq_left, Chosen, and_false, or_false] at hsome hnone
  constructor
  · rintro ⟨uw_map, uwr, huw_map, hmap, rfl⟩
    obtain rfl : rubbosMap = uw_map := Option.some.inj huw_map
    obtain ⟨haccepted, hchosen, -⟩ := hsome uwr hmap
    exact ⟨by rw [mem_rubbosMap.1 hchosen.mem], (covers_rubbos hchosen.mem hp).1 hchosen.covers, accepted_rubbos.1 haccepted⟩
  · rintro ⟨rfl, hdir, hlen⟩
    cases hmap : mapUriToWorker rubbosMap p.path none with
    | some uwr =>
      obtain ⟨-, hchosen, -⟩ := hsome uwr hmap
      exact ⟨rubbosMap, uwr, rfl, hmap, by rw [mem_rubbosMap.1 hchosen.mem]⟩
    | none =>
      obtain haccepted | hunmapped | ⟨uwr, -, other, hother, hunmounts, -⟩ := hnone hmap
      · exact absurd (accepted_rubbos.2 hlen) haccepted
      · have hmem := mem_rubbosMap.2 rfl
        exact absurd ((covers_rubbos hmem hp).2 hdir) (hunmapped p.path rfl _ hmem ⟨rfl, rfl⟩)
      · rw [mem_rubbosMap.1 hother] at hunmounts
        exact absurd hunmounts.2.1 (by simp)

/-- without an alias directory a request is translated just if it is for a worker -/
theorem translate_ok_iff (stat : Text → Filetype) {clean_uri : Text} (halias_dir : conf.alias_dir = none)
    (hskip : ¬ (r.proxyreq = true ∨ r.handler = some JK_HANDLER ∨ r.no_jk = true)) (hclean : jkServletNormalize r.uri = .ok clean_uri) :
    ((jkTranslate conf stat r).1 = .ok ↔ ∃ worker, Routed conf clean_uri worker) ∧
      ((jkTranslate conf stat r).1 = .ok → (jkTranslate conf stat r).2.uri = clean_uri) := by
  have hlisting : servesListing conf stat { r with orig_uri := none } clean_uri = false := by
    unfold servesListing
    rw [halias_dir]
    cases r.main <;> rfl
  unfold jkTranslate Routed
  simp only [hskip, hclean, hlisting, halias_dir, if_false, Bool.false_eq_true]
  cases conf.uw_map with
  | none => simp
  | some uw_map => cases hmap : mapUriToWorker uw_map clean_uri none <;> simp [hmap, mapped]

/-- **The mount.** The site forwards a request just if its segments lead into the directory rubbos of the root, and always with
the path of the place where they lead. -/
theorem rubbos_forwarded_iff (stat : Text → Filetype) (r : Request) (init : List Text) (last : Text)
    (huri : r.uri = '/' :: pathText init last) (hslashless : Slashless init last) (hproxy : r.proxyreq = false)
    (hhandler : r.handler ≠ some JK_HANDLER) (hno_jk : r.no_jk = false) (uri : Text) :
    ((jkTranslate rubbosConf stat r).1 = .ok ∧ (jkTranslate rubbosConf stat r).2.uri = uri) ↔
      ∃ p, place (init.map stripParams) (stripParams last) = some p ∧ p.dir.getLast? = some "rubbos".toList ∧
        p.path.length ≤ JK_MAX_URI_LEN ∧ p.path = uri := by
  have hskip : ¬ (r.proxyreq = true ∨ r.handler = some JK_HANDLER ∨ r.no_jk = true) := by simp [hproxy, hhandler, hno_jk]
  have hclean := normalize_place hslashless
  rw [← huri] at hclean
  cases hplace : place (init.map stripParams) (stripParams last) with
  | none =>
    rw [hplace] at hclean
    have hrefused : (jkTranslate rubbosConf stat r).1 ≠ .ok := by
      unfold jkTranslate
      simp [hskip, hclean, Normalized.ofPlace]
    simp [hrefused]
  | some p =>
    rw [hplace] at hclean
    have hp : p.Named := named_strip hslashless hplace
    obtain ⟨hok, hpath⟩ := translate_ok_iff stat (show rubbosConf.alias_dir = none from rfl) hskip hclean
    simp only [routed_rubbos hp, exists_eq_left] at hok
    constructor
    · rintro ⟨htranslated, rfl⟩
      obtain ⟨hdir, hlen⟩ := hok.1 htranslated
      exact ⟨p, rfl, hdir, hlen, (hpath htranslated).symm⟩
    · rintro ⟨q, hq, hdir, hlen, rfl⟩
      obtain rfl := Option.some.inj hq
      exact ⟨hok.2 ⟨hdir, hlen⟩, hpath (hok.2 ⟨hdir, hlen⟩)⟩

def story : Place := ⟨["servlets".toList, "rubbos".toList], "ViewStory".toList⟩

def storyInit : List Text := ["rubbos".toList, [], "x".toList, "..".toList, "servlets;v=1".toList, ".".toList]

theorem uri_storyRequest : storyRequest.uri = '/' :: pathText storyInit "ViewStory".toList := by decide

theorem slashless_story : Slashless storyInit "ViewStory".toList := ⟨by decide, by decide⟩

theorem place_story : place (storyInit.map stripParams) (stripParams "ViewStory".toList) = some story := by decide

theorem forwarded_story : (jkTranslate rubbosConf (fun _ => .nofile) storyRequest).1 = .ok ∧
    (jkTranslate rubbosConf (fun _ => .nofile) storyRequest).2.uri = "/rubbos/servlets/ViewStory".toList :=
  (rubbos_forwarded_iff _ storyRequest storyInit _ uri_storyRequest slashless_story rfl (by decide) rfl _).2
    ⟨story, place_story, by decide, by decide, by decide⟩

/-! ## Requests that have a worker -/

structure Mapped (conf : ServerConf) (r : Request) : Prop where
  normal : ∀ worker, r.worker = some worker → Normal r.uri ∧ Routed conf r.uri worker
  orig : ∀ orig, r.orig_uri = some orig → r.worker ≠ none ∧ jkServletNormalize orig = .ok r.uri

/-- the file that is served, if one is -/
theorem autoAlias_cases {alias_dir clean_uri : Text} :
    ∃ filename, (autoAlias alias_dir stat r clean_uri).2 = { r with filename := filename } := by
  unfold autoAlias
  dsimp only
  split_ifs
  all_goals exact ⟨_, rfl⟩

theorem jkTranslate_cases (conf : ServerConf) (stat : Text → Filetype) (r : Request) :
    (∃ filename, (jkTranslate conf stat r).2 = { r with orig_uri := none, filename := filename }) ∨
      ∃ clean_uri worker main, jkServletNormalize r.uri = .ok clean_uri ∧ Routed conf clean_uri worker ∧
        (jkTranslate conf stat r).2 = { mapped r clean_uri worker with main := main } := by
  unfold jkTranslate
  dsimp only
  split_ifs with hskip
  · exact .inl ⟨_, rfl⟩
  · cases hclean : jkServletNormalize r.uri with
    | badPath => exact .inl ⟨_, rfl⟩
    | traversal => exact .inl ⟨_, rfl⟩
    | ok clean_uri =>
      dsimp only
      split_ifs with hlisting
      · exact .inl ⟨_, rfl⟩
      · cases huw_map : conf.uw_map with
        | none => exact .inl ⟨_, rfl⟩
        | some uw_map =>
          dsimp only
          cases hmap : mapUriToWorker uw_map clean_uri none with
          | some uwr => exact .inr ⟨clean_uri, _, _, rfl, ⟨uw_map, uwr, huw_map, hmap, rfl⟩, rfl⟩
          | none =>
            dsimp only
            cases conf.alias_dir with
            | none => exact .inl ⟨_, rfl⟩
            | some alias_dir => exact .inl autoAlias_cases

theorem storeName_cases (merge : Text → Text → Option Text) (r : Request) :
    ∃ filename, (storeName merge r).2 = { r with filename := filename } := by
  unfold storeName
  split_ifs with hworker
  · exact ⟨_, rfl⟩
  · dsimp only
    cases r.main.bind (·.filename) with
    | none => exact ⟨_, rfl⟩
    | some filename =>
      dsimp only
      split_ifs
      · cases merge filename (aprFilepathNameGet r.uri) with
        | none => exact ⟨_, rfl⟩
        | some merged => exact ⟨_, rfl⟩
      · exact ⟨_, rfl⟩

theorem jkMapToStorage_cases (conf : ServerConf) (merge : Text → Text → Option Text) (r : Request) :
    (∃ filename, (jkMapToStorage conf merge r).2 = { r with filename := filename }) ∨
      (r.worker = none ∧ ∃ uri filename, (jkMapToStorage conf merge r).2 = { r with uri := uri, filename := filename }) ∨
      ∃ clean_uri worker main filename, jkServletNormalize r.uri = .ok clean_uri ∧ Routed conf clean_uri worker ∧
        (jkMapToStorage conf merge r).2 = { mapped r clean_uri worker with main := main, filename := filename } := by
  unfold jkMapToStorage
  split_ifs with hstored hskip
  · exact .inl (storeName_cases merge r)
  · exact .inl ⟨_, rfl⟩
  · rw [not_or, not_not] at hstored
    cases hclean : jkServletNormalize r.uri with
    | badPath => exact .inl ⟨_, rfl⟩
    | traversal => exact .inl ⟨_, rfl⟩
    | ok clean_uri =>
      dsimp only
      cases huw_map : conf.uw_map with
      | none => exact .inl ⟨_, rfl⟩
      | some uw_map =>
        dsimp only
        cases hmap : mapUriToWorker uw_map clean_uri none with
        | some uwr =>
          obtain ⟨filename, hfilename⟩ := storeName_cases merge { mapped r clean_uri uwr.worker_name with
            main := r.main.map fun main => { main with worker := some uwr.worker_name } }
          exact .inr (.inr ⟨clean_uri, _, _, filename, rfl, ⟨uw_map, uwr, huw_map, hmap, rfl⟩, hfilename⟩)
        | none =>
          dsimp only
          split
          · exact .inr (.inl ⟨hstored.2, _, _, rfl⟩)
          · exact .inl (storeName_cases merge r)

theorem mapped_mapped {clean_uri worker : Text} (main : Option MainRequest) (filename : Option Text)
    (hclean : jkServletNormalize r.uri = .ok clean_uri) (hrouted : Routed conf clean_uri worker) :
    Mapped conf { mapped r clean_uri worker with main := main, filename := filename } := by
  refine ⟨fun w hw => ?_, fun orig horig => ?_⟩
  · obtain rfl : worker = w := Option.some.inj hw
    exact ⟨normal_of_normalize hclean, hrouted⟩
  · obtain rfl : r.uri = orig := Option.some.inj horig
    exact ⟨by simp [mapped], hclean⟩

theorem runHook_mapped (hook : Hook) (h : Mapped conf r) : Mapped conf (runHook conf r hook) := by
  cases hook with
  | translate stat =>
    simp only [runHook]
    obtain ⟨filename, hr⟩ | ⟨clean_uri, worker, main, hclean, hrouted, hr⟩ := jkTranslate_cases conf stat r
    · rw [hr]
      exact ⟨h.normal, fun orig horig => absurd horig (by simp)⟩
    · rw [hr]
      exact mapped_mapped main r.filename hclean hrouted
  | mapToStorage merge =>
    simp only [runHook]
    obtain ⟨filename, hr⟩ | ⟨hnone, uri, filename, hr⟩ | ⟨clean_uri, worker, main, filename, hclean, hrouted, hr⟩ :=
      jkMapToStorage_cases conf merge r
    · rw [hr]
      exact ⟨h.normal, h.orig⟩
    · -- a session identifier is only taken out of a path without a worker
      rw [hr]
      refine ⟨fun worker hworker => ?_, fun orig horig => absurd hnone (h.orig orig horig).1⟩
      rw [show r.worker = some worker from hworker] at hnone
      cases hnone
    · rw [hr]
      exact mapped_mapped main filename hclean hrouted
  | other handler filename proxyreq no_jk => exact ⟨h.normal, h.orig⟩

/-- **Every order of hooks.** A request that has a worker has a normal path; the worker is that of a most specific rule for this
path, and no rule takes it away; the path that Apache read had this normal form. -/
theorem hooks_mapped (conf : ServerConf) (r : Request) (hworker : r.worker = none) (horig : r.orig_uri = none) (hooks : List Hook) :
    (∀ worker, (hooks.foldl (runHook conf) r).worker = some worker → Normal (hooks.foldl (runHook conf) r).uri ∧
      ∃ uw_map uwr, conf.uw_map = some uw_map ∧ uwr.worker_name = worker ∧ MostSpecific uw_map (hooks.foldl (runHook conf) r).uri uwr ∧
        ¬ TakenAway uw_map worker (hooks.foldl (runHook conf) r).uri) ∧
    ∀ orig, (hooks.foldl (runHook conf) r).orig_uri = some orig →
      jkServletNormalize orig = .ok (hooks.foldl (runHook conf) r).uri := by
  have hinit : Mapped conf r := ⟨fun worker h => absurd h (by simp [hworker]), fun orig h => absurd h (by simp [horig])⟩
  have hrun : Mapped conf (hooks.foldl (runHook conf) r) := by
    clear hworker horig
    induction hooks generalizing r with
    | nil => exact hinit
    | cons hook hooks ih => exact ih _ (runHook_mapped hook hinit)
  refine ⟨fun worker h => ?_, fun orig h => (hrun.orig orig h).2⟩
  obtain ⟨hnormal, uw_map, uwr, huw_map, hmap, rfl⟩ := hrun.normal worker h
  obtain ⟨-, hchosen, htaken⟩ := (mapUriToWorker_spec uw_map _ none).1 uwr hmap
  simp only [lookups, urlPrefix, if_true, Chosen, and_false, or_false, List.mem_singleton, forall_eq] at hchosen htaken
  exact ⟨hnormal, uw_map, uwr, huw_map, rfl, hchosen, htaken⟩

theorem mapped_story : ([Hook.translate fun _ => .nofile].foldl (runHook rubbosConf) storyRequest).worker = some "worker1".toList ∧
    Normal ([Hook.translate fun _ => .nofile].foldl (runHook rubbosConf) storyRequest).uri := by
  have hclean := normalize_place slashless_story
  rw [place_story, ← uri_storyRequest] at hclean
  obtain ⟨uw_map, uwr, huw_map, hmap, hworker⟩ := (routed_rubbos (named_strip slashless_story place_story)).2 ⟨rfl, by decide, by decide⟩
  have htranslate := jkTranslate_mapped rubbosConf (fun _ => .nofile) storyRequest (by decide) hclean rfl huw_map hmap
  have hrun : ([Hook.translate fun _ => .nofile].foldl (runHook rubbosConf) storyRequest).worker = some "worker1".toList := by
    rw [List.foldl_cons, List.foldl_nil, runHook, htranslate, ← hworker]
    rfl
  exact ⟨hrun, ((hooks_mapped rubbosConf storyRequest rfl rfl _).1 _ hrun).1⟩

/-! ## Files of the alias directory -/

/-- the names of a path, the outermost first -/
def Place.names (p : Place) : List Text := p.dir.reverse ++ if p.file = [] then [] else [p.file]

theorem contextDirs_path {p : Place} (hp : p.Named) {child : Text} (hchild : p.names[1]? = some child) :
    (contextDirs p.path).2 = some child := by
  have htake : ∀ {seg : Text} (t : Text), '/' ∉ seg → (seg ++ '/' :: t).takeWhile (· ≠ '/') = seg ∧
      (seg ++ '/' :: t).dropWhile (· ≠ '/') = '/' :: t := by
    intro seg t hseg
    have hall : ∀ c ∈ seg, decide (c ≠ '/') = true := fun c hc => by simpa using fun h : c = '/' => hseg (h ▸ hc)
    rw [List.takeWhile_append_of_pos hall, List.dropWhile_append_of_pos hall]
    simp
  have hdir : ∀ seg ∈ p.dir.reverse, '/' ∉ seg := fun seg hseg => (hp.dir seg (List.mem_reverse.1 hseg)).2.1
  have hfile : p.file.takeWhile (· ≠ '/') = p.file := by
    rw [List.takeWhile_eq_self_iff]
    exact fun c hc => by simpa using fun h : c = '/' => hp.file.2.1 (h ▸ hc)
  unfold Place.names at hchild
  unfold contextDirs Place.path
  match hrev : p.dir.reverse, hdir with
  | [], _ =>
    rw [hrev] at hchild
    split_ifs at hchild <;> simp at hchild
  | [name], hdir =>
    rw [hrev] at hchild
    have hname : '/' ∉ name := hdir name (by simp)
    simp only [List.tail_cons, pathText_cons, pathText_nil, (htake _ hname).2, hfile]
    split_ifs at hchild with hnone
    · simp at hchild
    · simpa using hchild
  | name :: child' :: names, hdir =>
    rw [hrev] at hchild
    have hname : '/' ∉ name := hdir name (by simp)
    have hchild' : '/' ∉ child' := hdir child' (by simp)
    simp only [List.tail_cons, pathText_cons, (htake _ hname).2, (htake _ hchild').1]
    simpa using hchild

/-- a file that is hidden from the alias directory -/
def isHidden (child : Text) : Bool := strcasecmp child "WEB-INF".toList || strcasecmp child "META-INF".toList

theorem not_hidden_of_autoAlias {alias_dir : Text} {r' : Request} {p : Place} (hp : p.Named)
    (h : autoAlias alias_dir stat r p.path = (.ok, r')) :
    r' = { r with filename := some (alias_dir ++ apOsEscapePath p.path) } ∧
      ∀ child, p.names[1]? = some child → isHidden child = false := by
  unfold autoAlias at h
  dsimp only at h
  split_ifs at h with hroot hhidden hdir hwar
  · cases h
  · cases h
  · cases h
    refine ⟨rfl, fun child hchild => ?_⟩
    rw [contextDirs_path hp hchild] at hhidden
    simpa [isHidden] using hhidden
  · cases h
  · cases h

/-- **What is translated.** A request that is not declined and not refused is for the worker of its normal path, or for the file of
its normal path below the alias directory, and then no rule maps it and the file is not in WEB-INF or META-INF, in any spelling. -/
theorem translate_ok (conf : ServerConf) (stat : Text → Filetype) (r r' : Request) (h : jkTranslate conf stat r = (.ok, r')) :
    (∃ clean_uri worker, jkServletNormalize r.uri = .ok clean_uri ∧ Routed conf clean_uri worker ∧
      r'.uri = clean_uri ∧ r'.worker = some worker ∧ r'.handler = some JK_HANDLER) ∨
    ∃ (alias_dir : Text) (p : Place), conf.alias_dir = some alias_dir ∧ p.Named ∧ jkServletNormalize r.uri = .ok p.path ∧
      (∀ worker, ¬ Routed conf p.path worker) ∧ (∀ child, p.names[1]? = some child → isHidden child = false) ∧
      r' = { r with orig_uri := none, filename := some (alias_dir ++ apOsEscapePath p.path) } := by
  unfold jkTranslate at h
  dsimp only at h
  split_ifs at h with hskip
  · cases h
  · cases hclean : jkServletNormalize r.uri with
    | badPath =>
      rw [hclean] at h
      cases h
    | traversal =>
      rw [hclean] at h
      cases h
    | ok clean_uri =>
      rw [hclean] at h
      dsimp only at h
      split_ifs at h with hlisting
      · cases h
      · cases huw_map : conf.uw_map with
        | none =>
          rw [huw_map] at h
          cases h
        | some uw_map =>
          rw [huw_map] at h
          dsimp only at h
          cases hmap : mapUriToWorker uw_map clean_uri none with
          | some uwr =>
            rw [hmap] at h
            cases h
            exact .inl ⟨clean_uri, uwr.worker_name, rfl, ⟨uw_map, uwr, huw_map, hmap, rfl⟩, rfl, rfl, rfl⟩
          | none =>
            rw [hmap] at h
            dsimp only at h
            cases halias_dir : conf.alias_dir with
            | none =>
              rw [halias_dir] at h
              cases h
            | some alias_dir =>
              rw [halias_dir] at h
              have hrouted : ∀ worker, ¬ Routed conf clean_uri worker := by
                rintro worker ⟨uw_map', uwr, huw_map', hmap', -⟩
                rw [huw_map] at huw_map'
                cases huw_map'
                rw [hmap] at hmap'
                cases hmap'
              obtain rfl | ⟨p, hp, rfl⟩ := normal_of_normalize hclean
              · cases h
              · obtain ⟨hr', hhidden⟩ := not_hidden_of_autoAlias hp h
                exact .inr ⟨alias_dir, p, rfl, hp, rfl, hrouted, hhidden, hr'⟩

theorem translated_story : ∃ clean_uri worker, jkServletNormalize storyRequest.uri = .ok clean_uri ∧ Routed rubbosConf clean_uri worker := by
  have hclean := normalize_place slashless_story
  rw [place_story, ← uri_storyRequest] at hclean
  have hrouted := (routed_rubbos (named_strip slashless_story place_story)).2 ⟨rfl, by decide, by decide⟩
  have hok := (translate_ok_iff (fun _ => .nofile) (show rubbosConf.alias_dir = none from rfl) (by decide) hclean).1.2 ⟨_, hrouted⟩
  obtain ⟨clean_uri, worker, hclean, hrouted, -⟩ | ⟨alias_dir, p, halias_dir, -⟩ := translate_ok _ _ _ _ (Prod.ext hok rfl)
  · exact ⟨clean_uri, worker, hclean, hrouted⟩
  · cases halias_dir

end

end Rubbos.Connector
