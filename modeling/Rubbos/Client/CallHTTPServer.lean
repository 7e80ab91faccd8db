/-
One page request of an emulated user (`UserSession.callHTTPServer`): the page, its images, and the trace line.

What the clock and the server answer during the call is an `Exchange`. The call opens the connection (at most five
attempts), reads the reply, closes, downloads the images named in the reply one by one and prints one line to
System.err. It returns null, and prints nothing, when a connection cannot be opened or a transfer fails. Every image is
requested with the urlID cut out of the page's URL (`imageID`), so that the logs of all tiers can be joined on it.

Results:
- `callHTTPServer_images`: what the image requests are.
- `callHTTPServer_trace`: what a printed line is.
- `image_carries_page_id_iff`: the images carry the page's urlID exactly when the query has no other field (or a comment
  table smuggles the same number in).
Witness `viewStory_images_get_wrong_id`: a story page asks for its images under "/h/edu.rice...?storyId=5".
-/
import Rubbos.Client.URLGenerator

namespace Rubbos.Client

open Rubbos.Core JString

/-! ## Model -/

/-- the answers for one image -/
structure ImageExchange where
  stime : ℤ
  /-- the response code, or an IOException -/
  rc2 : Option ℤ
  etime : ℤ
deriving DecidableEq, Repr

/-- the answers of the clock and of the server during one call -/
structure Exchange where
  stimestamp : ℤ
  stime : ℤ
  /-- attempts to open the connection that ended in an IOException -/
  failures : ℕ
  conTime : ℤ
  /-- the page, or an IOException while reading it -/
  reply : Option Text
  /-- the response code, or an IOException while closing -/
  rc1 : Option ℤ
  closeTime : ℤ
  image : ℕ → ImageExchange
  etime : ℤ

/-- what a call does -/
structure Answer where
  reply : Option Text
  /-- the URLs of the images requested, in order -/
  images : List Text
  /-- the line printed to System.err -/
  trace : Option Text
deriving DecidableEq, Repr

def urlIDKey : Text := ['?', 'u', 'r', 'l', 'I', 'D', '=']

/-- the urlID cut out of the page's URL for its images -/
def imageID (url : Text) : Except Exc Text :=
  let urlIndex := indexOf url urlIDKey + 7
  let urlEndIndex := indexOfFrom url ['&'] urlIndex
  if urlEndIndex = -1 then substringFrom url urlIndex else substring url urlIndex urlEndIndex

/-- the loop that looks for images, from the index of an image tag on -/
def scanImages (html : Text) : (fuel : ℕ) → (index : ℤ) → Except Exc (List Text)
  | 0, _ => .error .outOfFuel
  | fuel + 1, index => do
    if index = -1 then return []
    let startQuote := index + 10
    let endQuote := indexOfFrom html ['"'] (startQuote + 1)
    let name ← substring html startQuote endQuote
    let rest ← scanImages html fuel (indexOfFrom html "<IMG SRC=\"".toList endQuote)
    return name :: rest

/-- the images of a page: each tag is found behind the one before, so there are no more than characters -/
def images (html : Text) : Except Exc (List Text) :=
  scanImages html (html.length + 1) (indexOf html "<IMG SRC=\"".toList)

/-- the literals of the trace line -/
def requestText : Text := "Request".toList
def sTimeStampText : Text := "STimeStamp(ms)".toList
def getConSTText : Text := "GetConST(nano)=".toList
def getConETText : Text := "GetConET(nano)=".toList
def rc1Text : Text := ",rc1:".toList
def closeConText : Text := "CloseCon(nano)=".toList
def ldImageSTText : Text := "LDImageST(nano)=".toList
def rc2Text : Text := ",rc2:".toList
def ldImageETText : Text := "LDImageET(nano)=".toList
def etText : Text := "ET(nano)=".toList
def rtText : Text := "RT(us)=".toList

/-- the end of opening the connection, with the response code glued to it -/
def conWord (x : Exchange) : Text :=
  getConETText ++ (longText x.conTime ++
    (match x.rc1 with
      | some rc => rc1Text ++ longText rc
      | none => []))

/-- the trace line up to the images -/
def traceHead (url : Text) (x : Exchange) : Text :=
  requestText ++ ' ' :: (':' :: url ++ ' ' :: (sTimeStampText ++ (longText x.stimestamp ++
    ' ' :: (getConSTText ++ (longText x.stime ++ ' ' :: (conWord x ++ ' ' :: (closeConText ++ longText x.closeTime)))))))

/-- what one image adds to the trace line -/
def traceImage (stime rc2 etime : ℤ) : Text :=
  ' ' :: (ldImageSTText ++ (longText stime ++ (rc2Text ++ (longText rc2 ++ ' ' :: (ldImageETText ++ longText etime)))))

/-- the end of the trace line -/
def traceTail (x : Exchange) : Text :=
  ' ' :: (etText ++ (longText x.etime ++ ' ' :: (rtText ++ longText ((wrapLong (x.etime - x.stime)).tdiv 1000))))

/-- download the images from the n-th on: the URLs requested and, if none of them fails, the text added to the trace -/
def download (g : URLGenerator) (id : Text) (x : Exchange) : ℕ → List Text → List Text × Option Text
  | _, [] => ([], some [])
  | n, name :: names =>
    let imageURL := g.genericHTMLFile (name ++ urlIDKey ++ id)
    match (x.image n).rc2 with
    | none => ([imageURL], none)
    | some rc2 =>
      let rest := download g id x (n + 1) names
      (imageURL :: rest.1, rest.2.map (traceImage (x.image n).stime rc2 (x.image n).etime ++ ·))

def callHTTPServer (g : URLGenerator) (url : Text) (x : Exchange) : Except Exc Answer := do
  let id ← imageID url
  -- an interrupt during the pause after a failed attempt ends the call like the fifth failure
  if 5 ≤ x.failures then return ⟨none, [], none⟩
  match x.reply with
  | none => return ⟨none, [], none⟩
  | some html =>
    let names ← images html
    match download g id x 0 names with
    | (urls, none) => return ⟨none, urls, none⟩
    | (urls, some msg) => return ⟨some html, urls, some (traceHead url x ++ msg ++ traceTail x)⟩

/-! ## The urlID of the images -/

theorem imageID_of_amp {url a w r : Text} (hu : url = a ++ urlIDKey ++ (w ++ '&' :: r))
    (hf : find urlIDKey url = some a.length) (hw : '&' ∉ w) : imageID url = .ok w := by
  have hlen : (a ++ urlIDKey).length = a.length + 7 := by simp [urlIDKey]
  have hdrop : url.drop (a.length + 7) = w ++ '&' :: r := by
    rw [hu, ← hlen, List.drop_left]
  have hend : indexOfFrom url ['&'] ((a.length : ℤ) + 7) = (a.length + 7 : ℕ) + w.length := by
    have := indexOfFrom_char hdrop hw
    exact_mod_cast this
  have hne : ((a.length + 7 : ℕ) : ℤ) + w.length ≠ -1 := by omega
  simp only [imageID, indexOf_of_find hf, hend, if_neg hne]
  rw [hu]
  exact substring_append (by rw [hlen]; push_cast; ring) (by rw [hlen])

theorem imageID_of_end {url a w : Text} (hu : url = a ++ urlIDKey ++ w)
    (hf : find urlIDKey url = some a.length) (hw : '&' ∉ w) : imageID url = .ok w := by
  have hlen : (a ++ urlIDKey).length = a.length + 7 := by simp [urlIDKey]
  have hdrop : url.drop (a.length + 7) = w := by
    rw [hu, ← hlen, List.drop_left]
  have hend : indexOfFrom url ['&'] ((a.length : ℤ) + 7) = -1 := by
    have := indexOfFrom_char_none (c := '&') (hdrop ▸ hw : '&' ∉ url.drop (a.length + 7))
    exact_mod_cast this
  simp only [imageID, indexOf_of_find hf, hend, if_true, substringFrom]
  have := substring_append (a := a ++ urlIDKey) (w := w) (b := []) (i := (a.length : ℤ) + 7) (j := url.length)
    (by rw [hlen]; push_cast; ring) (by rw [hu, List.length_append]; push_cast; ring)
  rw [List.append_nil, ← hu] at this
  exact this

/-- without the key the index is 6, the second slash of "http://" -/
theorem imageID_of_missing {url r : Text} (hu : url = ['h', 't', 't', 'p', ':', '/'] ++ '/' :: r)
    (hf : ¬ urlIDKey <:+: url) : ∃ w, imageID url = .ok ('/' :: w) := by
  have hidx : indexOf url urlIDKey + 7 = (6 : ℕ) := by
    rw [indexOf_eq_neg_one.2 hf]
    norm_num
  have hdrop : url.drop 6 = '/' :: r := by
    rw [hu]
    rfl
  simp only [imageID, hidx]
  by_cases hr : '&' ∈ r
  · obtain ⟨r₁, r₂, rfl, hr₁⟩ := List.eq_append_cons_of_mem hr
    have hend : indexOfFrom url ['&'] (6 : ℕ) = (6 : ℕ) + ('/' :: r₁).length :=
      indexOfFrom_char (b := r₂) (by rw [hdrop]; rfl) (by simp [hr₁])
    have hne : ((6 : ℕ) : ℤ) + ('/' :: r₁).length ≠ -1 := by omega
    rw [hend, if_neg hne, hu]
    exact ⟨r₁, substring_append (a := ['h', 't', 't', 'p', ':', '/']) (w := '/' :: r₁) (b := '&' :: r₂) rfl rfl⟩
  · have hend : indexOfFrom url ['&'] (6 : ℕ) = -1 :=
      indexOfFrom_char_none (by rw [hdrop]; simp [hr])
    rw [hend, if_pos rfl, substringFrom]
    have := substring_append (a := ['h', 't', 't', 'p', ':', '/']) (w := '/' :: r) (b := []) (i := (6 : ℕ))
      (j := url.length) rfl (by rw [hu]; simp; ring)
    rw [List.append_nil, ← hu] at this
    exact ⟨r, this⟩

/-- the urlID that a comment table written as it is brings into the query -/
def Page.tableID (p : Page) : Option Text :=
  p.rawTable.bind fun t => (find urlIDKey t).map fun i => (t.drop (i + 7)).takeWhile (· ≠ '&')

variable (g : URLGenerator) (p : Page) (nanoTime : ℤ)

/-- the first "?urlID=" of the URL, if there are other fields in the query -/
theorem find_urlIDKey_url (hp : p.fields ≠ []) :
    find urlIDKey (g.url p nanoTime) =
      (find urlIDKey (g.query (longText nanoTime) p.fields)).map (· + ((g.base p).length + 1)) := by
  rw [g.url_eq]
  exact find_cons_skip (g.notMem_base p (by decide)) (g.not_urlID_prefix_query hp)

theorem mark_notMem_query {id : Text} {fs : List (Field × Value)} (hfs : URLGenerator.NoRaw fs) (hid : '?' ∉ id) :
    '?' ∉ g.query id fs :=
  g.notMem_query (g.notMem_value hfs (by decide)) hid (by decide) (by decide)

theorem mark_notMem_longText (n : ℤ) : '?' ∉ longText n := notMem_longText (by decide)

/-- in the query the key is found where the comment table has it -/
theorem find_urlIDKey_query_raw {t id : Text} {l₁ l₂ : List (Field × Value)} {f : Field} (h₁ : URLGenerator.NoRaw l₁)
    (h₂ : URLGenerator.NoRaw l₂) (hid : '?' ∉ id) :
    ∃ a b, g.query id (l₁ ++ (f, .raw t) :: l₂) = a ++ (t ++ '&' :: b) ∧
      find urlIDKey (g.query id (l₁ ++ (f, .raw t) :: l₂)) = (find urlIDKey t).map (· + a.length) := by
  obtain ⟨a, ha, hq⟩ := g.query_split id l₂ (f := f) (v := .raw t) h₁
  refine ⟨a, g.query id l₂, hq, ?_⟩
  have hskip : find urlIDKey (a ++ (t ++ '&' :: g.query id l₂)) =
      (find urlIDKey (t ++ '&' :: g.query id l₂)).map (· + a.length) := find_append (no_start_cons ha)
  rw [hq, URLGenerator.value, hskip]
  congr 1
  cases ht : find urlIDKey t with
  | some i => exact find_append_left ht
  | none =>
    have hb : ¬ urlIDKey <:+: g.query id l₂ := not_infix_of_mem (by decide) (mark_notMem_query g h₂ hid)
    rw [find_skip (by decide) (find_eq_none.1 ht), find_eq_none.2 hb]
    rfl

/-- the images of a page whose query is urlID alone get that urlID -/
theorem imageID_url_only (hp : p.fields = []) : imageID (g.url p nanoTime) = .ok (longText nanoTime) := by
  have hu : g.url p nanoTime = g.base p ++ urlIDKey ++ longText nanoTime := by
    rw [g.url_eq, hp]
    simp [URLGenerator.query, urlIDKey, urlID]
  refine imageID_of_end hu ?_ (notMem_longText (by decide))
  rw [hu, List.append_assoc]
  exact find_cons_here (g.notMem_base p (by decide)) (List.prefix_append _ _)

/-- the images of any other page get what a comment table brings in, or a text that begins with a slash -/
theorem imageID_url_fields (hp : p.fields ≠ []) :
    match p.tableID with
    | some w => imageID (g.url p nanoTime) = .ok w
    | none => ∃ w, imageID (g.url p nanoTime) = .ok ('/' :: w) := by
  have hmissing : find urlIDKey (g.url p nanoTime) = none → ∃ w, imageID (g.url p nanoTime) = .ok ('/' :: w) := by
    intro h
    refine imageID_of_missing (r := g.authority ++ (g.path p ++ '?' :: g.query (longText nanoTime) p.fields)) ?_
      (find_eq_none.1 h)
    simp [URLGenerator.url, URLGenerator.newURL]
  have hsplit := p.fields_split
  unfold Page.tableID
  cases ht : p.rawTable with
  | none =>
    rw [ht] at hsplit
    apply hmissing
    rw [find_urlIDKey_url g p nanoTime hp, find_eq_none.2]
    · rfl
    · exact not_infix_of_mem (by decide) (mark_notMem_query g hsplit (mark_notMem_longText nanoTime))
  | some t =>
    rw [ht] at hsplit
    obtain ⟨l₁, l₂, hfs, h₁, h₂⟩ := hsplit
    obtain ⟨a, b, hq, hfq⟩ := find_urlIDKey_query_raw g (f := .comment_table) (t := t) h₁ h₂ (mark_notMem_longText nanoTime)
    have hfu := find_urlIDKey_url g p nanoTime hp
    rw [hfs, hfq] at hfu
    cases hi : find urlIDKey t with
    | none =>
      have hnone : find urlIDKey (g.url p nanoTime) = none := by rw [hfu, hi]; rfl
      simpa only [Option.bind_some, hi, Option.map_none] using hmissing hnone
    | some i =>
      simp only [Option.bind_some, hi, Option.map_some]
      -- t is a piece before the key, the key, and a text r that the id is cut from
      obtain ⟨hlen, ⟨r, hr⟩, -⟩ := find_eq_some hi
      have hr7 : t.drop (i + 7) = r := by
        rw [← List.drop_drop, ← hr]
        rfl
      obtain ⟨rest, hrest⟩ := append_cons_eq_takeWhile '&' r b
      have hu : g.url p nanoTime = (g.base p ++ '?' :: (a ++ t.take i)) ++ urlIDKey ++
          (r.takeWhile (· ≠ '&') ++ '&' :: rest) := by
        calc g.url p nanoTime = g.base p ++ '?' :: (a ++ (t ++ '&' :: b)) := by rw [g.url_eq, hfs, hq]
          _ = g.base p ++ '?' :: (a ++ ((t.take i ++ (urlIDKey ++ r)) ++ '&' :: b)) := by
            rw [hr, List.take_append_drop]
          _ = (g.base p ++ '?' :: (a ++ t.take i)) ++ urlIDKey ++ (r ++ '&' :: b) := by simp
          _ = _ := by rw [hrest]
      rw [hr7]
      refine imageID_of_amp hu ?_ (notMem_takeWhile_ne '&' r)
      rw [hfu, hi]
      simp only [Option.map_some, Option.some.injEq, List.length_append, List.length_cons, List.length_take]
      omega

theorem imageID_url_iff :
    ∃ id, imageID (g.url p nanoTime) = .ok id ∧
      (id = longText nanoTime ↔ p.fields = [] ∨ p.tableID = some (longText nanoTime)) := by
  by_cases hp : p.fields = []
  · exact ⟨_, imageID_url_only g p nanoTime hp, by simp [hp]⟩
  · have h := imageID_url_fields g p nanoTime hp
    cases ht : p.tableID with
    | some w =>
      rw [ht] at h
      exact ⟨w, h, by simp [hp]⟩
    | none =>
      rw [ht] at h
      obtain ⟨w, h⟩ := h
      refine ⟨_, h, ?_⟩
      have hne : ('/' :: w) ≠ longText nanoTime := by
        intro he
        have : '/' ∈ longText nanoTime := he ▸ List.mem_cons_self
        exact notMem_longText (by decide) this
      simp [hp, hne]

/-! ## What a call does -/

variable {g} {url : Text} {x : Exchange} {r : Answer}

theorem download_images {id : Text} {n : ℕ} {names : List Text} :
    ∀ u ∈ (download g id x n names).1, ∃ name ∈ names, u = g.genericHTMLFile (name ++ urlIDKey ++ id) := by
  induction names generalizing n with
  | nil => simp [download]
  | cons name names ih =>
    intro u hu
    simp only [download] at hu
    split at hu
    · simp only [List.mem_singleton] at hu
      exact ⟨name, List.mem_cons_self, hu⟩
    · rcases List.mem_cons.1 hu with hu | hu
      · exact ⟨name, List.mem_cons_self, hu⟩
      · obtain ⟨name', hn, h⟩ := ih u hu
        exact ⟨name', List.mem_cons_of_mem _ hn, h⟩

/-- what the images add to the trace -/
theorem download_trace {id : Text} {n : ℕ} {names : List Text} {msg : Text} (h : (download g id x n names).2 = some msg) :
    ∃ imgs : List (ℤ × ℤ × ℤ), msg = imgs.flatMap fun i => traceImage i.1 i.2.1 i.2.2 := by
  induction names generalizing n msg with
  | nil =>
    simp only [download, Option.some.injEq] at h
    exact ⟨[], by simp [← h]⟩
  | cons name names ih =>
    simp only [download] at h
    split at h
    · cases h
    · simp only [Option.map_eq_some_iff] at h
      obtain ⟨rest, hrest, rfl⟩ := h
      obtain ⟨imgs, rfl⟩ := ih hrest
      exact ⟨(_, _, _) :: imgs, rfl⟩

/-- everything a call that does not throw can do -/
theorem callHTTPServer_cases (h : callHTTPServer g url x = .ok r) :
    ∃ id, imageID url = .ok id ∧
      (r = ⟨none, [], none⟩ ∨
        ∃ html names, x.reply = some html ∧ images html = .ok names ∧ r.images = (download g id x 0 names).1 ∧
          r.trace = (download g id x 0 names).2.map fun msg => traceHead url x ++ msg ++ traceTail x) := by
  simp only [callHTTPServer, bind, Except.bind, pure, Except.pure] at h
  cases hid : imageID url with
  | error e => simp [hid] at h
  | ok id =>
    refine ⟨id, rfl, ?_⟩
    simp only [hid] at h
    split_ifs at h
    · cases h
      exact Or.inl rfl
    · cases hr : x.reply with
      | none =>
        simp only [hr, Except.ok.injEq] at h
        exact Or.inl h.symm
      | some html =>
        simp only [hr] at h
        cases hn : images html with
        | error e => simp [hn] at h
        | ok names =>
          simp only [hn] at h
          refine Or.inr ⟨html, names, rfl, hn, ?_⟩
          cases hd : download g id x 0 names with
          | mk urls msg =>
            cases msg <;> simp only [hd, Except.ok.injEq] at h <;> subst h <;> simp

/-- every image is requested with the urlID cut out of the page's URL -/
theorem callHTTPServer_images (h : callHTTPServer g url x = .ok r) {id : Text} (hid : imageID url = .ok id) :
    ∀ u ∈ r.images, ∃ name, u = g.genericHTMLFile (name ++ urlIDKey ++ id) := by
  obtain ⟨id', hid', h⟩ := callHTTPServer_cases h
  cases hid.symm.trans hid'
  rcases h with rfl | ⟨html, names, -, -, hi, -⟩
  · simp
  · intro u hu
    rw [hi] at hu
    obtain ⟨name, -, h⟩ := download_images u hu
    exact ⟨name, h⟩

/-- a printed line: the page, any number of images, the end -/
theorem callHTTPServer_trace (h : callHTTPServer g url x = .ok r) {line : Text} (hl : r.trace = some line) :
    ∃ imgs : List (ℤ × ℤ × ℤ),
      line = traceHead url x ++ (imgs.flatMap fun i => traceImage i.1 i.2.1 i.2.2) ++ traceTail x := by
  obtain ⟨id, -, h⟩ := callHTTPServer_cases h
  rcases h with rfl | ⟨html, names, -, -, -, ht⟩
  · cases hl
  · rw [ht, Option.map_eq_some_iff] at hl
    obtain ⟨msg, hmsg, rfl⟩ := hl
    obtain ⟨imgs, rfl⟩ := download_trace hmsg
    exact ⟨imgs, rfl⟩

/-- **The images carry the page's urlID** exactly when the query holds nothing but urlID, or when a comment table written
as it is contains "?urlID=" followed by the same number. `id` is what the call appends to every image request. -/
theorem image_carries_page_id_iff (g : URLGenerator) (p : Page) (nanoTime : ℤ) :
    ∃ id, imageID (g.url p nanoTime) = .ok id ∧
      (∀ x r, callHTTPServer g (g.url p nanoTime) x = .ok r →
        ∀ u ∈ r.images, ∃ name, u = g.genericHTMLFile (name ++ urlIDKey ++ id)) ∧
      (id = longText nanoTime ↔ p.fields = [] ∨ p.tableID = some (longText nanoTime)) := by
  obtain ⟨id, hid, hiff⟩ := imageID_url_iff g p nanoTime
  refine ⟨id, hid, ?_, hiff⟩
  intro x r h
  exact callHTTPServer_images h hid

/-- a small site -/
def site : URLGenerator where
  version := .servlets
  webSiteName := ['h']
  webSitePort := -1
  HTMLPath := []
  scriptPath := []
  charset := fun s => s.map fun c => c.toNat.toUInt8
  host_ne := by decide
  port_valid := by decide
  host_chars := by decide
  html_chars := by decide
  script_chars := by decide

/-- a page with one image, everything answered at once -/
def oneImage : Exchange where
  stimestamp := 1000
  stime := 11
  failures := 0
  conTime := 12
  reply := some "<IMG SRC=\"/a\">".toList
  rc1 := some 200
  closeTime := 13
  image := fun _ => ⟨14, some 404, 15⟩
  etime := 16

/-- the image of story 5, requested at time 7, goes out with a piece of the page's address for its urlID -/
theorem viewStory_images_get_wrong_id :
    ∃ r, callHTTPServer site (site.url (.viewStory 5) 7) oneImage = .ok r ∧
      r.images = ["http://h/a?urlID=/h/edu.rice.rubbos.servlets.ViewStory?storyId=5".toList] ∧
      ¬ ∃ name, "http://h/a?urlID=/h/edu.rice.rubbos.servlets.ViewStory?storyId=5".toList =
        site.genericHTMLFile (name ++ urlIDKey ++ longText 7) := by
  refine ⟨_, rfl, by decide +kernel, ?_⟩
  rintro ⟨name, h⟩
  have h7 : site.genericHTMLFile (name ++ urlIDKey ++ longText 7) =
      ['h', 't', 't', 'p', ':', '/', '/'] ++ (site.authority ++ (name ++ urlIDKey)) ++ ['7'] := by
    simp [URLGenerator.genericHTMLFile, URLGenerator.newURL, show longText 7 = ['7'] by decide]
  have hlast := congrArg List.getLast? (h.trans h7)
  rw [List.getLast?_concat] at hlast
  revert hlast
  decide +kernel

end Rubbos.Client
