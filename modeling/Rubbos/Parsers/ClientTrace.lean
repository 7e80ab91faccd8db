/-
The client's trace line, written by `UserSession.callHTTPServer` and read by `Clientparser`.

The line is a row of words separated by single blanks: "Request", the URL behind a ':', the time stamp, the connection's
start and end, the close, two words for every image, the end time and the response time. Blanks do not occur in a URL,
and the keys of the parser are found word by word: "urlID=" only at the end of the query (values are encoded, so no '='
in them), "STimeStamp(ms)" and "GetConST(nano)=" because no URL has a '(', and " ET(nano)=" because of its blank, which
keeps it from matching "GetConET(nano)=" and "LDImageET(nano)=".

- `trace_round_trip`: for every page of the servlet version, every exchange and every printed line that fits the
  parser's buffer, the parser accepts the line and reads back the urlID, the three times and the category.
-/
import Rubbos.Client.CallHTTPServer
import Rubbos.Parsers.Clientparser

namespace Rubbos.Parsers.Clientparser

open Rubbos.Core CLib Rubbos.Client

/-! ## Characters of the words -/

/-- the literals of the line have no white space -/
theorem literals_chars : ∀ c ∈ [' ', '\n'],
    (c ∉ requestText ∧ c ∉ sTimeStampText ∧ c ∉ getConSTText ∧ c ∉ getConETText ∧ c ∉ rc1Text ∧ c ∉ closeConText) ∧
      c ∉ ldImageSTText ∧ c ∉ rc2Text ∧ c ∉ ldImageETText ∧ c ∉ etText ∧ c ∉ rtText := by
  decide

variable {c : Char}

theorem space_notMem_longText (hc : c ∈ [' ', '\n']) (n : ℤ) : c ∉ longText n :=
  notMem_longText (by revert c; decide)

theorem space_notMem_conWord (hc : c ∈ [' ', '\n']) (x : Exchange) : c ∉ conWord x := by
  obtain ⟨⟨-, -, -, hcon, hrc, -⟩, -⟩ := literals_chars c hc
  unfold conWord
  cases x.rc1 with
  | none => simp [hcon, space_notMem_longText hc]
  | some rc => simp [hcon, hrc, space_notMem_longText hc]

/-! ## The end time -/

theorem etKey_eq : etKey = ' ' :: etText := rfl

/-- a word that begins with another letter does not begin with the key of the end time -/
theorem not_etText_starts {w : Text} (hw : w.head?.any (· ≠ 'E') = true) (v : Text) : ¬ etText <+: w ++ v := by
  have he : etText = 'E' :: etText.tail := rfl
  cases w with
  | nil => cases hw
  | cons c w =>
    rw [he, List.cons_append, List.cons_prefix_cons]
    rintro ⟨rfl, -⟩
    cases hw

/-- the words of the images are passed over, the word of the end time is found -/
theorem strstr_et_images {a tail : Text} (ha : ' ' ∉ a) (imgs : List (ℤ × ℤ × ℤ)) :
    strstr etKey (a ++ ((imgs.flatMap fun i => traceImage i.1 i.2.1 i.2.2) ++ (etKey ++ tail))) = some (etKey ++ tail) := by
  induction imgs generalizing a with
  | nil =>
    simp only [List.flatMap_nil, List.nil_append, etKey_eq, List.cons_append]
    exact strstr_cons_here ha (List.prefix_append _ _)
  | cons i imgs ih =>
    obtain ⟨st, rc, et⟩ := i
    obtain ⟨-, hld, hrc, hle, -⟩ := literals_chars ' ' (by decide)
    have hnum : ∀ n, ' ' ∉ longText n := space_notMem_longText (by decide)
    have hst : ' ' ∉ ldImageSTText ++ (longText st ++ (rc2Text ++ longText rc)) := by
      simp [hld, hrc, hnum]
    have het : ' ' ∉ ldImageETText ++ longText et := by
      simp [hle, hnum]
    have hline : a ++ (((st, rc, et) :: imgs).flatMap (fun i => traceImage i.1 i.2.1 i.2.2) ++ (etKey ++ tail)) =
        a ++ ' ' :: ((ldImageSTText ++ (longText st ++ (rc2Text ++ longText rc))) ++
          ' ' :: ((ldImageETText ++ longText et) ++
            ((imgs.flatMap fun i => traceImage i.1 i.2.1 i.2.2) ++ (etKey ++ tail)))) := by
      simp only [List.flatMap_cons, traceImage, List.append_assoc, List.cons_append]
    rw [hline, etKey_eq, strstr_cons_skip ha, strstr_cons_skip hst]
    · exact ih het
    · rw [List.append_assoc]
      exact not_etText_starts rfl _
    · rw [List.append_assoc]
      exact not_etText_starts rfl _

/-! ## A printed line -/

section Line

variable (url : Text) (x : Exchange) (imgs : List (ℤ × ℤ × ℤ)) (nl : Text)

def imageWords (imgs : List (ℤ × ℤ × ℤ)) : Text := imgs.flatMap fun i => traceImage i.1 i.2.1 i.2.2

/-- the line from the end of opening the connection on -/
def lastWords : Text :=
  conWord x ++ ' ' :: ((closeConText ++ longText x.closeTime) ++ (imageWords imgs ++ (etKey ++ (longText x.etime ++
    ' ' :: (rtText ++ (longText ((JString.wrapLong (x.etime - x.stime)).tdiv 1000) ++ nl))))))

theorem line_words :
    traceHead url x ++ imageWords imgs ++ traceTail x ++ nl =
      requestText ++ ' ' :: ((':' :: url) ++ ' ' :: (timeStampKey ++ (longText x.stimestamp ++ ' ' ::
        (stKey ++ (longText x.stime ++ ' ' :: lastWords x imgs nl))))) := by
  have hts : timeStampKey = sTimeStampText := rfl
  have hst : stKey = getConSTText := rfl
  simp only [traceHead, traceTail, hts, hst, etKey_eq, lastWords, List.append_assoc, List.cons_append]

theorem newline_notMem_line (hurl : '\n' ∉ url) : '\n' ∉ traceHead url x ++ imageWords imgs ++ traceTail x := by
  have hc : '\n' ∈ [' ', '\n'] := by decide
  obtain ⟨⟨hreq, hts, hst, -, -, hclose⟩, hld, hrc, hle, het, hrt⟩ := literals_chars '\n' hc
  have hnum : ∀ n, '\n' ∉ longText n := space_notMem_longText hc
  have himgs : '\n' ∉ imageWords imgs := by
    simp only [imageWords, List.mem_flatMap, not_exists, not_and]
    intro i _
    simp [traceImage, hld, hrc, hle, hnum]
  simp [traceHead, traceTail, himgs, hreq, hts, hst, hclose, het, hrt, hnum, hurl, space_notMem_conWord hc]

end Line

/-! ## Reading the line back -/

section Read

variable {g : URLGenerator} {p : Page} (hp : p.OrdinaryTable) (n : ℤ) (x : Exchange) (imgs : List (ℤ × ℤ × ℤ)) (nl : Text)

/-- what `fgets` leaves of the line in the parser's buffer, with or without the line end -/
def lineOf (g : URLGenerator) (p : Page) : Text :=
  traceHead (g.url p n) x ++ imageWords imgs ++ traceTail x ++ nl

theorem checkRequest_line : checkRequest (lineOf n x imgs nl g p) = true := by
  have hkey : requestKey = requestText ++ [' ', ':'] := by decide
  have hpre : requestKey <+: lineOf n x imgs nl g p := by
    rw [lineOf, line_words, hkey]
    exact ⟨_, by simp only [List.append_assoc, List.cons_append, List.nil_append]; rfl⟩
  simp [checkRequest, find_of_prefix hpre]

include hp

theorem getID_line (hn : 0 ≤ n) (hlong : IsLong n) : getID (lineOf n x imgs nl g p) = some (longText n) := by
  have hmark : urlIDMark = urlID ++ ['='] := rfl
  have hreq : '=' ∉ requestText := by decide
  have hfound : ∃ tail, strstr urlIDMark (lineOf n x imgs nl g p) = some (urlIDMark ++ (longText n ++ ' ' :: tail)) := by
    rw [lineOf, line_words, hmark, strstr_skip (by decide) (not_infix_of_mem (show '=' ∈ urlID ++ ['='] by decide) hreq)]
    exact ⟨_, g.strstr_urlID_url hp n [':'] (by decide)⟩
  obtain ⟨tail, hfound⟩ := hfound
  have hlen : (longText n).length < max_id_length := by
    have := length_longText_le_of_nonneg hlong hn
    simp only [max_id_length]
    omega
  exact getID_found hfound (fun c hc => isSpace_of_mem_longText hc) hlen (by simp)

/-- a key with '(' is not found in the URL -/
theorem strstr_behind_url {key : Text} (hblank : ' ' ∉ key) (hparen : '(' ∈ key) :
    strstr key (lineOf n x imgs nl g p) = strstr key (timeStampKey ++ (longText x.stimestamp ++ ' ' ::
      (stKey ++ (longText x.stime ++ ' ' :: lastWords x imgs nl)))) := by
  have hreq : '(' ∉ requestText := by decide
  have hurl : '(' ∉ ':' :: g.url p n := by
    simp [g.notMem_url hp n (show '(' ∈ reserved by decide) (by decide) (by decide)]
  rw [lineOf, line_words, strstr_skip hblank (not_infix_of_mem hparen hreq),
    strstr_skip hblank (not_infix_of_mem hparen hurl)]

theorem getTimeStamp_line (ht : IsLong x.stimestamp) (b : TimeBuf) :
    ∃ b', getTimeStamp (lineOf n x imgs nl g p) b = some (true, b') ∧ cstr b' = some (longText x.stimestamp) := by
  refine getField_time (stKey ++ (longText x.stime ++ ' ' :: lastWords x imgs nl)) ht ?_ b
  rw [strstr_behind_url hp n x imgs nl (by decide) (by decide)]
  exact strstr_of_prefix (List.prefix_append _ _)

theorem getST_line (ht : IsLong x.stime) (b : TimeBuf) :
    ∃ b', getST (lineOf n x imgs nl g p) b = some (true, b') ∧ cstr b' = some (longText x.stime) := by
  have hblank : ' ' ∉ stKey := by decide
  have hts : '=' ∉ timeStampKey ++ longText x.stimestamp := by
    have hkey : '=' ∉ timeStampKey := by decide
    have hnum : '=' ∉ longText x.stimestamp := notMem_longText (by decide)
    simp [hkey, hnum]
  refine getField_time (lastWords x imgs nl) ht ?_ b
  rw [strstr_behind_url hp n x imgs nl hblank (by decide), ← List.append_assoc timeStampKey,
    strstr_skip hblank (not_infix_of_mem (show '=' ∈ stKey by decide) hts)]
  exact strstr_of_prefix (List.prefix_append _ _)

theorem getET_line (ht : IsLong x.etime) (b : TimeBuf) :
    ∃ b', getET (lineOf n x imgs nl g p) b = some (true, b') ∧ cstr b' = some (longText x.etime) := by
  have hblank : ' ' ∈ [' ', '\n'] := by decide
  obtain ⟨⟨hreq, hts, hst, -, -, hclose⟩, -⟩ := literals_chars ' ' hblank
  have hnum : ∀ m, ' ' ∉ longText m := space_notMem_longText hblank
  have hurl : ' ' ∉ ':' :: g.url p n := by
    simp [g.notMem_url hp n (show ' ' ∈ reserved by decide) (by decide) (by decide)]
  have hts' : ' ' ∉ timeStampKey ++ longText x.stimestamp := by
    simp [show timeStampKey = sTimeStampText from rfl, hts, hnum]
  have hst' : ' ' ∉ stKey ++ longText x.stime := by
    simp [show stKey = getConSTText from rfl, hst, hnum]
  have hclose' : ' ' ∉ closeConText ++ longText x.closeTime := by
    simp [hclose, hnum]
  -- none of the words up to the images begins with the key
  have hcon : ∀ w, ¬ etText <+: conWord x ++ w := by
    intro w
    rw [conWord, List.append_assoc]
    exact not_etText_starts rfl _
  have hC : ∀ w, ¬ etText <+: (closeConText ++ longText x.closeTime) ++ w := by
    intro w
    rw [List.append_assoc]
    exact not_etText_starts rfl _
  refine getField_time (rtText ++ (longText ((JString.wrapLong (x.etime - x.stime)).tdiv 1000) ++ nl)) ht ?_ b
  rw [lineOf, line_words, lastWords, etKey_eq, strstr_cons_skip hreq (not_etText_starts rfl _),
    strstr_cons_skip hurl (not_etText_starts rfl _), ← List.append_assoc timeStampKey,
    strstr_cons_skip hts' (not_etText_starts rfl _), ← List.append_assoc stKey,
    strstr_cons_skip hst' (hcon _), strstr_cons_skip (space_notMem_conWord hblank x) (hC _)]
  exact strstr_et_images hclose' imgs

omit hp in
theorem getCategory_line (hg : g.version = .servlets) : getCategory (lineOf n x imgs nl g p) = some p.category := by
  obtain ⟨a, ha⟩ := g.base_category hg p
  have hbase : '?' ∉ g.base p := g.notMem_base p (by decide)
  have ha' : '?' ∉ requestText ++ ' ' :: ':' :: a := by
    have hreq : '?' ∉ requestText := by decide
    rw [ha] at hbase
    simp only [List.mem_append, not_or] at hbase
    simp [hreq, hbase.1]
  have hline : ∃ b, lineOf n x imgs nl g p = (requestText ++ ' ' :: ':' :: a) ++ '.' :: p.category ++ '?' :: b := by
    rw [lineOf, line_words, g.url_eq, ha]
    exact ⟨_, by simp only [List.append_assoc, List.cons_append]; rfl⟩
  obtain ⟨b, hline⟩ := hline
  rw [hline]
  exact getCategory_found ha' (URLGenerator.notMem_category (by decide) p) (URLGenerator.notMem_category (by decide) p)
    (URLGenerator.category_chars p).2

end Read

/-- a line shorter than the buffer is read as a whole, at most without its line end -/
theorem fgets_trace {line : Text} (rest : Text) (hnl : '\n' ∉ line) (hlen : line.length < max_line_length) :
    ∃ nl, (fgets (max_line_length - 1) (line ++ '\n' :: rest)).1 = line ++ nl := by
  by_cases hfull : line.length = max_line_length - 1
  · refine ⟨[], ?_⟩
    rw [fgets_cut hnl, if_neg (by omega), List.append_nil]
    exact List.take_of_length_le hfull.le
  · refine ⟨['\n'], ?_⟩
    rw [fgets_line hnl (by omega)]

/-- **Trace round trip.** For every page of the servlet version with an ordinary comment table and a urlID that is a
non-negative long, every exchange with the server and every line printed for it that is shorter than the parser's buffer,
wherever it stands in the log and whatever the parser's buffers hold: the parser takes the line for a request and reads
the urlID, the time stamp, the start, the end (not one of the connection's or an image's) and the script's name. -/
theorem trace_round_trip (g : URLGenerator) (hg : g.version = .servlets) (p : Page) (hp : p.OrdinaryTable) (n : ℤ)
    (hn : 0 ≤ n) (hlong : IsLong n) (x : Exchange)
    (hx : IsLong x.stimestamp ∧ IsLong x.stime ∧ IsLong x.etime) (r : Answer) (line : Text)
    (hr : callHTTPServer g (g.url p n) x = .ok r) (hline : r.trace = some line)
    (hlen : line.length < max_line_length) (rest : Text) (s : St) :
    let str := (fgets (max_line_length - 1) (line ++ '\n' :: rest)).1
    checkRequest str = true ∧ getID str = some (longText n) ∧
      (∃ b, getTimeStamp str s.timestamp = some (true, b) ∧ cstr b = some (longText x.stimestamp)) ∧
      (∃ b, getST str s.st = some (true, b) ∧ cstr b = some (longText x.stime)) ∧
      (∃ b, getET str s.et = some (true, b) ∧ cstr b = some (longText x.etime)) ∧
      getCategory str = some p.category := by
  obtain ⟨imgs, hl⟩ := callHTTPServer_trace hr hline
  have hnl : '\n' ∉ line := by
    rw [hl]
    exact newline_notMem_line _ x imgs (g.notMem_url hp n (by decide) (by decide) (by decide))
  obtain ⟨nl, hstr⟩ := fgets_trace rest hnl hlen
  have hlineOf : line ++ nl = lineOf n x imgs nl g p := by rw [hl]; rfl
  simp only [hstr, hlineOf]
  exact ⟨checkRequest_line n x imgs nl, getID_line hp n x imgs nl hn hlong, getTimeStamp_line hp n x imgs nl hx.1 _,
    getST_line hp n x imgs nl hx.2.1 _, getET_line hp n x imgs nl hx.2.2 _, getCategory_line n x imgs nl hg⟩

/-- a story page with one image -/
theorem trace_round_trip_viewStory :
    ∃ r line, callHTTPServer site (site.url (.viewStory 5) 7) oneImage = .ok r ∧ r.trace = some line ∧
      getID (fgets (max_line_length - 1) (line ++ ['\n'])).1 = some ['7'] ∧
      getCategory (fgets (max_line_length - 1) (line ++ ['\n'])).1 = some "ViewStory".toList := by
  refine ⟨_, _, rfl, rfl, ?_⟩
  have h := trace_round_trip site rfl (.viewStory 5) (by intro t ht; cases ht) 7 (by decide) (by decide) oneImage
    (by decide) _ _ rfl rfl (by decide +kernel) [] parser.init
  exact ⟨h.2.1, h.2.2.2.2.2⟩

end Rubbos.Parsers.Clientparser
