/-
The links to the categories, from the pages of the servlets back to the servlet (`BrowseCategories.java`,
`BrowseStoriesByCategory.java`, `UserSession.java`, `URLGenerator.java`).

A page links to a category with its id and its encoded name. The client cuts both out of the page, and
`urlGen.browseStoriesByCategory` encodes the name once more, so the servlet decodes it to what the link had: the encoded name.
The page that it returns links to that name, encoded, and so on from page to page.

- `extractCategory_link`: the client gets the parameters of the link that is drawn.
- `sent_parameters`: the servlet gets what the client has cut out.
- `category_links_iff`: the id and the name are those of a row exactly if `URLEncoder.encode` leaves the names alone.
- `blank_becomes_plus`: a name with a blank.
-/
import Rubbos.Client.Links
import Rubbos.Servlets.PagingLinks

namespace Rubbos.Client.CategoryLinks

set_option maxRecDepth 2000

open Rubbos.Core JString Servlets.StoryPages Links

/-! ## The pages -/

/-- a row of the table categories -/
structure Category where
  id : ℕ
  name : Text
deriving DecidableEq

/-- the key that the client looks for -/
def key : Text := 'c' :: "ategory=".toList

/-- the key of the name -/
def nameKey : Text := "categoryName=".toList

/-- a text, and the literal behind it. The pages of `Html` have pieces of more kinds, for the links to comments; the key of a
category occurs on those of other servlets. -/
structure Piece where
  text : Text
  after : String

def literal (t : String) : Piece := ⟨[], t⟩

def print : Print Piece Char := ⟨Piece.text, fun p => p.after.toList⟩

def render (d : List Piece) : Text := print.render d

/-- what a page shows that is not from the database: header.html, the time that it took, and the text of an exception -/
structure Site where
  header : Text
  diffTime : Text
  exception : Text
  header_plain : ¬ key <:+: header
  diffTime_plain : ¬ key <:+: diffTime
  exception_plain : ¬ key <:+: exception

section

variable (site : Site) (charset : Text → List UInt8)

def printHTMLheader (title : String) : List Piece := [⟨site.header, "<title>"⟩, ⟨title.toList, "</title>\n"⟩]

def printHTMLfooter (servletName : String) : List Piece :=
  [literal "<br><hr>RUBBoS (C) Rice University/INRIA<br><i>Page generated by ", ⟨servletName.toList, " in "⟩,
    ⟨site.diffTime, "</i><br>\n</body>\n</html>\n"⟩]

/-- a link to the stories of a category -/
def linkTo (query : Text) (after : String) : List Piece :=
  [literal "<a href=\"/rubbos/servlet/edu.rice.rubbos.servlets.BrowseStoriesByCategory?", ⟨query ++ ['"'], after⟩]

/-- `sp.printHTMLHighlighted` of the link of a category -/
def categoryLine (c : Category) : List Piece :=
  [literal "<TABLE width=\"100%\" bgcolor=\"#CCCCFF\">\n",
    literal "<TR><TD align=\"center\" width=\"100%\"><FONT size=\"4\" color=\"#000000\"><B>"] ++
  linkTo (BrowseStoriesByCategory.query charset (natText c.id) c.name) ">" ++
  [⟨c.name, "</a><br>\n</B></FONT></TD></TR>\n</TABLE><p>\n"⟩]

/-- the loop over the categories: `rs.getInt` throws when an id is no int -/
def categoryLines : List Category → List Piece
  | [] => []
  | c :: cs =>
    if c.id < 2 ^ 31 then categoryLine charset c ++ categoryLines cs
    else [literal "Exception getting categories: ", ⟨site.exception, "<br>\n"⟩]

/-- `BrowseCategories.doGet`, for an answer or an exception -/
def browseCategories (answer : Except Unit (List Category)) : List Piece :=
  printHTMLheader site "RUBBoS available categories" ++
  match answer with
  | .error _ => [literal "Failed to execute Query for BrowseCategories: ", ⟨site.exception, "\n"⟩]
  | .ok [] =>
    [literal "<h2>Sorry, but there is no category available at this time. Database table is empty</h2><br>\n\n"]
  | .ok rows =>
    [literal "<h2>Currently available categories</h2><br>\n\n"] ++ categoryLines site charset rows ++
      printHTMLfooter site "BrowseCategories"

def storyLine (r : Servlets.StoryPages.Row) : List Piece :=
  [literal "<a href=\"/rubbos/servlet/edu.rice.rubbos.servlets.ViewStory?", ⟨"storyId=".toList ++ natText r.id, "\">"⟩,
    ⟨r.title, "</a> by "⟩, ⟨r.username, " on "⟩, ⟨r.date, "<br>\n\n"⟩]

section

variable (p : BrowseStoriesByCategory.Params) (categoryId categoryName : Text)

/-- the query of a link to a page -/
def pageLink (page : ℤ) : Text :=
  BrowseStoriesByCategory.query charset categoryId categoryName ++ pageQuery page p.nbOfStories

/-- nothing is found -/
def nothing : List Piece :=
  (if p.page = 0 then [literal "<h2>Sorry, but there is no story available in this category !</h2>\n"]
  else
    [literal "<h2>Sorry, but there are no more stories available at this time.</h2><br>\n\n", literal "<p><CENTER>\n"] ++
      linkTo (BrowseStoriesByCategory.query charset categoryId categoryName ++ "&page=".toList ++
        longText (wrapInt (p.page - 1)) ++ "&nbOfStories=nbOfStories".toList)
        ">Previous page</a>\n</CENTER>\n\n") ++
  printHTMLfooter site "BrowseStoriesByCategory"

def pageLinks : List Piece :=
  if p.page = 0 then
    literal "<p><CENTER>\n" :: linkTo (pageLink charset p categoryId categoryName (p.page + 1)) ">Next page</a>\n</CENTER>\n\n"
  else
    literal "<p><CENTER>\n" ::
      linkTo (pageLink charset p categoryId categoryName (p.page - 1)) ">Previous page</a>\n&nbsp&nbsp&nbsp" ++
      linkTo (pageLink charset p categoryId categoryName (p.page + 1)) ">Next page</a>\n\n</CENTER>\n\n"

end

/-- the text of `BrowseStoriesByCategory.page` -/
def browseStoriesByCategory (execute : BrowseStoriesByCategory.Statement → Except Unit (List Servlets.StoryPages.Row))
    (p : BrowseStoriesByCategory.Params) : List Piece :=
  match p.categoryName, p.category with
  | none, _ => [literal "Browse Stories By CategoryYou must provide a category name!<br>\n"]
  | _, none => [literal "Browse Stories By CategoryYou must provide a category identifier!<br>\n"]
  | some categoryName, some categoryId =>
    printHTMLheader site "RUBBoS Browse Stories By Category" ++
    [literal "<br><h2>Stories in category ", ⟨categoryName, "</h2><br>\n"⟩] ++
    match BrowseStoriesByCategory.listed execute p categoryId with
    | .error _ => [literal "Failed to execute Query for BrowseStoriesByCategory: ", ⟨site.exception, "\n"⟩]
    | .ok none => nothing site charset p categoryId categoryName
    | .ok (some rows) => rows.flatMap storyLine ++ pageLinks charset p categoryId categoryName ++
        printHTMLfooter site "BrowseStoriesByCategory"

end

/-! ## The way of a category -/

/-- the parameters category and categoryName of the request for a category -/
def sent (g : URLGenerator) (codec : Urlencoded.Codec) (id : ℤ) (name : Text) (page nbOfStories nanoTime : ℤ) :
    Option Text × Option Text :=
  let q := g.query (longText nanoTime) (Page.browseStoriesByCategory id name page nbOfStories).fields
  (Urlencoded.getParameter codec q "category".toList, Urlencoded.getParameter codec q "categoryName".toList)

/-- the client reads a category out of a page -/
def Reads (d : List Piece) (id : ℤ) (name : Text) : Prop :=
  (render d).length ≤ maxInt ∧ ∃ r r', (extractCategoryFromHTML (some (render d))).run r = .ok (some (id, some name), r')

/-- a story of which nothing looks like a link to a category -/
structure PlainRow (r : Servlets.StoryPages.Row) : Prop where
  title : ¬ key <:+: r.title
  username : ¬ key <:+: r.username
  date : ¬ key <:+: r.date

/-- the parameters that `BrowseStoriesByCategory` gets: of a category on the page of the categories, or on the page that it has
returned for the last one, whatever the page, the number of stories, the stories and the draws are -/
inductive Requested (site : Site) (g : URLGenerator) (codec : Urlencoded.Codec) (rows : List Category) :
    Option Text × Option Text → Prop
  | first {id : ℤ} {name : Text} (h : Reads (browseCategories site codec.bytes (.ok rows)) id name)
      (page nbOfStories nanoTime : ℤ) : Requested site g codec rows (sent g codec id name page nbOfStories nanoTime)
  | next {params : Option Text × Option Text} (hlast : Requested site g codec rows params)
      {execute : BrowseStoriesByCategory.Statement → Except Unit (List Servlets.StoryPages.Row)}
      (hexecute : ∀ q stories, execute q = .ok stories → ∀ s ∈ stories, PlainRow s) (lastPage lastNbOfStories : ℤ)
      {id : ℤ} {name : Text}
      (h : Reads (browseStoriesByCategory site codec.bytes execute ⟨lastPage, lastNbOfStories, params.1, params.2⟩) id name)
      (page nbOfStories nanoTime : ℤ) : Requested site g codec rows (sent g codec id name page nbOfStories nanoTime)

/-- the id and the name of one row -/
def IsRow (rows : List Category) (params : Option Text × Option Text) : Prop :=
  ∃ c ∈ rows, params = (some (natText c.id), some c.name)

/-- the categories with a link: those before the first id that is no int -/
def linked (rows : List Category) : List Category := rows.takeWhile fun c => c.id < 2 ^ 31

/-! ## Reading a link -/

/-- what follows the key in a link: the id, and the name as it is written there -/
def LinkOf (id : ℕ) (written t : Text) : Prop :=
  ∃ d rest, d ∈ Servlets.Html.delimiters ∧ '"' ∈ d :: rest ∧
    t = natText id ++ '&' :: (nameKey ++ (written ++ d :: rest))

variable {reply t written : Text} {ts : List Text} {id : ℕ}

theorem key_ne_nil : key ≠ [] := List.cons_ne_nil _ _

/-- no link, no category -/
theorem extractCategory_none (h : Occurs key reply []) (r : ℕ → ℕ) :
    (extractCategoryFromHTML (some reply)).run r = .ok (none, r) := by
  have hnone : (randomComputeLastIndex (some reply) key false).run r = .ok (none, r) := by
    simp only [randomComputeLastIndex, count_of_occurs h key_ne_nil]
    rfl
  unfold extractCategoryFromHTML
  have hkey : "category=".toList = key := rfl
  simp only [hkey]
  rw [StateT.run_bind, hnone]
  rfl

/-- **The link that is drawn** gives its parameters. -/
theorem extractCategory_link (h : Occurs key reply ts) (hlen : reply.length ≤ maxInt) (r : ℕ → ℕ)
    (ht : ts[r 0 % ts.length]? = some t) (hlink : LinkOf id written t) (hid : id < 2 ^ 31)
    (hwritten : ∀ x ∈ Servlets.Html.delimiters, x ∉ written) :
    (extractCategoryFromHTML (some reply)).run r = .ok (some ((id : ℤ), some written), fun i => r (i + 1)) := by
  obtain ⟨d, rest, hd, hquote, rfl⟩ := hlink
  have hstart : At reply 0 reply := ⟨[], rfl, rfl⟩
  obtain ⟨p, hp, hat⟩ := pickKey_of_occurs hstart h ht (k := -key.length) (by simp)
  have hdigits : ∀ x ∈ Servlets.Html.delimiters, x ∉ natText id := by
    intro x hx
    exact notMem_natText (by revert x; decide)
  have hend : endOfValue reply (isMin maxInt (indexOfFrom reply ['"'] p)) p = (p + (natText id).length : ℕ) := by
    refine endOfValue_eq hat hdigits (by decide) (le_isMin ?_ ?_) (fun h => absurd h (by decide))
    · have := hat.skip.le_length
      omega
    · have hmem : '"' ∈ '&' :: (nameKey ++ (written ++ d :: rest)) :=
        List.mem_cons_of_mem _ (List.mem_append_right _ (List.mem_append_right _ hquote))
      obtain ⟨u, v, huv, hu⟩ := List.eq_append_cons_of_mem hmem
      have hdrop : reply.drop p = (natText id ++ u) ++ '"' :: v := by rw [hat.drop, huv, List.append_assoc]
      right
      rw [indexOfFrom_char hdrop (by simp [hdigits '"' (by decide), hu])]
      simp
  have hn : ¬ (ts.length = 0 ∨ false = true ∧ ts.length ≤ 1) := by
    have := (List.getElem?_eq_some_iff.1 ht).1
    simp only [Bool.false_eq_true, false_and, or_false]
    omega
  have hpos : (randomComputeLastIndex (some reply) key false).run r =
      .ok (some ((p : ℤ), ((p + (natText id).length : ℕ) : ℤ)), fun i => r (i + 1)) := by
    simp only [randomComputeLastIndex, count_of_occurs h key_ne_nil]
    change (if ts.length = 0 ∨ false = true ∧ ts.length ≤ 1 then _ else _ : Draw _).run r = _
    rw [if_neg hn, StateT.run_bind, nextInt_run (fun h0 => hn (.inl h0))]
    change Except.ok _ = _
    simp only [Bool.false_eq_true, false_and, if_false, hp, hend]
  have hsub : substring reply p ((p + (natText id).length : ℕ) : ℤ) = .ok (natText id) := by
    have := hat.substring
    push_cast at this ⊢
    exact this
  have hparse : parseInt (natText id) = .ok (id : ℤ) := by
    rw [← longText_natCast]
    exact Servlets.Html.parseInt_longText (by omega)
  obtain ⟨q, hparam, -⟩ := extractParam_eq hat.skip (by decide) (by decide) hwritten hd hquote
  unfold extractCategoryFromHTML
  have hkey : "category=".toList = key := rfl
  simp only [hkey]
  rw [StateT.run_bind, hpos]
  change (StateT.lift (substring reply p ((p + (natText id).length : ℕ) : ℤ) >>= parseInt) >>= fun n =>
    StateT.lift (extractParam reply nameKey ((p + (natText id).length : ℕ) : ℤ)) >>= fun x =>
      pure (some (n, x.1)) : Draw _).run _ = _
  have hnumber : (substring reply p ((p + (natText id).length : ℕ) : ℤ) >>= parseInt) = .ok (id : ℤ) := by
    rw [hsub]
    exact hparse
  rw [hnumber, hparam]
  rfl

/-! ## The parameters of the request -/

/-- the fields of a query, as texts -/
theorem query_eq (g : URLGenerator) (id : Text) (fs : List (Field × Value)) :
    g.query id fs = Urlencoded.query (fs.map (fun fv => (fv.1.name, g.value fv.2)) ++ [(urlID, id)]) := by
  induction fs with
  | nil => rfl
  | cons fv fs ih =>
    obtain ⟨f, v⟩ := fv
    rw [URLGenerator.query, ih, List.map_cons, List.cons_append]
    cases fs with
    | nil => rfl
    | cons fv fs => rfl

/-- the fields of the request -/
def sentFields (codec : Urlencoded.Codec) (id : ℤ) (name : Text) (page nbOfStories nanoTime : ℤ) : List (Text × Text) :=
  [("category".toList, longText id), ("categoryName".toList, encode codec.bytes name), ("page".toList, longText page),
    ("nbOfStories".toList, longText nbOfStories), (urlID, longText nanoTime)]

/-- **The servlet gets what the client has cut out.** -/
theorem sent_parameters {g : URLGenerator} {codec : Urlencoded.Codec} (hg : g.charset = codec.bytes) (id : ℤ) (name : Text)
    (page nbOfStories nanoTime : ℤ) :
    sent g codec id name page nbOfStories nanoTime = (some (longText id), some name) := by
  have hfields : (Page.browseStoriesByCategory id name page nbOfStories).fields.map (fun fv => (fv.1.name, g.value fv.2)) ++
      [(urlID, longText nanoTime)] = sentFields codec id name page nbOfStories nanoTime := by
    unfold sentFields
    rw [← hg]
    rfl
  have hfst : (sentFields codec id name page nbOfStories nanoTime).map Prod.fst =
      ["category".toList, "categoryName".toList, "page".toList, "nbOfStories".toList, urlID] := rfl
  have hnames : ∀ f ∈ sentFields codec id name page nbOfStories nanoTime, Urlencoded.Name f.1 := by
    rw [← List.forall_mem_map (f := Prod.fst), hfst]
    decide
  have hnodup : ((sentFields codec id name page nbOfStories nanoTime).map Prod.fst).Nodup := by
    rw [hfst]
    decide
  have hwhole : ∀ f ∈ sentFields codec id name page nbOfStories nanoTime, Urlencoded.Whole f.2 := by
    simp only [sentFields, List.forall_mem_cons, List.not_mem_nil, false_imp_iff, implies_true, and_true]
    exact ⟨(Urlencoded.clean_longText _).1, Urlencoded.whole_encode _ _, (Urlencoded.clean_longText _).1,
      (Urlencoded.clean_longText _).1, (Urlencoded.clean_longText _).1⟩
  have hget (f : Text × Text) (hf : f ∈ sentFields codec id name page nbOfStories nanoTime) :=
    Urlencoded.getParameter_query codec hnames hnodup hwhole hf
  have hid : Urlencoded.decode codec (longText id) = some (longText id) :=
    Urlencoded.decode_eq_self_iff.2 (Urlencoded.clean_longText id).2
  have hname : Urlencoded.decode codec (encode codec.bytes name) = some name := Urlencoded.decode_encode name
  have hcategory := hget (_, _) (.head _) (by rw [hid]; rfl)
  have hcategoryName := hget (_, _) (.tail _ (.head _)) (by rw [hname]; rfl)
  unfold sent
  rw [query_eq, hfields]
  exact Prod.ext (hcategory.trans hid) (hcategoryName.trans hname)

/-! ## What follows the key on a page -/

/-- a literal that begins and ends with a character that the key does not have -/
def isMarkup (t : String) : Bool :=
  t.toList.head?.any (· ∉ key) && t.toList.getLast?.any (· ∉ key) && decide (¬ key <:+: t.toList)

theorem separates_of_isMarkup {t : String} (h : isMarkup t = true) : Occurs.Separates key t.toList := by
  simp only [isMarkup, Bool.and_eq_true, decide_eq_true_eq] at h
  obtain ⟨⟨hfirst, hlast⟩, hplain⟩ := h
  refine ⟨?_, ?_, hplain⟩
  · obtain ⟨c, hc, hnot⟩ := (Option.any_eq_true _ _).1 hfirst
    exact ⟨c, of_decide_eq_true hnot, hc⟩
  · obtain ⟨c, hc, hnot⟩ := (Option.any_eq_true _ _).1 hlast
    exact ⟨c, of_decide_eq_true hnot, hc⟩

/-- a literal, by its characters -/
theorem isMarkup_ofList {l : Text}
    (h : (l.head?.any (· ∉ key) && l.getLast?.any (· ∉ key) && decide (¬ key <:+: l)) = true) :
    isMarkup (String.ofList l) = true := by
  unfold isMarkup
  rwa [String.toList_ofList]

variable {P : Text → Prop}

/-- a piece in which every key is followed so -/
def Sound (P : Text → Prop) (p : Piece) : Prop := Occurs.Followed key P p.text ∧ isMarkup p.after = true

theorem sound_text {t : Text} {after : String} (ht : ¬ key <:+: t) (hafter : isMarkup after = true) : Sound P ⟨t, after⟩ :=
  ⟨.of_absent ht, hafter⟩

theorem sound_literal {t : String} (h : isMarkup t = true) : Sound P (literal t) :=
  sound_text (fun hkey => key_ne_nil (List.infix_nil.1 hkey)) h

theorem followed_render (hP : Occurs.Stable P) {d : List Piece} (h : ∀ p ∈ d, Sound P p) :
    Occurs.Followed key P (render d) :=
  Print.followed_render hP key_ne_nil fun p hp => ⟨(h p hp).1, separates_of_isMarkup (h p hp).2⟩

theorem stable_linkOf (id : ℕ) (written : Text) : Occurs.Stable (LinkOf id written) := by
  rintro t u ⟨d, rest, hd, hquote, rfl⟩
  refine ⟨d, rest ++ u, hd, ?_, by simp⟩
  exact (List.mem_append_left u hquote : '"' ∈ (d :: rest) ++ u)

/-- a field of a query that is not the category -/
theorem plain_field {name value : Text} (hname : '=' ∉ name) (hend : ¬ "category".toList <:+ name) (hvalue : '=' ∉ value) :
    ¬ key <:+: name ++ '=' :: value := by
  have hkey : key = "category".toList ++ ['='] := rfl
  rw [hkey, infix_marked (by decide) hname]
  rintro (h | h)
  · exact hend h
  · exact not_infix_of_mem (show '=' ∈ "category".toList ++ ['='] by decide) hvalue h

theorem notMem_encode {charset : Text → List UInt8} {name : Text} {x : Char} (hx : isEncoded x = false) :
    x ∉ encode charset name := by
  intro h
  have hencoded : isEncoded x = true := isEncoded_of_mem_encodeRun h
  rw [hx] at hencoded
  cases hencoded

theorem nameKey_append (w : Text) : nameKey ++ w = "categoryName".toList ++ '=' :: w := by
  have hkey : nameKey = "categoryName".toList ++ ['='] := by decide
  rw [hkey, List.append_assoc, List.singleton_append]

theorem query_text (charset : Text → List UInt8) (id name : Text) :
    BrowseStoriesByCategory.query charset id name = key ++ (id ++ '&' :: (nameKey ++ encode charset name)) := by
  have hkey : key = "category=".toList := by decide
  have hname : "&categoryName=".toList = '&' :: nameKey := by decide
  have hquery : BrowseStoriesByCategory.query charset id name =
      "category=".toList ++ id ++ "&categoryName=".toList ++ encode charset name := rfl
  rw [hquery, ← hkey, hname, List.append_assoc, List.append_assoc, List.cons_append]

/-- a link to a category, with or without the page -/
theorem sound_link (charset : Text → List UInt8) (id : ℕ) (name tail : Text) {after : String}
    (htail : tail = [] ∨ tail.head? = some '&') (hplain : ¬ key <:+: tail) (hafter : isMarkup after = true) :
    ∀ p ∈ linkTo (BrowseStoriesByCategory.query charset (natText id) name ++ tail) after,
      Sound (LinkOf id (encode charset name)) p := by
  have hfield : ∀ w, '=' ∉ w → ¬ key <:+: "categoryName".toList ++ '=' :: w := fun w hw =>
    plain_field (by decide) (by decide) hw
  have hid : ¬ key <:+: natText id := not_infix_of_mem (show '=' ∈ key by decide) (notMem_natText (by decide))
  have htext : BrowseStoriesByCategory.query charset (natText id) name ++ tail ++ ['"'] =
      key ++ (natText id ++ '&' :: (nameKey ++ (encode charset name ++ (tail ++ ['"'])))) := by
    rw [query_text]
    simp only [List.append_assoc, List.cons_append]
  have hbehind : LinkOf id (encode charset name) (natText id ++ '&' :: (nameKey ++ (encode charset name ++ (tail ++ ['"'])))) ∧
      ¬ key <:+: nameKey ++ (encode charset name ++ (tail ++ ['"'])) := by
    have henc : '=' ∉ encode charset name := notMem_encode (by decide)
    obtain _ | ⟨x, tail⟩ := tail
    · refine ⟨⟨'"', [], by decide, List.mem_cons_self, rfl⟩, ?_⟩
      rw [nameKey_append]
      exact hfield _ (by simp [henc])
    · obtain rfl : x = '&' := by simpa using htail
      refine ⟨⟨'&', tail ++ ['"'], by decide, by simp, rfl⟩, ?_⟩
      have hsplit : nameKey ++ (encode charset name ++ ('&' :: tail ++ ['"'])) =
          ("categoryName".toList ++ '=' :: encode charset name) ++ '&' :: (tail ++ '"' :: []) := by
        rw [nameKey_append]
        simp only [List.append_assoc, List.cons_append]
      rw [hsplit, infix_append_cons (c := '&') (by decide), infix_append_cons (c := '"') (by decide)]
      rintro (h | h | h)
      · exact hfield _ henc h
      · exact hplain (h.trans (List.suffix_cons _ _).isInfix)
      · exact key_ne_nil (List.infix_nil.1 h)
  have habsent : ¬ key <:+: natText id ++ '&' :: (nameKey ++ (encode charset name ++ (tail ++ ['"']))) := by
    rw [infix_append_cons (c := '&') (by decide)]
    rintro (h | h)
    · exact hid h
    · exact hbehind.2 h
  unfold linkTo
  rw [htext]
  refine List.forall_mem_cons.2 ⟨sound_literal (isMarkup_ofList (by decide)), List.forall_mem_singleton.2 ⟨?_, hafter⟩⟩
  exact .here (.of_absent habsent) hbehind.1

/-- the end of a link to a page -/
theorem plain_pageTail {n v : Text} (hn : '=' ∉ n) (hv : '=' ∉ v) :
    ¬ key <:+: "&page=".toList ++ n ++ "&nbOfStories=".toList ++ v := by
  have hsplit : "&page=".toList ++ n ++ "&nbOfStories=".toList ++ v =
      [] ++ '&' :: (("page".toList ++ '=' :: n) ++ '&' :: ("nbOfStories".toList ++ '=' :: v)) := by simp
  rw [hsplit, infix_append_cons (c := '&') (by decide), infix_append_cons (c := '&') (by decide)]
  rintro (h | h | h)
  · exact key_ne_nil (List.infix_nil.1 h)
  · exact plain_field (by decide) (by decide) hn h
  · exact plain_field (by decide) (by decide) hv h

theorem Sound.mono {Q : Text → Prop} {p : Piece} (h : Sound P p) (hPQ : ∀ t, P t → Q t) : Sound Q p := by
  obtain ⟨⟨ts, hts, hP⟩, hafter⟩ := h
  exact ⟨⟨ts, hts, fun t ht => hPQ t (hP t ht)⟩, hafter⟩

/-! ## The links of the pages -/

variable {site : Site} {charset : Text → List UInt8} {name : Text}

theorem sound_header {title : String} (htitle : ¬ key <:+: title.toList) : ∀ p ∈ printHTMLheader site title, Sound P p :=
  List.forall_mem_cons.2 ⟨sound_text site.header_plain (isMarkup_ofList (by decide)),
    List.forall_mem_singleton.2 (sound_text htitle (isMarkup_ofList (by decide)))⟩

theorem sound_footer {servletName : String} (hname : ¬ key <:+: servletName.toList) :
    ∀ p ∈ printHTMLfooter site servletName, Sound P p :=
  List.forall_mem_cons.2 ⟨sound_literal (isMarkup_ofList (by decide)),
    List.forall_mem_cons.2 ⟨sound_text hname (isMarkup_ofList (by decide)),
      List.forall_mem_singleton.2 (sound_text site.diffTime_plain (isMarkup_ofList (by decide)))⟩⟩

/-- the lines of the stories have no link to a category -/
theorem sound_storyLine {r : Servlets.StoryPages.Row} (hr : PlainRow r) : ∀ p ∈ storyLine r, Sound P p := by
  have hid : ¬ key <:+: "storyId=".toList ++ natText r.id := by
    have hsplit : "storyId=".toList ++ natText r.id = "storyId".toList ++ '=' :: natText r.id := by simp
    rw [hsplit]
    exact plain_field (by decide) (by decide) (notMem_natText (by decide))
  intro p hp
  simp only [storyLine, List.mem_cons, List.not_mem_nil, or_false] at hp
  obtain rfl | rfl | rfl | rfl | rfl := hp
  · exact sound_literal (isMarkup_ofList (by decide))
  · exact sound_text hid (isMarkup_ofList (by decide))
  · exact sound_text hr.title (isMarkup_ofList (by decide))
  · exact sound_text hr.username (isMarkup_ofList (by decide))
  · exact sound_text hr.date (isMarkup_ofList (by decide))

theorem plainRow_of_listed {execute : BrowseStoriesByCategory.Statement → Except Unit (List Servlets.StoryPages.Row)}
    (hexecute : ∀ q stories, execute q = .ok stories → ∀ s ∈ stories, PlainRow s) {p : BrowseStoriesByCategory.Params}
    {categoryId : Text} {rows : List Servlets.StoryPages.Row}
    (h : BrowseStoriesByCategory.listed execute p categoryId = .ok (some rows)) : ∀ r ∈ rows, PlainRow r := by
  intro r hr
  unfold BrowseStoriesByCategory.listed at h
  cases hrows : execute ⟨categoryId, p.nbOfStories, wrapInt (p.page * p.nbOfStories)⟩ with
  | error e => simp [hrows, bind, Except.bind] at h
  | ok stories =>
    simp only [hrows, bind, Except.bind, pure, Except.pure, Except.ok.injEq] at h
    split at h
    · cases h
      rw [doWhileNext_first] at hr
      exact hexecute _ _ hrows r hr
    · cases h

/-- every link on the page of the stories is one to the category of the page -/
theorem sound_browseStories {execute : BrowseStoriesByCategory.Statement → Except Unit (List Servlets.StoryPages.Row)}
    (hexecute : ∀ q stories, execute q = .ok stories → ∀ s ∈ stories, PlainRow s) (page nbOfStories : ℤ)
    (hname : ¬ key <:+: name) :
    ∀ p ∈ browseStoriesByCategory site charset execute ⟨page, nbOfStories, some (natText id), some name⟩,
      Sound (LinkOf id (encode charset name)) p := by
  have hlink {n v : Text} (hn : '=' ∉ n) (hv : '=' ∉ v) {after : String} (hafter : isMarkup after = true) :
      ∀ p ∈ linkTo (BrowseStoriesByCategory.query charset (natText id) name ++
        ("&page=".toList ++ n ++ "&nbOfStories=".toList ++ v)) after, Sound (LinkOf id (encode charset name)) p :=
    sound_link charset id name _ (.inr (by simp)) (plain_pageTail hn hv) hafter
  have hnum (n : ℤ) : '=' ∉ longText n := notMem_longText (by decide)
  have hlinks : ∀ p ∈ pageLinks charset ⟨page, nbOfStories, some (natText id), some name⟩ (natText id) name,
      Sound (LinkOf id (encode charset name)) p := by
    unfold pageLinks pageLink pageQuery
    split
    · exact List.forall_mem_cons.2 ⟨sound_literal (isMarkup_ofList (by decide)), hlink (hnum _) (hnum _) (isMarkup_ofList (by decide))⟩
    · refine List.forall_mem_append.2 ⟨List.forall_mem_cons.2 ⟨sound_literal (isMarkup_ofList (by decide)), ?_⟩, ?_⟩
      · exact hlink (hnum _) (hnum _) (isMarkup_ofList (by decide))
      · exact hlink (hnum _) (hnum _) (isMarkup_ofList (by decide))
  have hnothing : ∀ p ∈ nothing site charset ⟨page, nbOfStories, some (natText id), some name⟩ (natText id) name,
      Sound (LinkOf id (encode charset name)) p := by
    unfold nothing
    refine List.forall_mem_append.2 ⟨?_, sound_footer (by decide)⟩
    split
    · exact List.forall_mem_singleton.2 (sound_literal (isMarkup_ofList (by decide)))
    · refine List.forall_mem_append.2 ⟨List.forall_mem_cons.2 ⟨sound_literal (isMarkup_ofList (by decide)),
        List.forall_mem_singleton.2 (sound_literal (isMarkup_ofList (by decide)))⟩, ?_⟩
      have hvalue : "&nbOfStories=nbOfStories".toList = "&nbOfStories=".toList ++ "nbOfStories".toList := by decide
      have htail (q n : Text) : q ++ "&page=".toList ++ n ++ "&nbOfStories=nbOfStories".toList =
          q ++ ("&page=".toList ++ n ++ "&nbOfStories=".toList ++ "nbOfStories".toList) := by
        rw [hvalue]
        simp only [List.append_assoc]
      rw [htail]
      exact hlink (hnum _) (by decide) (by decide)
  unfold browseStoriesByCategory
  refine List.forall_mem_append.2 ⟨List.forall_mem_append.2 ⟨sound_header (by decide), ?_⟩, ?_⟩
  · exact List.forall_mem_cons.2 ⟨sound_literal (isMarkup_ofList (by decide)),
      List.forall_mem_singleton.2 (sound_text hname (isMarkup_ofList (by decide)))⟩
  · cases hlisted : BrowseStoriesByCategory.listed execute ⟨page, nbOfStories, some (natText id), some name⟩ (natText id) with
    | error e =>
      exact List.forall_mem_cons.2 ⟨sound_literal (isMarkup_ofList (by decide)),
        List.forall_mem_singleton.2 (sound_text site.exception_plain (isMarkup_ofList (by decide)))⟩
    | ok found =>
      cases found with
      | none => exact hnothing
      | some rows =>
        refine List.forall_mem_append.2 ⟨List.forall_mem_append.2 ⟨?_, hlinks⟩, sound_footer (by decide)⟩
        intro p hp
        obtain ⟨r, hr, hp⟩ := List.mem_flatMap.1 hp
        exact sound_storyLine (plainRow_of_listed hexecute hlisted r hr) p hp

/-- the line of a category has the link to it -/
theorem sound_categoryLine {c : Category} (hc : ¬ key <:+: c.name) :
    ∀ p ∈ categoryLine charset c, Sound (LinkOf c.id (encode charset c.name)) p := by
  have hlink := sound_link charset c.id c.name [] (.inl rfl) (fun h => key_ne_nil (List.infix_nil.1 h))
    (show isMarkup ">" = true by decide)
  rw [List.append_nil] at hlink
  unfold categoryLine
  refine List.forall_mem_append.2 ⟨List.forall_mem_append.2 ⟨?_, hlink⟩, ?_⟩
  · exact List.forall_mem_cons.2 ⟨sound_literal (isMarkup_ofList (by decide)),
      List.forall_mem_singleton.2 (sound_literal (isMarkup_ofList (by decide)))⟩
  · exact List.forall_mem_singleton.2 (sound_text hc (isMarkup_ofList (by decide)))

theorem linked_cons {c : Category} (cs : List Category) (hc : c.id < 2 ^ 31) : linked (c :: cs) = c :: linked cs :=
  List.takeWhile_cons_of_pos (decide_eq_true hc)

/-- every link on the page of the categories is one to a row -/
def LinkOfRow (charset : Text → List UInt8) (rows : List Category) (t : Text) : Prop :=
  ∃ c ∈ linked rows, LinkOf c.id (encode charset c.name) t

theorem sound_categoryLines {rows : List Category} (hrows : ∀ c ∈ linked rows, ¬ key <:+: c.name) :
    ∀ p ∈ categoryLines site charset rows, Sound (LinkOfRow charset rows) p := by
  induction rows with
  | nil => simp [categoryLines]
  | cons c cs ih =>
    unfold categoryLines
    split
    · next hid =>
      have hlinked := linked_cons cs hid
      rw [hlinked] at hrows
      refine List.forall_mem_append.2 ⟨fun p hp => ?_, fun p hp => ?_⟩
      · refine (sound_categoryLine (hrows c List.mem_cons_self) p hp).mono fun t ht => ⟨c, ?_, ht⟩
        rw [hlinked]
        exact List.mem_cons_self
      · refine (ih (fun d hd => hrows d (List.mem_cons_of_mem c hd)) p hp).mono ?_
        rintro t ⟨d, hd, ht⟩
        refine ⟨d, ?_, ht⟩
        rw [hlinked]
        exact List.mem_cons_of_mem c hd
    · exact List.forall_mem_cons.2 ⟨sound_literal (isMarkup_ofList (by decide)),
        List.forall_mem_singleton.2 (sound_text site.exception_plain (isMarkup_ofList (by decide)))⟩

theorem sound_browseCategories {rows : List Category} (hrows : ∀ c ∈ linked rows, ¬ key <:+: c.name) :
    ∀ p ∈ browseCategories site charset (.ok rows), Sound (LinkOfRow charset rows) p := by
  unfold browseCategories
  refine List.forall_mem_append.2 ⟨sound_header (by decide), ?_⟩
  cases rows with
  | nil => exact List.forall_mem_singleton.2 (sound_literal (isMarkup_ofList (by decide)))
  | cons c cs =>
    refine List.forall_mem_append.2 ⟨List.forall_mem_append.2 ⟨?_, sound_categoryLines hrows⟩, sound_footer (by decide)⟩
    exact List.forall_mem_singleton.2 (sound_literal (isMarkup_ofList (by decide)))

theorem stable_linkOfRow (rows : List Category) : Occurs.Stable (LinkOfRow charset rows) := by
  rintro t u ⟨c, hc, ht⟩
  exact ⟨c, hc, stable_linkOf _ _ t u ht⟩

theorem id_lt_of_linked {rows : List Category} {c : Category} (hc : c ∈ linked rows) : c.id < 2 ^ 31 := by
  simpa using List.mem_takeWhile_imp hc

/-- **The client reads the id and the encoded name of one row.** -/
theorem read_eq {d : List Piece} {rows : List Category} (hd : Occurs.Followed key (LinkOfRow charset rows) (render d))
    {id : ℤ} {name : Text} (h : Reads d id name) : ∃ c ∈ linked rows, id = c.id ∧ name = encode charset c.name := by
  obtain ⟨hlen, r, r', hread⟩ := h
  obtain ⟨ts, hts, hlinks⟩ := hd
  obtain _ | ⟨t₀, ts'⟩ := ts
  · rw [extractCategory_none hts] at hread
    cases hread
  · have hlt : r 0 % (t₀ :: ts').length < (t₀ :: ts').length := Nat.mod_lt _ (by simp)
    obtain ⟨c, hc, hlink⟩ := hlinks _ (List.getElem_mem hlt)
    rw [extractCategory_link hts hlen r (List.getElem?_eq_getElem hlt) hlink (id_lt_of_linked hc) ?_] at hread
    · cases hread
      exact ⟨c, hc, rfl, rfl⟩
    · intro x hx
      exact notMem_encode (by revert x; decide)

/-! ## The round trip -/

/-- the piece with the link of a row -/
def linkPiece (charset : Text → List UInt8) (c : Category) : Piece :=
  ⟨BrowseStoriesByCategory.query charset (natText c.id) c.name ++ ['"'], ">"⟩

theorem linkPiece_mem {rows : List Category} {c : Category} (hc : c ∈ linked rows) :
    linkPiece charset c ∈ categoryLines site charset rows := by
  induction rows with
  | nil => exact absurd hc List.not_mem_nil
  | cons d ds ih =>
    by_cases hid : d.id < 2 ^ 31
    · rw [linked_cons ds hid] at hc
      unfold categoryLines
      rw [if_pos hid]
      rcases List.mem_cons.1 hc with rfl | hc
      · exact List.mem_append_left _ (List.mem_append_left _ (List.mem_append_right _ (.tail _ (.head _))))
      · exact List.mem_append_right _ (ih hc)
    · have hnil : linked (d :: ds) = [] := List.takeWhile_cons_of_neg (by simpa using hid)
      rw [hnil] at hc
      exact absurd hc List.not_mem_nil

/-- every row with an int gets a link -/
theorem linkPiece_mem_page {rows : List Category} {c : Category} (hc : c ∈ linked rows) :
    linkPiece charset c ∈ browseCategories site charset (.ok rows) := by
  unfold browseCategories
  cases rows with
  | nil => exact absurd hc List.not_mem_nil
  | cons d ds => exact List.mem_append_right _ (List.mem_append_left _ (List.mem_append_right _ (linkPiece_mem hc)))

/-- the text of a page with a link -/
theorem render_linkPiece {d : List Piece} {c : Category} (h : linkPiece charset c ∈ d) :
    ∃ before after, render d = before ++ (key ++ after) ∧ LinkOf c.id (encode charset c.name) after := by
  obtain ⟨as, bs, rfl⟩ := List.append_of_mem h
  have hpiece : (linkPiece charset c).text ++ (linkPiece charset c).after.toList =
      key ++ (natText c.id ++ '&' :: (nameKey ++ (encode charset c.name ++ '"' :: ">".toList))) := by
    unfold linkPiece
    rw [query_text]
    simp only [List.append_assoc, List.cons_append, List.nil_append]
  refine ⟨render as, natText c.id ++ '&' :: (nameKey ++ (encode charset c.name ++ '"' :: (">".toList ++ render bs))), ?_,
    '"', ">".toList ++ render bs, by decide, List.mem_cons_self, rfl⟩
  have hrender : render (as ++ linkPiece charset c :: bs) =
      render as ++ (((linkPiece charset c).text ++ (linkPiece charset c).after.toList) ++ render bs) := by
    rw [List.append_assoc]
    exact Print.render_append.trans (congrArg (render as ++ ·) Print.render_cons)
  rw [hrender, hpiece]
  simp only [List.append_assoc, List.cons_append]

section

variable {g : URLGenerator} {codec : Urlencoded.Codec} {rows : List Category} {c : Category}

/-- some draw hits the link of a row, and the servlet gets the encoded name -/
theorem requested_encoded (hg : g.charset = codec.bytes) (hc : c ∈ linked rows)
    (hlen : (render (browseCategories site codec.bytes (.ok rows))).length ≤ maxInt) :
    Requested site g codec rows (some (natText c.id), some (encode codec.bytes c.name)) := by
  have hpiece : linkPiece codec.bytes c ∈ browseCategories site codec.bytes (.ok rows) := linkPiece_mem_page hc
  obtain ⟨before, after, hpage, hlink⟩ := render_linkPiece hpiece
  obtain ⟨ts, hts⟩ := Occurs.exists_occurs key_ne_nil (render (browseCategories site codec.bytes (.ok rows)))
  have hmem : after ∈ ts := Occurs.mem_followers (by decide) hts hpage
  obtain ⟨i, hi, hafter⟩ := List.getElem_of_mem hmem
  have hdrawn : ts[(fun _ : ℕ => i) 0 % ts.length]? = some after := by
    rw [Nat.mod_eq_of_lt hi, List.getElem?_eq_getElem hi, hafter]
  have hwritten : ∀ x ∈ Servlets.Html.delimiters, x ∉ encode codec.bytes c.name := by
    intro x hx
    exact notMem_encode (by revert x; decide)
  have hread := extractCategory_link hts hlen (fun _ => i) hdrawn hlink (id_lt_of_linked hc) hwritten
  have hsent : Requested site g codec rows (sent g codec c.id (encode codec.bytes c.name) 0 0 0) :=
    .first ⟨hlen, _, _, hread⟩ 0 0 0
  rwa [sent_parameters hg, longText_natCast] at hsent

/-- names that are left alone go round -/
theorem requested_row (hg : g.charset = codec.bytes) (hnames : ∀ c ∈ linked rows, ∀ x ∈ c.name, isUnreserved x)
    {params : Option Text × Option Text} (h : Requested site g codec rows params) :
    ∃ c ∈ linked rows, params = (some (natText c.id), some c.name) := by
  have hself (c : Category) (hc : c ∈ linked rows) : encode codec.bytes c.name = c.name :=
    Urlencoded.encode_eq_self_iff.2 (hnames c hc)
  have hplain (c : Category) (hc : c ∈ linked rows) : ¬ key <:+: c.name := by
    refine not_infix_of_mem (show '=' ∈ key by decide) fun hmem => ?_
    exact absurd (hnames c hc _ hmem) (by decide)
  have hsent {d : List Piece} (hd : Occurs.Followed key (LinkOfRow codec.bytes rows) (render d)) {id : ℤ} {name : Text}
      (hread : Reads d id name) (page nbOfStories nanoTime : ℤ) :
      ∃ c ∈ linked rows, sent g codec id name page nbOfStories nanoTime = (some (natText c.id), some c.name) := by
    obtain ⟨c, hc, rfl, rfl⟩ := read_eq hd hread
    exact ⟨c, hc, by rw [sent_parameters hg, longText_natCast, hself c hc]⟩
  induction h with
  | first h page nbOfStories nanoTime =>
    exact hsent (followed_render (stable_linkOfRow rows) (sound_browseCategories hplain)) h page nbOfStories nanoTime
  | @next params hlast execute hexecute lastPage lastNbOfStories id name h page nbOfStories nanoTime ih =>
    obtain ⟨c, hc, rfl⟩ := ih
    refine hsent (followed_render (stable_linkOfRow rows) fun p hp => ?_) h page nbOfStories nanoTime
    exact (sound_browseStories hexecute lastPage lastNbOfStories (hplain c hc) p hp).mono fun t ht => ⟨c, hc, ht⟩

end

/-- **The servlet gets the id and the name of one row, on every page, exactly if `URLEncoder.encode` leaves every linked name
alone.** -/
theorem category_links_iff (site : Site) {g : URLGenerator} {codec : Urlencoded.Codec} (hg : g.charset = codec.bytes)
    (rows : List Category) (hkeys : (rows.map Category.id).Nodup)
    (hlen : (render (browseCategories site codec.bytes (.ok rows))).length ≤ maxInt) :
    (∀ params, Requested site g codec rows params → IsRow rows params) ↔ ∀ c ∈ linked rows, ∀ x ∈ c.name, isUnreserved x := by
  have hmem : ∀ c ∈ linked rows, c ∈ rows := fun c hc => (List.takeWhile_sublist _).mem hc
  constructor
  · intro hround c hc
    obtain ⟨d, hd, hparams⟩ := hround _ (requested_encoded hg hc hlen)
    simp only [Prod.mk.injEq, Option.some.injEq] at hparams
    obtain ⟨hid, hname⟩ := hparams
    have hids : c.id = d.id := by rw [← digits_natText c.id, hid, digits_natText]
    obtain rfl : c = d := List.inj_on_of_nodup_map hkeys (hmem c hc) hd hids
    exact Urlencoded.encode_eq_self_iff.1 hname
  · intro hnames params h
    obtain ⟨c, hc, hparams⟩ := requested_row hg hnames h
    exact ⟨c, hmem c hc, hparams⟩

/-- a client and a page in UTF-8 -/
def client : URLGenerator := { Client.site with charset := Urlencoded.utf8.bytes }

def plainSite : Site where
  header := "<html><body>".toList
  diffTime := "3 ms".toList
  exception := "java.sql.SQLException".toList
  header_plain := by decide
  diffTime_plain := by decide
  exception_plain := by decide

/-- two names without blanks go round -/
theorem plain_names_go_round :
    ¬ ∃ params, Requested plainSite client Urlencoded.utf8 [⟨1, "Linux".toList⟩, ⟨2, "News_2001".toList⟩] params ∧
      ¬ IsRow [⟨1, "Linux".toList⟩, ⟨2, "News_2001".toList⟩] params := by
  rintro ⟨params, hrequested, hrow⟩
  exact hrow ((category_links_iff plainSite rfl _ (by decide) (by decide +kernel)).2 (by decide) params hrequested)

/-- a blank is a plus when it comes back -/
theorem blank_becomes_plus :
    ¬ ∀ params, Requested plainSite client Urlencoded.utf8 [⟨1, "a b".toList⟩] params → IsRow [⟨1, "a b".toList⟩] params := by
  intro hround
  have hrequested : Requested plainSite client Urlencoded.utf8 [⟨1, "a b".toList⟩]
      (some (natText 1), some (encode Urlencoded.utf8.bytes "a b".toList)) :=
    requested_encoded (c := ⟨1, "a b".toList⟩) rfl (by decide) (by decide +kernel)
  obtain ⟨d, hd, hparams⟩ := hround _ hrequested
  obtain rfl := List.mem_singleton.1 hd
  have hname : encode Urlencoded.utf8.bytes "a b".toList = "a b".toList := by simpa using hparams
  have hplus : encode Urlencoded.utf8.bytes "a b".toList = "a+b".toList := by decide
  rw [hplus] at hname
  exact absurd hname (by decide)

end Rubbos.Client.CategoryLinks
