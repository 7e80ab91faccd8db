/-
The links between the pages of a list (`OlderStories.java`, `BrowseStoriesByCategory.java`, `Search.java`).

A link is followed: what stands behind its '?' is sent, and the servlet reads its parameters out of it. A link returns if that
gives the parameters of the page it stands on, with the next or the previous page. The servlets put their links together by
hand, and differ in what they get wrong:

- OlderStories and BrowseStoriesByCategory splice the date and the category in as they are, so these must be `Clean`.
- The link from a later page of OlderStories or Search to the next one has `category=…=` where the parameter should be. A text
  can smuggle a parameter search into it (`Carried`); a date cannot do so without spoiling the link to the previous page.
- The link back from an empty page of BrowseStoriesByCategory has no number of stories.
- The page number may overflow.

- `paging_links_iff`: for each servlet, when all links of a page return.
- `next_page_loses_date`: a link to the third page that asks for a date.
-/
import Rubbos.Core.Urlencoded
import Rubbos.Servlets.Html
import Rubbos.Servlets.StoryPages

namespace Rubbos.Servlets.StoryPages

open Rubbos.Core JString Urlencoded

/-! ## Following links -/

/-- the request for a link -/
def follow (codec : Codec) (l : Link) : Request where
  uri := []
  getParameter := getParameter codec l.query

/-- the page that a link is for -/
def Label.page (page : ℤ) : Label → ℤ
  | .next => page + 1
  | .previous => page - 1

/-- following a link to the next page, and there one to the previous page -/
def RoundTrip {P : Type} (codec : Codec) (params : Request → Except Exc P) (page : P → List Printed) (p : P) : Prop :=
  ∀ next ∈ links (page p), next.label = .next → ∃ q, params (follow codec next) = .ok q ∧
    ∀ previous ∈ links (page q), previous.label = .previous → params (follow codec previous) = .ok p

theorem intParameter_of_some {request : Request} {name : String} {n : ℤ} {text : Text}
    (h : request.getParameter name.toList = some text) : intParameter request name n = parseInt text := by
  rw [intParameter, h]

/-- a number that may stand in front of the one that is printed -/
theorem intParameter_or {request : Request} {name : String} {d n m : ℤ} {text : Option Text}
    (h : request.getParameter name.toList = text.or (some (longText m))) (hm : -2 ^ 31 ≤ m ∧ m < 2 ^ 31) :
    intParameter request name d = .ok n ↔ (∀ t ∈ text, parseInt t = .ok n) ∧ (text = none → m = n) := by
  cases text with
  | none =>
    rw [intParameter_of_some h, Html.parseInt_longText hm]
    simp
  | some t =>
    rw [intParameter_of_some h]
    simp

theorem parseInt_range {text : Text} {n : ℤ} (h : parseInt text = .ok n) : -2 ^ 31 ≤ n ∧ n < 2 ^ 31 := by
  rcases ite_eq_iff.1 h with ⟨⟨-, -, hlow, hhigh⟩, hv⟩ | ⟨-, herror⟩
  · rw [← Except.ok.inj hv]
    exact ⟨hlow, hhigh⟩
  · cases herror

theorem intParameter_range {request : Request} {name : String} {d n : ℤ} (hd : -2 ^ 31 ≤ d ∧ d < 2 ^ 31)
    (h : intParameter request name d = .ok n) : -2 ^ 31 ≤ n ∧ n < 2 ^ 31 := by
  unfold intParameter at h
  split at h
  · cases h
    exact hd
  · exact parseInt_range h

/-- the page that is read out of a link overflows with it -/
theorem parseInt_wrapInt (n : ℤ) : parseInt (longText (wrapInt n)) = .ok (wrapInt n) := Html.parseInt_longText (wrapInt_range n)

/-- lines are no links -/
theorem links_lines {α : Type} (line : α → Line) (rows : List α) : links (rows.map fun r => Printed.line (line r)) = [] := by
  unfold links
  rw [List.filterMap_map]
  exact List.filterMap_eq_nil_iff.2 fun _ _ => rfl

/-- the links of a list are those at its end -/
theorem links_list {α : Type} (line : α → Line) (rows : List α) (ends : List Printed) :
    links (rows.map (fun r => Printed.line (line r)) ++ ends ++ [.footer]) = links ends := by
  rw [links_append, links_append, links_lines, List.nil_append]
  exact List.append_nil _

/-! ## Keys -/

theorem page_key : "&page=".toList = '&' :: ("page".toList ++ ['=']) := by decide
theorem nbOfStories_key : "&nbOfStories=".toList = '&' :: ("nbOfStories".toList ++ ['=']) := by decide
theorem day_key : "day=".toList = "day".toList ++ ['='] := by decide
theorem month_key : "&month=".toList = '&' :: ("month".toList ++ ['=']) := by decide
theorem year_key : "&year=".toList = '&' :: ("year".toList ++ ['=']) := by decide
theorem category_key : "category=".toList = "category".toList ++ ['='] := by decide
theorem categoryName_key : "&categoryName=".toList = '&' :: ("categoryName".toList ++ ['=']) := by decide
theorem unnumbered_key : "&nbOfStories=nbOfStories".toList = '&' :: ("nbOfStories".toList ++ '=' :: "nbOfStories".toList) := by
  decide
theorem search_key : "search=".toList = "search".toList ++ ['='] := by decide
theorem type_key : "&type=".toList = '&' :: ("type".toList ++ ['=']) := by decide
theorem eq_key : "=".toList = ['='] := by decide

/-! ## OlderStories -/

namespace OlderStories

theorem params_eq_ok_iff {request : Request} {p : Params} :
    params request = .ok p ↔ intParameter request "page" 0 = .ok p.page ∧
      intParameter request "nbOfStories" 25 = .ok p.nbOfStories ∧
      request.getParameter "day".toList = p.day ∧ request.getParameter "month".toList = p.month ∧
      request.getParameter "year".toList = p.year := by
  unfold params
  cases intParameter request "page" 0 with
  | error e => simp [bind, Except.bind]
  | ok page =>
    cases intParameter request "nbOfStories" 25 with
    | error e => simp [bind, Except.bind]
    | ok n =>
      cases p
      simp [bind, Except.bind, pure, Except.pure]

/-- the fields of a link -/
def fields (name value month year : Text) (page nbOfStories : ℤ) : List (Text × Text) :=
  [(name, value), ("month".toList, month), ("year".toList, year), ("page".toList, longText (wrapInt page)),
    ("nbOfStories".toList, longText nbOfStories)]

theorem query_day (day month year : Text) (page nbOfStories : ℤ) :
    query "day=".toList day month year page nbOfStories =
      Urlencoded.query (fields "day".toList day month year page nbOfStories) := by
  unfold query pageQuery fields
  rw [day_key, month_key, year_key, page_key, nbOfStories_key]
  simp only [Urlencoded.query, List.append_assoc, List.cons_append, List.nil_append]

theorem query_category (day month year : Text) (page nbOfStories : ℤ) :
    query ("category=".toList ++ day ++ "=".toList) day month year page nbOfStories =
      Urlencoded.query (fields "category".toList (day ++ '=' :: day) month year page nbOfStories) := by
  unfold query pageQuery fields
  rw [category_key, eq_key, month_key, year_key, page_key, nbOfStories_key]
  simp only [Urlencoded.query, List.append_assoc, List.cons_append, List.nil_append]

variable (codec : Codec) {p : Params} {day month year : Text}

/-- a link leads to the page it is for, with the other parameters as they are -/
def Returns (p : Params) (l : Link) : Prop := params (follow codec l) = .ok { p with page := l.label.page p.page }

variable {codec}

theorem names_fields {name : Text} (hname : name = "day".toList ∨ name = "category".toList) (value month year : Text)
    (page nbOfStories : ℤ) :
    (∀ f ∈ fields name value month year page nbOfStories, Name f.1) ∧
      ((fields name value month year page nbOfStories).map Prod.fst).Nodup := by
  have hmap : (fields name value month year page nbOfStories).map Prod.fst =
      [name, "month".toList, "year".toList, "page".toList, "nbOfStories".toList] := rfl
  rw [hmap, ← List.forall_mem_map (f := Prod.fst), hmap]
  rcases hname with rfl | rfl
  · exact ⟨by decide, by decide⟩
  · exact ⟨by decide, by decide⟩

/-- fields with clean texts are read back -/
theorem getParameter_fields (codec : Codec) {name : Text} (hname : name = "day".toList ∨ name = "category".toList)
    {value month year : Text} (hvalue : Clean value) (hmonth : Clean month) (hyear : Clean year) (page nbOfStories : ℤ) :
    ∀ f ∈ fields name value month year page nbOfStories,
      getParameter codec (Urlencoded.query (fields name value month year page nbOfStories)) f.1 = some f.2 := by
  obtain ⟨hnames, hnodup⟩ := names_fields hname value month year page nbOfStories
  have hclean : ∀ f ∈ fields name value month year page nbOfStories, Clean f.2 := by
    simp only [fields, List.forall_mem_cons, List.not_mem_nil, false_imp_iff, implies_true, and_true]
    exact ⟨hvalue, hmonth, hyear, clean_longText _, clean_longText _⟩
  exact fun f hf => getParameter_of_clean codec hnames hnodup (fun g hg => (hclean g hg).1) hf (hclean f hf)

/-- the link with a date: it returns if the texts of the date are clean and the page does not overflow -/
theorem returns_day_iff (hp : p.day = some day ∧ p.month = some month ∧ p.year = some year)
    (hn : -2 ^ 31 ≤ p.nbOfStories ∧ p.nbOfStories < 2 ^ 31) (label : Label) :
    Returns codec p ⟨label, query "day=".toList day month year (label.page p.page) p.nbOfStories⟩ ↔
      (Clean day ∧ Clean month ∧ Clean year) ∧ wrapInt (label.page p.page) = label.page p.page := by
  generalize hpage : label.page p.page = page
  rw [query_day, Returns, params_eq_ok_iff, hp.1, hp.2.1, hp.2.2]
  obtain ⟨hnames, hnodup⟩ := names_fields (.inl rfl) day month year page p.nbOfStories
  have hpageget : (Clean day ∧ Clean month ∧ Clean year) →
      intParameter (follow codec ⟨label, Urlencoded.query (fields "day".toList day month year page p.nbOfStories)⟩) "page" 0 =
        .ok (wrapInt page) := by
    rintro ⟨hd, hm, hy⟩
    have hget := getParameter_fields codec (.inl rfl) hd hm hy page p.nbOfStories ("page".toList, longText (wrapInt page))
      (.tail _ (.tail _ (.tail _ (.head _))))
    rw [intParameter_of_some hget, parseInt_wrapInt]
  constructor
  · rintro ⟨hpg, -, hd, hm, hy⟩
    have hall := (clean_of_getParameter codec hnames hnodup (by
      simp only [fields, List.forall_mem_cons, List.not_mem_nil, false_imp_iff, implies_true, and_true]
      exact ⟨fun _ => hd, fun _ => hm, fun _ => hy, fun h => absurd (clean_longText _).1 h,
        fun h => absurd (clean_longText _).1 h⟩)).2
    have hclean : Clean day ∧ Clean month ∧ Clean year :=
      ⟨hall (_, _) (.head _) hd, hall (_, _) (.tail _ (.head _)) hm, hall (_, _) (.tail _ (.tail _ (.head _))) hy⟩
    rw [hpageget hclean] at hpg
    exact ⟨hclean, (Except.ok.inj hpg).trans hpage⟩
  · rintro ⟨⟨hd, hm, hy⟩, hwrap⟩
    have hget := getParameter_fields codec (.inl rfl) hd hm hy page p.nbOfStories
    refine ⟨?_, ?_, hget ("day".toList, day) (.head _), hget ("month".toList, month) (.tail _ (.head _)),
      hget ("year".toList, year) (.tail _ (.tail _ (.head _)))⟩
    · rw [hpageget ⟨hd, hm, hy⟩, hwrap]
      exact congrArg _ hpage.symm
    · have hnb := hget ("nbOfStories".toList, longText p.nbOfStories) (.tail _ (.tail _ (.tail _ (.tail _ (.head _)))))
      rw [intParameter_of_some hnb, Html.parseInt_longText hn]

/-- the link without a parameter day does not return -/
theorem not_returns_category (hp : p.day = some day) (hclean : Clean day ∧ Clean month ∧ Clean year) (label : Label) (page : ℤ) :
    ¬ Returns codec p ⟨label, query ("category=".toList ++ day ++ "=".toList) day month year page p.nbOfStories⟩ := by
  rw [query_category, Returns, params_eq_ok_iff, hp]
  rintro ⟨-, -, hd, -, -⟩
  obtain ⟨hnames, -⟩ := names_fields (.inr rfl) (day ++ '=' :: day) month year page p.nbOfStories
  have hwhole : ∀ f ∈ fields "category".toList (day ++ '=' :: day) month year page p.nbOfStories, Whole f.2 := by
    simp only [fields, List.forall_mem_cons, List.not_mem_nil, false_imp_iff, implies_true, and_true]
    refine ⟨?_, hclean.2.1.1, hclean.2.2.1, (clean_longText _).1, (clean_longText _).1⟩
    intro c hc
    rcases List.mem_append.1 hc with hc | hc
    · exact hclean.1.1 c hc
    · rcases List.mem_cons.1 hc with rfl | hc
      · exact ⟨rfl, rfl⟩
      · exact hclean.1.1 c hc
  have hday : "day".toList ∉ (fields "category".toList (day ++ '=' :: day) month year page p.nbOfStories).map Prod.fst := by
    have hmap : (fields "category".toList (day ++ '=' :: day) month year page p.nbOfStories).map Prod.fst =
      ["category".toList, "month".toList, "year".toList, "page".toList, "nbOfStories".toList] := rfl
    rw [hmap]
    decide
  have hnone := getParameter_eq_none codec (List.cons_ne_nil _ _) hnames hwhole hday
  have heq : some day = none := hd.symm.trans hnone
  cases heq

section Links

variable (execute : Statement → Except Unit (List Row))

/-- both tables have no rows for the page -/
def NothingLeft (p : Params) (day month year : Text) : Prop :=
  execute (statement p day month year .stories) = .ok [] ∧ execute (statement p day month year .old_stories) = .ok []

/-- one of them has rows -/
def Found (p : Params) (day month year : Text) : Prop :=
  (∃ r rs, execute (statement p day month year .stories) = .ok (r :: rs)) ∨
    execute (statement p day month year .stories) = .ok [] ∧
      ∃ r rs, execute (statement p day month year .old_stories) = .ok (r :: rs)

/-- when the links of a page return -/
def LinksReturn (p : Params) : Prop :=
  ∀ day ∈ p.day, ∀ month ∈ p.month, ∀ year ∈ p.year,
    (NothingLeft execute p day month year → p.page ≠ 0 → Clean day ∧ Clean month ∧ Clean year) ∧
    (Found execute p day month year → p.page = 0 ∧ Clean day ∧ Clean month ∧ Clean year)

theorem links_results (p : Params) (day month year : Text) :
    (NothingLeft execute p day month year ∧ ¬ Found execute p day month year ∧
      links (results execute p day month year) = links (nothing p day month year)) ∨
    (¬ NothingLeft execute p day month year ∧ Found execute p day month year ∧
      links (results execute p day month year) = links (pageLinks p day month year)) ∨
    (¬ NothingLeft execute p day month year ∧ ¬ Found execute p day month year ∧
      links (results execute p day month year) = []) := by
  have hrows (rows : List Row) := links_list Row.line rows (pageLinks p day month year)
  unfold NothingLeft Found results listed find
  cases hnew : execute (statement p day month year .stories) with
  | error e => exact .inr (.inr ⟨by simp, by simp, rfl⟩)
  | ok rows =>
    cases rows with
    | cons r rs => exact .inr (.inl ⟨by simp, by simp, hrows rs⟩)
    | nil =>
      cases hold : execute (statement p day month year .old_stories) with
      | error e => exact .inr (.inr ⟨by simp, by simp, rfl⟩)
      | ok rows =>
        cases rows with
        | nil => exact .inl ⟨by simp, by simp, rfl⟩
        | cons r rs => exact .inr (.inl ⟨by simp, by simp, hrows rs⟩)

variable {execute}

theorem links_page (hp : p.day = some day ∧ p.month = some month ∧ p.year = some year) :
    links (page execute p) = links (results execute p day month year) := by
  have hpage : page execute p = [.header "RUBBoS Older Stories".toList] ++ dateChooser ++
      ([html "<br><h2>Stories of the ", .text day, html "/", .text month, html "/", .text year, html "</h2></center><br>"] ++
        results execute p day month year) := by
    unfold page
    rw [hp.1, hp.2.1, hp.2.2]
    rfl
  rw [hpage, links_append, links_append, links_append, links_dateChooser]
  rfl

theorem links_page_eq_nil (hp : p.day = none ∨ p.month = none ∨ p.year = none) : links (page execute p) = [] := by
  have hpage : page execute p = [.header "RUBBoS Older Stories".toList] ++ dateChooser ++
      [html "<br><h2>Please select a date</h2><br>", .footer] := by
    unfold page
    split
    · next hd hm hy => simp [hd, hm, hy] at hp
    · rfl
  rw [hpage, links_append, links_append, links_dateChooser]
  rfl

/-- the links of a page with a date -/
theorem links_return_iff_of_some (hp : p.day = some day ∧ p.month = some month ∧ p.year = some year)
    (hn : -2 ^ 31 ≤ p.nbOfStories ∧ p.nbOfStories < 2 ^ 31) (hpage : 0 ≤ p.page ∧ p.page < 2 ^ 31) :
    (∀ l ∈ links (page execute p), Returns codec p l) ↔
      (NothingLeft execute p day month year → p.page ≠ 0 → Clean day ∧ Clean month ∧ Clean year) ∧
      (Found execute p day month year → p.page = 0 ∧ Clean day ∧ Clean month ∧ Clean year) := by
  have hprevious : Returns codec p ⟨.previous, query "day=".toList day month year (p.page - 1) p.nbOfStories⟩ ↔
      Clean day ∧ Clean month ∧ Clean year := by
    refine (returns_day_iff hp hn .previous).trans (and_iff_left (wrapInt_eq_iff.2 ?_))
    simp only [Label.page]
    omega
  have hnext (h0 : p.page = 0) : Returns codec p ⟨.next, query "day=".toList day month year (p.page + 1) p.nbOfStories⟩ ↔
      Clean day ∧ Clean month ∧ Clean year := by
    refine (returns_day_iff hp hn .next).trans (and_iff_left (wrapInt_eq_iff.2 ?_))
    simp only [Label.page]
    omega
  rw [links_page hp]
  rcases links_results execute p day month year with ⟨hn, hf, hlinks⟩ | ⟨hn, hf, hlinks⟩ | ⟨hn, hf, hlinks⟩
  · rw [hlinks]
    by_cases h0 : p.page = 0
    · simp [nothing, links, html, h0, hf]
    · have hone : links (nothing p day month year) =
          [⟨.previous, query "day=".toList day month year (p.page - 1) p.nbOfStories⟩] := by
        rw [nothing, if_neg h0]
        rfl
      rw [hone, List.forall_mem_singleton, hprevious]
      simp [hn, hf, h0]
  · rw [hlinks]
    by_cases h0 : p.page = 0
    · have hone : links (pageLinks p day month year) =
          [⟨.next, query "day=".toList day month year (p.page + 1) p.nbOfStories⟩] := by
        rw [pageLinks, if_pos h0]
        rfl
      rw [hone, List.forall_mem_singleton, hnext h0]
      simp [hn, hf, h0]
    · have htwo : links (pageLinks p day month year) =
          [⟨.previous, query "day=".toList day month year (p.page - 1) p.nbOfStories⟩,
            ⟨.next, query ("category=".toList ++ day ++ "=".toList) day month year (p.page + 1) p.nbOfStories⟩] := by
        rw [pageLinks, if_neg h0]
        rfl
      rw [htwo, List.forall_mem_cons, List.forall_mem_singleton, hprevious]
      refine iff_of_false (fun h => ?_) (fun h => h0 (h.2 hf).1)
      exact not_returns_category hp.1 h.1 .next (p.page + 1) h.2
  · rw [hlinks]
    simp [hn, hf]

theorem links_return_iff {request : Request} (hread : params request = .ok p) (hpage : 0 ≤ p.page) :
    (∀ l ∈ links (page execute p), Returns codec p l) ↔ LinksReturn execute p := by
  obtain ⟨hpg, hnb, -⟩ := params_eq_ok_iff.1 hread
  have hrange := intParameter_range (by decide) hpg
  have hn := intParameter_range (by decide) hnb
  have hnone (h : p.day = none ∨ p.month = none ∨ p.year = none) : ∀ l ∈ links (page execute p), Returns codec p l := by
    rw [links_page_eq_nil h]
    exact List.forall_mem_nil _
  unfold LinksReturn
  cases hday : p.day with
  | none => exact iff_of_true (hnone (.inl hday)) (by simp)
  | some day =>
    cases hmonth : p.month with
    | none => exact iff_of_true (hnone (.inr (.inl hmonth))) (by simp)
    | some month =>
      cases hyear : p.year with
      | none => exact iff_of_true (hnone (.inr (.inr hyear))) (by simp)
      | some year =>
        rw [links_return_iff_of_some ⟨hday, hmonth, hyear⟩ hn ⟨hpage, hrange.2⟩]
        simp

/-- next and back, from a page whose links return to one whose links return -/
theorem roundTrip {request : Request} (hread : params request = .ok p) (hpage : 0 ≤ p.page)
    (hp : LinksReturn execute p) (hq : LinksReturn execute { p with page := p.page + 1 }) :
    RoundTrip codec params (page execute) p := by
  intro next hmem hlabel
  have hnext : Returns codec p next := (links_return_iff hread hpage).2 hp next hmem
  rw [Returns, hlabel] at hnext
  refine ⟨_, hnext, fun previous hmem' hlabel' => ?_⟩
  have hprevious : Returns codec _ previous := (links_return_iff hnext (add_nonneg hpage zero_le_one)).2 hq previous hmem'
  rw [Returns, hlabel'] at hprevious
  simpa [Label.page] using hprevious

end Links

end OlderStories

/-! ## BrowseStoriesByCategory -/

namespace BrowseStoriesByCategory

theorem params_eq_ok_iff {request : Request} {p : Params} :
    params request = .ok p ↔ intParameter request "page" 0 = .ok p.page ∧
      (∃ n, intParameter request "nbOfStories" 0 = .ok n ∧ (if n = 0 then 25 else n) = p.nbOfStories) ∧
      request.getParameter "category".toList = p.category ∧ request.getParameter "categoryName".toList = p.categoryName := by
  unfold params
  cases intParameter request "page" 0 with
  | error e => simp [bind, Except.bind]
  | ok page =>
    cases intParameter request "nbOfStories" 0 with
    | error e => simp [bind, Except.bind]
    | ok n =>
      cases p
      simp [bind, Except.bind, pure, Except.pure]

variable (codec : Codec) {p : Params} {categoryId categoryName : Text}

/-- the fields of a link -/
def fields (categoryId categoryName : Text) (page : ℤ) (nbOfStories : Text) : List (Text × Text) :=
  [("category".toList, categoryId), ("categoryName".toList, encode codec.bytes categoryName),
    ("page".toList, longText (wrapInt page)), ("nbOfStories".toList, nbOfStories)]

theorem query_page (categoryId categoryName : Text) (page nbOfStories : ℤ) :
    query codec.bytes categoryId categoryName ++ pageQuery page nbOfStories =
      Urlencoded.query (fields codec categoryId categoryName page (longText nbOfStories)) := by
  unfold query pageQuery fields
  rw [category_key, categoryName_key, page_key, nbOfStories_key]
  simp only [Urlencoded.query, List.append_assoc, List.cons_append, List.nil_append]

theorem query_unnumbered (categoryId categoryName : Text) (page : ℤ) :
    query codec.bytes categoryId categoryName ++ "&page=".toList ++ longText (wrapInt page) ++
        "&nbOfStories=nbOfStories".toList =
      Urlencoded.query (fields codec categoryId categoryName page "nbOfStories".toList) := by
  unfold query fields
  rw [category_key, categoryName_key, page_key, unnumbered_key]
  simp only [Urlencoded.query, List.append_assoc, List.cons_append, List.nil_append]

/-- a link leads to the page it is for, with the other parameters as they are -/
def Returns (p : Params) (l : Link) : Prop := params (follow codec l) = .ok { p with page := l.label.page p.page }

theorem names_fields (categoryId categoryName : Text) (page : ℤ) (nbOfStories : Text) :
    (∀ f ∈ fields codec categoryId categoryName page nbOfStories, Name f.1) ∧
      ((fields codec categoryId categoryName page nbOfStories).map Prod.fst).Nodup := by
  have hmap : (fields codec categoryId categoryName page nbOfStories).map Prod.fst =
      ["category".toList, "categoryName".toList, "page".toList, "nbOfStories".toList] := rfl
  rw [hmap, ← List.forall_mem_map (f := Prod.fst), hmap]
  exact ⟨by decide, by decide⟩

/-- a clean category, the encoded name, the page and the number are read back -/
theorem getParameter_fields (categoryName : Text) {nbOfStories : Text} (hid : Clean categoryId) (hnb : Clean nbOfStories)
    (page : ℤ) :
    getParameter codec (Urlencoded.query (fields codec categoryId categoryName page nbOfStories)) "category".toList =
      some categoryId ∧
    getParameter codec (Urlencoded.query (fields codec categoryId categoryName page nbOfStories)) "categoryName".toList =
      some categoryName ∧
    getParameter codec (Urlencoded.query (fields codec categoryId categoryName page nbOfStories)) "page".toList =
      some (longText (wrapInt page)) ∧
    getParameter codec (Urlencoded.query (fields codec categoryId categoryName page nbOfStories)) "nbOfStories".toList =
      some nbOfStories := by
  obtain ⟨hnames, hnodup⟩ := names_fields codec categoryId categoryName page nbOfStories
  have hwhole : ∀ f ∈ fields codec categoryId categoryName page nbOfStories, Whole f.2 := by
    simp only [fields, List.forall_mem_cons, List.not_mem_nil, false_imp_iff, implies_true, and_true]
    exact ⟨hid.1, whole_encode _ _, (clean_longText _).1, hnb.1⟩
  have hclean (f : Text × Text) (hf : f ∈ fields codec categoryId categoryName page nbOfStories) (hc : Clean f.2) :
      getParameter codec (Urlencoded.query (fields codec categoryId categoryName page nbOfStories)) f.1 = some f.2 :=
    getParameter_of_clean codec hnames hnodup hwhole hf hc
  have hdecode : decode codec (encode codec.bytes categoryName) = some categoryName := decode_encode categoryName
  have hname := getParameter_query codec hnames hnodup hwhole (f := ("categoryName".toList, encode codec.bytes categoryName))
    (.tail _ (.head _)) (by rw [hdecode]; rfl)
  exact ⟨hclean _ (.head _) hid, hname.trans hdecode, hclean (_, _) (.tail _ (.tail _ (.head _))) (clean_longText _),
    hclean (_, _) (.tail _ (.tail _ (.tail _ (.head _)))) hnb⟩

/-- a category that is read back is clean -/
theorem clean_categoryId {page : ℤ} {nbOfStories : Text} (hnb : Clean nbOfStories)
    (h : getParameter codec (Urlencoded.query (fields codec categoryId categoryName page nbOfStories)) "category".toList =
      some categoryId) : Clean categoryId := by
  obtain ⟨hnames, hnodup⟩ := names_fields codec categoryId categoryName page nbOfStories
  refine (clean_of_getParameter codec hnames hnodup ?_).2 (_, _) (.head _) h
  simp only [fields, List.forall_mem_cons, List.not_mem_nil, false_imp_iff, implies_true, and_true]
  exact ⟨fun _ => h, fun hw => absurd (whole_encode _ _) hw, fun hw => absurd (clean_longText _).1 hw, fun hw => absurd hnb.1 hw⟩

variable {codec}

/-- the link with all parameters returns if the category is clean and the page does not overflow -/
theorem returns_page_iff (hp : p.category = some categoryId ∧ p.categoryName = some categoryName)
    (hn : p.nbOfStories ≠ 0 ∧ -2 ^ 31 ≤ p.nbOfStories ∧ p.nbOfStories < 2 ^ 31) (label : Label) :
    Returns codec p ⟨label, query codec.bytes categoryId categoryName ++ pageQuery (label.page p.page) p.nbOfStories⟩ ↔
      Clean categoryId ∧ wrapInt (label.page p.page) = label.page p.page := by
  generalize hpage : label.page p.page = page
  rw [query_page, Returns, params_eq_ok_iff, hp.1, hp.2]
  constructor
  · rintro ⟨hpg, -, hid, -⟩
    have hclean := clean_categoryId codec (clean_longText _) hid
    obtain ⟨-, -, hget, -⟩ := getParameter_fields codec categoryName hclean (clean_longText p.nbOfStories) page
    rw [intParameter_of_some hget, parseInt_wrapInt] at hpg
    exact ⟨hclean, (Except.ok.inj hpg).trans hpage⟩
  · rintro ⟨hclean, hwrap⟩
    obtain ⟨hid, hname, hget, hnb⟩ :=
      getParameter_fields codec categoryName hclean (clean_longText p.nbOfStories) page
    refine ⟨?_, ⟨p.nbOfStories, ?_, if_neg hn.1⟩, hid, hname⟩
    · rw [intParameter_of_some hget, parseInt_wrapInt, hwrap]
      exact congrArg _ hpage.symm
    · rw [intParameter_of_some hnb, Html.parseInt_longText hn.2]

/-- the link with the name of a variable for the number of stories does not return -/
theorem not_returns_unnumbered (hp : p.category = some categoryId) (categoryName : Text) (label : Label) (page : ℤ) :
    ¬ Returns codec p ⟨label, query codec.bytes categoryId categoryName ++ "&page=".toList ++ longText (wrapInt page) ++
      "&nbOfStories=nbOfStories".toList⟩ := by
  rw [query_unnumbered, Returns, params_eq_ok_iff, hp]
  rintro ⟨-, ⟨n, hnb, -⟩, hid, -⟩
  have hword : Clean "nbOfStories".toList := by decide
  have hclean := clean_categoryId codec hword hid
  obtain ⟨-, -, -, hget⟩ := getParameter_fields codec categoryName hclean hword page
  have hword' : parseInt "nbOfStories".toList = .error .numberFormat := by decide
  rw [intParameter_of_some hget, hword'] at hnb
  cases hnb

section Links

variable (execute : Statement → Except Unit (List Row))

/-- the statement for the page -/
def statement (p : Params) (categoryId : Text) : Statement := ⟨categoryId, p.nbOfStories, wrapInt (p.page * p.nbOfStories)⟩

/-- when the links of a page return -/
def LinksReturn (p : Params) : Prop :=
  ∀ categoryId ∈ p.category, ∀ categoryName ∈ p.categoryName,
    (execute (statement p categoryId) = .ok [] → p.page = 0) ∧
    ((∃ r rs, execute (statement p categoryId) = .ok (r :: rs)) → Clean categoryId ∧ p.page + 1 < 2 ^ 31)

variable (codec)

theorem links_results (p : Params) (categoryId categoryName : Text) :
    (execute (statement p categoryId) = .ok [] ∧
      links (results codec.bytes execute p categoryId categoryName) = links (nothing codec.bytes p categoryId categoryName)) ∨
    (∃ r rs, execute (statement p categoryId) = .ok (r :: rs) ∧
      links (results codec.bytes execute p categoryId categoryName) = links (pageLinks codec.bytes p categoryId categoryName)) ∨
    (∃ e, execute (statement p categoryId) = .error e ∧ links (results codec.bytes execute p categoryId categoryName) = []) := by
  have hrows (rows : List Row) := links_list Row.line rows (pageLinks codec.bytes p categoryId categoryName)
  unfold results listed
  cases hrs : execute (statement p categoryId) with
  | error e =>
    refine .inr (.inr ⟨e, rfl, ?_⟩)
    rw [show execute ⟨categoryId, p.nbOfStories, wrapInt (p.page * p.nbOfStories)⟩ = .error e from hrs]
    rfl
  | ok rows =>
    rw [show execute ⟨categoryId, p.nbOfStories, wrapInt (p.page * p.nbOfStories)⟩ = .ok rows from hrs]
    cases rows with
    | nil => exact .inl ⟨rfl, rfl⟩
    | cons r rs => exact .inr (.inl ⟨r, rs, rfl, hrows (r :: rs)⟩)

variable {codec execute}

theorem links_page (hp : p.category = some categoryId ∧ p.categoryName = some categoryName) :
    links (page codec.bytes execute p) = links (results codec.bytes execute p categoryId categoryName) := by
  unfold page
  rw [hp.1, hp.2]
  rfl

theorem links_page_eq_nil (hp : p.category = none ∨ p.categoryName = none) : links (page codec.bytes execute p) = [] := by
  unfold page
  split
  · rfl
  · rfl
  · next hn hc => simp [hn, hc] at hp

/-- the links of a page with a category -/
theorem links_return_iff_of_some (hp : p.category = some categoryId ∧ p.categoryName = some categoryName)
    (hn : p.nbOfStories ≠ 0 ∧ -2 ^ 31 ≤ p.nbOfStories ∧ p.nbOfStories < 2 ^ 31) (hpage : 0 ≤ p.page ∧ p.page < 2 ^ 31) :
    (∀ l ∈ links (page codec.bytes execute p), Returns codec p l) ↔
      (execute (statement p categoryId) = .ok [] → p.page = 0) ∧
      ((∃ r rs, execute (statement p categoryId) = .ok (r :: rs)) → Clean categoryId ∧ p.page + 1 < 2 ^ 31) := by
  have hprevious : Returns codec p ⟨.previous, query codec.bytes categoryId categoryName ++
      pageQuery (p.page - 1) p.nbOfStories⟩ ↔ Clean categoryId := by
    refine (returns_page_iff hp hn .previous).trans (and_iff_left (wrapInt_eq_iff.2 ?_))
    simp only [Label.page]
    omega
  have hnext : Returns codec p ⟨.next, query codec.bytes categoryId categoryName ++
      pageQuery (p.page + 1) p.nbOfStories⟩ ↔ Clean categoryId ∧ p.page + 1 < 2 ^ 31 := by
    refine (returns_page_iff hp hn .next).trans (and_congr_right fun _ => wrapInt_eq_iff.trans ?_)
    simp only [Label.page]
    omega
  rw [links_page hp]
  rcases links_results codec execute p categoryId categoryName with ⟨hrs, hlinks⟩ | ⟨r, rs, hrs, hlinks⟩ | ⟨e, hrs, hlinks⟩
  · rw [hlinks, hrs]
    by_cases h0 : p.page = 0
    · simp [nothing, links, html, h0]
    · refine iff_of_false (fun h => ?_) (fun h => h0 (h.1 rfl))
      refine not_returns_unnumbered hp.1 categoryName .previous (p.page - 1) (h _ ?_)
      rw [nothing, if_neg h0]
      exact .head _
  · rw [hlinks, hrs]
    by_cases h0 : p.page = 0
    · have hone : links (pageLinks codec.bytes p categoryId categoryName) =
          [⟨.next, query codec.bytes categoryId categoryName ++ pageQuery (p.page + 1) p.nbOfStories⟩] := by
        rw [pageLinks, if_pos h0]
        rfl
      rw [hone, List.forall_mem_singleton, hnext]
      simp [h0]
    · have htwo : links (pageLinks codec.bytes p categoryId categoryName) =
          [⟨.previous, query codec.bytes categoryId categoryName ++ pageQuery (p.page - 1) p.nbOfStories⟩,
            ⟨.next, query codec.bytes categoryId categoryName ++ pageQuery (p.page + 1) p.nbOfStories⟩] := by
        rw [pageLinks, if_neg h0]
        rfl
      rw [htwo, List.forall_mem_cons, List.forall_mem_singleton, hprevious, hnext]
      simp
  · rw [hlinks, hrs]
    simp

theorem links_return_iff {request : Request} (hread : params request = .ok p) (hpage : 0 ≤ p.page) :
    (∀ l ∈ links (page codec.bytes execute p), Returns codec p l) ↔ LinksReturn execute p := by
  obtain ⟨hpg, ⟨n, hnb, hn⟩, -⟩ := params_eq_ok_iff.1 hread
  have hrange := intParameter_range (by decide) hpg
  have hnrange := intParameter_range (by decide) hnb
  have hn' : p.nbOfStories ≠ 0 ∧ -2 ^ 31 ≤ p.nbOfStories ∧ p.nbOfStories < 2 ^ 31 := by
    rw [← hn]
    split <;> omega
  have hnone (h : p.category = none ∨ p.categoryName = none) : ∀ l ∈ links (page codec.bytes execute p), Returns codec p l := by
    rw [links_page_eq_nil h]
    exact List.forall_mem_nil _
  unfold LinksReturn
  cases hid : p.category with
  | none => exact iff_of_true (hnone (.inl hid)) (by simp)
  | some categoryId =>
    cases hname : p.categoryName with
    | none => exact iff_of_true (hnone (.inr hname)) (by simp)
    | some categoryName =>
      rw [links_return_iff_of_some ⟨hid, hname⟩ hn' ⟨hpage, hrange.2⟩]
      simp

/-- next and back, from a page whose links return to one whose links return -/
theorem roundTrip {request : Request} (hread : params request = .ok p) (hpage : 0 ≤ p.page)
    (hp : LinksReturn execute p) (hq : LinksReturn execute { p with page := p.page + 1 }) :
    RoundTrip codec params (page codec.bytes execute) p := by
  intro next hmem hlabel
  have hnext : Returns codec p next := (links_return_iff hread hpage).2 hp next hmem
  rw [Returns, hlabel] at hnext
  refine ⟨_, hnext, fun previous hmem' hlabel' => ?_⟩
  have hprevious : Returns codec _ previous := (links_return_iff hnext (add_nonneg hpage zero_le_one)).2 hq previous hmem'
  rw [Returns, hlabel'] at hprevious
  simpa [Label.page] using hprevious

end Links

end BrowseStoriesByCategory

/-! ## Search -/

namespace Search

theorem params_eq_ok_iff {request : Request} {p : Params} :
    params request = .ok p ↔ intParameter request "type" 0 = .ok p.type ∧ intParameter request "page" 0 = .ok p.page ∧
      p.nbOfStories = 25 ∧ request.getParameter "search".toList = p.search := by
  unfold params
  cases intParameter request "type" 0 with
  | error e => simp [bind, Except.bind]
  | ok type =>
    cases intParameter request "page" 0 with
    | error e => simp [bind, Except.bind]
    | ok page =>
      cases p
      simp [bind, Except.bind, pure, Except.pure, eq_comm]

variable (codec : Codec) {p : Params} {search : Text}

/-- the fields of a link behind the first one -/
def pageFields (type page nbOfStories : ℤ) : List (Text × Text) :=
  [("type".toList, longText type), ("page".toList, longText (wrapInt page)), ("nbOfStories".toList, longText nbOfStories)]

theorem query_search (p : Params) (search : Text) (page : ℤ) :
    query codec.bytes p search "search=".toList page =
      Urlencoded.query (("search".toList, encode codec.bytes search) :: pageFields p.type page p.nbOfStories) := by
  unfold query pageQuery pageFields
  rw [search_key, type_key, page_key, nbOfStories_key]
  simp only [Urlencoded.query, List.append_assoc, List.cons_append, List.nil_append]

theorem query_category (p : Params) (search : Text) (page : ℤ) :
    query codec.bytes p search ("category=".toList ++ search ++ "=".toList) page =
      Urlencoded.query (("category".toList, search ++ '=' :: encode codec.bytes search) ::
        pageFields p.type page p.nbOfStories) := by
  unfold query pageQuery pageFields
  rw [category_key, eq_key, type_key, page_key, nbOfStories_key]
  simp only [Urlencoded.query, List.append_assoc, List.cons_append, List.nil_append]

/-- a link leads to the page it is for, with the other parameters as they are -/
def Returns (p : Params) (l : Link) : Prop := params (follow codec l) = .ok { p with page := l.label.page p.page }

theorem names_pageFields (type page nbOfStories : ℤ) :
    (pageFields type page nbOfStories).map Prod.fst = ["type".toList, "page".toList, "nbOfStories".toList] := rfl

theorem name_of_mem_pageFields {type page nbOfStories : ℤ} : ∀ f ∈ pageFields type page nbOfStories, Name f.1 := by
  rw [← List.forall_mem_map (f := Prod.fst), names_pageFields]
  decide

theorem clean_of_mem_pageFields {type page nbOfStories : ℤ} : ∀ f ∈ pageFields type page nbOfStories, Clean f.2 := by
  simp only [pageFields, List.forall_mem_cons, List.not_mem_nil, false_imp_iff, implies_true, and_true]
  exact ⟨clean_longText _, clean_longText _, clean_longText _⟩

/-- the parameters behind the first field -/
theorem getParameter_pageFields (type page nbOfStories : ℤ) :
    getParameter codec (Urlencoded.query (pageFields type page nbOfStories)) "search".toList = none ∧
    getParameter codec (Urlencoded.query (pageFields type page nbOfStories)) "type".toList = some (longText type) ∧
    getParameter codec (Urlencoded.query (pageFields type page nbOfStories)) "page".toList = some (longText (wrapInt page)) := by
  have hnodup : ((pageFields type page nbOfStories).map Prod.fst).Nodup := by
    rw [names_pageFields]
    decide
  have hsearch : "search".toList ∉ (pageFields type page nbOfStories).map Prod.fst := by
    rw [names_pageFields]
    decide
  have hwhole : ∀ f ∈ pageFields type page nbOfStories, Whole f.2 := fun f hf => (clean_of_mem_pageFields f hf).1
  have hget (f : Text × Text) (hf : f ∈ pageFields type page nbOfStories) :=
    getParameter_of_clean codec name_of_mem_pageFields hnodup hwhole hf (clean_of_mem_pageFields f hf)
  exact ⟨getParameter_eq_none codec (List.cons_ne_nil _ _) name_of_mem_pageFields hwhole hsearch, hget (_, _) (.head _),
    hget (_, _) (.tail _ (.head _))⟩

/-- the parameters of a link: those of the first field, then the others -/
theorem getParameter_cons {f : Text × Text} (hn : Name f.1) (hend : ∀ c ∈ f.2, isEnd c = false) (type page nbOfStories : ℤ)
    (name : Text) :
    getParameter codec (Urlencoded.query (f :: pageFields type page nbOfStories)) name =
      ((((f.1 ++ '=' :: f.2).splitOnP isAmp).filterMap (pairOf codec)).lookup name).or
        (getParameter codec (Urlencoded.query (pageFields type page nbOfStories)) name) := by
  unfold getParameter
  rw [pageFields, parameters_cons hn hend, List.lookup_append]

variable {codec}

/-- the link with the encoded text returns if the page does not overflow -/
theorem returns_search_iff (hp : p.search = some search) (hn : p.nbOfStories = 25) (htype : -2 ^ 31 ≤ p.type ∧ p.type < 2 ^ 31)
    (label : Label) :
    Returns codec p ⟨label, query codec.bytes p search "search=".toList (label.page p.page)⟩ ↔
      wrapInt (label.page p.page) = label.page p.page := by
  generalize hpage : label.page p.page = page
  rw [query_search, Returns, params_eq_ok_iff, hp]
  have hname : Name "search".toList := by decide
  have hwhole := whole_encode codec.bytes search
  have hparts : (("search".toList ++ '=' :: encode codec.bytes search).splitOnP isAmp).filterMap (pairOf codec) =
      [("search".toList, search)] := by
    have hdecode : decode codec (encode codec.bytes search) = some search := decode_encode search
    rw [splitOnP_field hname, List.splitOnP_eq_singleton (whole_iff.1 hwhole).2, List.modifyHead_cons, List.filterMap_cons,
      pairOf_append hname, hdecode]
    rfl
  have hget (name : Text) : getParameter codec (Urlencoded.query (("search".toList, encode codec.bytes search) ::
      pageFields p.type page p.nbOfStories)) name = (List.lookup name [("search".toList, search)]).or
        (getParameter codec (Urlencoded.query (pageFields p.type page p.nbOfStories)) name) := by
    rw [getParameter_cons codec hname (whole_iff.1 hwhole).1, hparts]
  obtain ⟨-, hgettype, hgetpage⟩ := getParameter_pageFields codec p.type page p.nbOfStories
  have hsearch := hget "search".toList
  have hgettype' := (hget "type".toList).trans hgettype
  have hgetpage' := (hget "page".toList).trans hgetpage
  constructor
  · intro h
    have hpg := h.2.1
    rw [intParameter_of_some hgetpage', parseInt_wrapInt] at hpg
    exact (Except.ok.inj hpg).trans hpage
  · intro hwrap
    refine ⟨?_, ?_, hn, hsearch⟩
    · rw [intParameter_of_some hgettype', Html.parseInt_longText htype]
    · rw [intParameter_of_some hgetpage', parseInt_wrapInt, hwrap]
      exact congrArg _ hpage.symm

variable (codec)

/-- a text whose last part is the name `search`: in a link to `category=search=…` it carries the parameter, and the parts
between its first and its last one must not spoil the others -/
structure Carried (search : Text) (type page : ℤ) : Prop where
  no_end : ∀ c ∈ search, isEnd c = false
  parts : ∃ first middle last, search.splitOnP isAmp = first :: (middle ++ [last]) ∧
    (∀ c ∈ last, isEq c = false) ∧ decode codec last = some "search".toList ∧
    (middle.filterMap (pairOf codec)).lookup "search".toList = none ∧
    (∀ text ∈ (middle.filterMap (pairOf codec)).lookup "type".toList, parseInt text = .ok type) ∧
    (∀ text ∈ (middle.filterMap (pairOf codec)).lookup "page".toList, parseInt text = .ok page)

/-- the parameters of the field `category`, for a text that has parts -/
theorem lookup_category {w v : Text} {first last : Text} {middle : List Text} (hv : ∀ c ∈ v, isAmp c = false)
    (hsplit : w.splitOnP isAmp = first :: (middle ++ [last])) {name : Text} (hname : name ≠ "category".toList) :
    ((("category".toList ++ '=' :: (w ++ v)).splitOnP isAmp).filterMap (pairOf codec)).lookup name =
      ((middle.filterMap (pairOf codec)).lookup name).or (([last ++ v].filterMap (pairOf codec)).lookup name) := by
  have hcategory : Name "category".toList := by decide
  have hparts : ("category".toList ++ '=' :: (w ++ v)).splitOnP isAmp =
      ("category".toList ++ '=' :: first) :: (middle ++ [last ++ v]) := by
    have hlast : w.splitOnP isAmp = (first :: middle) ++ [last] := hsplit
    rw [splitOnP_field hcategory, splitOnP_append_of_forall_right hv hlast]
    rfl
  rw [hparts, List.filterMap_cons, pairOf_append hcategory, ← List.lookup_append, ← List.filterMap_append]
  cases decode codec first with
  | none => rfl
  | some value =>
    rw [Option.map_some, List.lookup_cons, beq_false_of_ne hname]

section Carry

variable {type page nbOfStories : ℤ}

/-- the link to the next page of a later page -/
def carryQuery (search : Text) (type page nbOfStories : ℤ) : Text :=
  Urlencoded.query (("category".toList, search ++ '=' :: encode codec.bytes search) :: pageFields type page nbOfStories)

theorem category_name : Name "category".toList := by decide

theorem search_ne_category : "search".toList ≠ "category".toList := by decide

theorem no_end_carry (hend : ∀ c ∈ search, isEnd c = false) :
    ∀ c ∈ search ++ '=' :: encode codec.bytes search, isEnd c = false := by
  intro c hc
  rcases List.mem_append.1 hc with hc | hc
  · exact hend c hc
  · rcases List.mem_cons.1 hc with rfl | hc
    · rfl
    · exact (whole_encode codec.bytes search c hc).1

theorem no_amp_encode : ∀ c ∈ '=' :: encode codec.bytes search, isAmp c = false :=
  List.forall_mem_cons.2 ⟨rfl, (whole_iff.1 (whole_encode codec.bytes search)).2⟩

variable {codec}

/-- a text that is cut does not come back -/
theorem no_end_of_getParameter
    (h : getParameter codec (carryQuery codec search type page nbOfStories) "search".toList = some search) :
    ∀ c ∈ search, isEnd c = false := by
  by_contra hend
  have hcarry : ¬ ∀ c ∈ search ++ '=' :: encode codec.bytes search, isEnd c = false :=
    fun hall => hend fun c hc => hall c (List.mem_append_left _ hc)
  obtain ⟨hsent, hshort⟩ := sent_append_of_end hend ('=' :: encode codec.bytes search)
  have hmem := mem_of_lookup h
  rw [carryQuery, pageFields, query_cons, parameters_of_end category_name hcarry, hsent] at hmem
  rcases mem_parts category_name hmem with ⟨-, hname, -⟩ | ⟨-, hlt⟩
  · exact absurd hname search_ne_category
  · exact absurd (hlt.trans hshort) (lt_irrefl _)

/-- the parameters of the link, for a text with parts -/
theorem getParameter_carry {first last : Text} {middle : List Text} (hend : ∀ c ∈ search, isEnd c = false)
    (hsplit : search.splitOnP isAmp = first :: (middle ++ [last])) {name : Text} (hname : name ≠ "category".toList) :
    getParameter codec (carryQuery codec search type page nbOfStories) name =
      (((middle.filterMap (pairOf codec)).lookup name).or
        (([last ++ '=' :: encode codec.bytes search].filterMap (pairOf codec)).lookup name)).or
        (getParameter codec (Urlencoded.query (pageFields type page nbOfStories)) name) := by
  rw [carryQuery, getParameter_cons codec category_name (no_end_carry codec hend),
    lookup_category codec (no_amp_encode codec) hsplit hname]

/-- a text that comes back has parts -/
theorem parts_of_getParameter
    (h : getParameter codec (carryQuery codec search type page nbOfStories) "search".toList = some search) :
    ∃ first middle last, search.splitOnP isAmp = first :: (middle ++ [last]) ∧ ∀ x ∈ middle, x.length < search.length := by
  obtain ⟨first, rest, hsplit, hshort, ⟨-, -, hamp⟩ | ⟨-, hne, -⟩⟩ := splitOnP_parts search
  · have hcarry : ∀ c ∈ search ++ '=' :: encode codec.bytes search, isAmp c = false := by
      intro c hc
      rcases List.mem_append.1 hc with hc | hc
      · exact hamp c hc
      · exact no_amp_encode codec c hc
    have hend := no_end_carry codec (no_end_of_getParameter h)
    have hget := getParameter_cons codec (f := ("category".toList, search ++ '=' :: encode codec.bytes search)) category_name hend
      type page nbOfStories "search".toList
    rw [(getParameter_pageFields codec type page nbOfStories).1, Option.or_none] at hget
    rcases mem_parts category_name (mem_of_lookup (hget.symm.trans h)) with ⟨-, hname, -⟩ | ⟨hno, -⟩
    · exact absurd hname search_ne_category
    · exact absurd hcarry hno
  · have hlast : rest.dropLast ++ [rest.getLast hne] = rest := List.dropLast_append_getLast hne
    refine ⟨first, rest.dropLast, rest.getLast hne, ?_, fun x hx => hshort x (List.mem_of_mem_dropLast hx)⟩
    rw [hlast, hsplit]

/-- when the text comes back: its last part is the name `search` -/
theorem getParameter_search_iff :
    getParameter codec (carryQuery codec search type page nbOfStories) "search".toList = some search ↔
      (∀ c ∈ search, isEnd c = false) ∧ ∃ first middle last, search.splitOnP isAmp = first :: (middle ++ [last]) ∧
        (∀ c ∈ last, isEq c = false) ∧ decode codec last = some "search".toList ∧
        (middle.filterMap (pairOf codec)).lookup "search".toList = none := by
  have hnone := (getParameter_pageFields codec type page nbOfStories).1
  constructor
  · intro h
    have hend := no_end_of_getParameter h
    obtain ⟨first, middle, last, hsplit, hshort⟩ := parts_of_getParameter h
    rw [getParameter_carry hend hsplit search_ne_category, hnone, Option.or_none] at h
    -- a part in the middle is too short to have the text as its value
    have hmiddle : (middle.filterMap (pairOf codec)).lookup "search".toList = none := by
      cases hlookup : (middle.filterMap (pairOf codec)).lookup "search".toList with
      | none => rfl
      | some value =>
        obtain ⟨part, hpart, hpair⟩ := List.mem_filterMap.1 (mem_of_lookup hlookup)
        have hlt : value.length < search.length := (length_le_of_pairOf hpair).trans_lt (hshort part hpart)
        rw [hlookup, Option.some_or, Option.some.injEq] at h
        exact absurd (congrArg List.length h) hlt.ne
    rw [hmiddle, Option.none_or] at h
    obtain ⟨part, hpart, hpair⟩ := List.mem_filterMap.1 (mem_of_lookup h)
    rw [List.mem_singleton.1 hpart] at hpair
    obtain ⟨heq, hdecode⟩ := pairOf_encode_iff.1 hpair
    exact ⟨hend, first, middle, last, hsplit, heq, hdecode, hmiddle⟩
  · rintro ⟨hend, first, middle, last, hsplit, heq, hdecode, hmiddle⟩
    have hpair : pairOf codec (last ++ '=' :: encode codec.bytes search) = some ("search".toList, search) :=
      pairOf_encode_iff.2 ⟨heq, hdecode⟩
    rw [getParameter_carry hend hsplit search_ne_category, hmiddle, Option.none_or, List.filterMap_cons, hpair, hnone]
    rfl

/-- the link without a parameter search returns if the text carries one -/
theorem returns_category_iff (hp : p.search = some search) (hn : p.nbOfStories = 25)
    (htype : -2 ^ 31 ≤ p.type ∧ p.type < 2 ^ 31) (label : Label) :
    Returns codec p ⟨label, query codec.bytes p search ("category=".toList ++ search ++ "=".toList) (label.page p.page)⟩ ↔
      Carried codec search p.type (label.page p.page) ∧ wrapInt (label.page p.page) = label.page p.page := by
  generalize hpage : label.page p.page = page
  have hdef : follow codec ⟨label, query codec.bytes p search ("category=".toList ++ search ++ "=".toList) page⟩ =
      follow codec ⟨label, carryQuery codec search p.type page p.nbOfStories⟩ := by
    rw [query_category, carryQuery]
  rw [Returns, hdef, params_eq_ok_iff, hp, hpage]
  -- the numbers are those of the link, unless there is one in the middle of the text
  have hnumber {first last : Text} {middle : List Text} (hend : ∀ c ∈ search, isEnd c = false)
      (hsplit : search.splitOnP isAmp = first :: (middle ++ [last])) (heq : ∀ c ∈ last, isEq c = false)
      (hdecode : decode codec last = some "search".toList) {name text : Text} (hcategory : name ≠ "category".toList)
      (hsearch : name ≠ "search".toList)
      (hget : getParameter codec (Urlencoded.query (pageFields p.type page p.nbOfStories)) name = some text) :
      getParameter codec (carryQuery codec search p.type page p.nbOfStories) name =
        ((middle.filterMap (pairOf codec)).lookup name).or (some text) := by
    have hpair : pairOf codec (last ++ '=' :: encode codec.bytes search) = some ("search".toList, search) :=
      pairOf_encode_iff.2 ⟨heq, hdecode⟩
    rw [getParameter_carry hend hsplit hcategory, List.filterMap_cons, hpair, hget, List.filterMap_nil, List.lookup_cons,
      beq_false_of_ne hsearch, List.lookup_nil, Option.or_none]
  obtain ⟨-, hgettype, hgetpage⟩ := getParameter_pageFields codec p.type page p.nbOfStories
  constructor
  · rintro ⟨ht, hpg, -, hs⟩
    obtain ⟨hend, first, middle, last, hsplit, heq, hdecode, hmiddle⟩ := getParameter_search_iff.1 hs
    have ht' := (intParameter_or (hnumber hend hsplit heq hdecode (by decide) (by decide) hgettype) htype).1 ht
    have hpg' := (intParameter_or (hnumber hend hsplit heq hdecode (by decide) (by decide) hgetpage) (wrapInt_range page)).1 hpg
    refine ⟨⟨hend, first, middle, last, hsplit, heq, hdecode, hmiddle, ht'.1, hpg'.1⟩, ?_⟩
    cases hlookup : (middle.filterMap (pairOf codec)).lookup "page".toList with
    | none => exact hpg'.2 hlookup
    | some text => exact wrapInt_eq_iff.2 (parseInt_range (hpg'.1 text hlookup))
  · rintro ⟨⟨hend, first, middle, last, hsplit, heq, hdecode, hmiddle, ht, hpg⟩, hwrap⟩
    refine ⟨?_, ?_, hn, getParameter_search_iff.2 ⟨hend, first, middle, last, hsplit, heq, hdecode, hmiddle⟩⟩
    · exact (intParameter_or (hnumber hend hsplit heq hdecode (by decide) (by decide) hgettype) htype).2 ⟨ht, fun _ => rfl⟩
    · exact (intParameter_or (hnumber hend hsplit heq hdecode (by decide) (by decide) hgetpage) (wrapInt_range page)).2
        ⟨hpg, fun _ => hwrap⟩

example : Carried utf8 "a&search".toList 0 2 :=
  ⟨by decide, "a".toList, [], "search".toList, by decide, by decide, Name.decode (by decide), rfl, by simp, by simp⟩

end Carry

section Links

variable (execute : Statement → Except Unit (List Hit))

/-- where is searched, first and second -/
def sources (type : ℤ) : Option (Source × Source) :=
  if type = 0 then some (.stories, .old_stories) else if type = 1 then some (.comments, .old_comments)
  else if type = 2 then some (.authors, .old_authors) else none

def statement (p : Params) (search : Text) (source : Source) : Statement :=
  ⟨source, search, p.nbOfStories, wrapInt (p.page * p.nbOfStories)⟩

/-- one of two sources has rows for the page -/
def FoundIn (p : Params) (search : Text) (new old : Source) : Prop :=
  (∃ r rs, execute (statement p search new) = .ok (r :: rs)) ∨
    execute (statement p search new) = .ok [] ∧ ∃ r rs, execute (statement p search old) = .ok (r :: rs)

def Found (p : Params) (search : Text) : Prop := ∃ s ∈ sources p.type, FoundIn execute p search s.1 s.2

/-- when the links of a page return -/
def LinksReturn (p : Params) : Prop :=
  ∀ search ∈ p.search, Found execute p search →
    p.page = 0 ∨ Carried codec search p.type (p.page + 1) ∧ p.page + 1 < 2 ^ 31

theorem find_cases (p : Params) (search : Text) (new old : Source) :
    (FoundIn execute p search new old ∧ ∃ source hits, find execute p search new old = .ok (some (source, hits))) ∨
    (¬ FoundIn execute p search new old ∧
      (find execute p search new old = .ok none ∨ ∃ second, find execute p search new old = .error second)) := by
  unfold FoundIn find
  cases hnew : execute (statement p search new) with
  | error e =>
    rw [statement] at hnew
    exact .inr ⟨by simp, .inr ⟨false, by simp only [hnew]⟩⟩
  | ok rows =>
    rw [statement] at hnew
    cases rows with
    | cons r rs => exact .inl ⟨by simp, new, r :: rs, by simp only [hnew]; rfl⟩
    | nil =>
      cases hold : execute (statement p search old) with
      | error e =>
        rw [statement] at hold
        exact .inr ⟨by simp, .inr ⟨true, by simp only [hnew, hold]; rfl⟩⟩
      | ok rows =>
        rw [statement] at hold
        cases rows with
        | nil => exact .inr ⟨by simp, .inl (by simp only [hnew, hold]; rfl)⟩
        | cons r rs => exact .inl ⟨by simp, old, r :: rs, by simp only [hnew, hold]; rfl⟩

/-- the link to the previous page -/
def previousLink (p : Params) (search : Text) : Link := ⟨.previous, query codec.bytes p search "search=".toList (p.page - 1)⟩

/-- the links of a page: those at its end, or none but the one to the previous page -/
def LinksFrom (found : Prop) (p : Params) (search : Text) (page : List Printed) : Prop :=
  (found ∧ links page = links (pageLinks codec.bytes p search)) ∨
    (¬ found ∧ ∀ l ∈ links page, p.page ≠ 0 ∧ l = previousLink codec p search)

theorem mem_links_nothing {none more : List Printed} (hnone : links none = []) (hmore : links more = []) {l : Link}
    (h : l ∈ links (nothing codec.bytes p search none more)) : p.page ≠ 0 ∧ l = previousLink codec p search := by
  rw [nothing, links_append] at h
  split at h
  · rw [hnone] at h
    cases h
  · next h0 =>
    rw [links_append, hmore] at h
    exact ⟨h0, List.mem_singleton.1 h⟩

/-- one kind of search -/
theorem linksFrom_of_find {new old : Source} {page : List Printed}
    (herror : ∀ second, find execute p search new old = .error second → links page = [])
    (hnone : find execute p search new old = .ok none → ∀ l ∈ links page, p.page ≠ 0 ∧ l = previousLink codec p search)
    (hsome : ∀ source hits, find execute p search new old = .ok (some (source, hits)) →
      links page = links (pageLinks codec.bytes p search)) :
    LinksFrom codec (FoundIn execute p search new old) p search page := by
  rcases find_cases execute p search new old with ⟨hfound, source, hits, hfind⟩ | ⟨hfound, hfind | ⟨second, hfind⟩⟩
  · exact .inl ⟨hfound, hsome source hits hfind⟩
  · exact .inr ⟨hfound, hnone hfind⟩
  · refine .inr ⟨hfound, ?_⟩
    rw [herror second hfind]
    exact List.forall_mem_nil _

theorem linksFrom_storyResults (p : Params) (search : Text) :
    LinksFrom codec (FoundIn execute p search .stories .old_stories) p search (storyResults codec.bytes execute p search) := by
  refine linksFrom_of_find codec execute (fun second hfind => ?_) (fun hfind l hl => ?_) (fun source hits hfind => ?_)
  · rw [storyResults, hfind]
    cases second <;> rfl
  · rw [storyResults, hfind] at hl
    exact mem_links_nothing codec rfl rfl hl
  · rw [storyResults, hfind]
    exact links_list _ hits _

theorem linksFrom_commentResults (p : Params) (search : Text) :
    LinksFrom codec (FoundIn execute p search .comments .old_comments) p search
      (commentResults codec.bytes execute p search) := by
  refine linksFrom_of_find codec execute (fun second hfind => ?_) (fun hfind l hl => ?_) (fun source hits hfind => ?_)
  · rw [commentResults, hfind]
    rfl
  · rw [commentResults, hfind] at hl
    exact mem_links_nothing codec rfl rfl hl
  · rw [commentResults, hfind]
    exact links_list _ hits _

theorem linksFrom_authorResults (p : Params) (search : Text) :
    LinksFrom codec (FoundIn execute p search .authors .old_authors) p search (authorResults codec.bytes execute p search) := by
  refine linksFrom_of_find codec execute (fun second hfind => ?_) (fun hfind l hl => ?_) (fun source hits hfind => ?_)
  · rw [authorResults, hfind]
    rfl
  · rw [authorResults, hfind] at hl
    exact mem_links_nothing codec rfl rfl hl
  · rw [authorResults, hfind]
    exact links_list _ hits _

theorem linksFrom_results (p : Params) (search : Text) :
    LinksFrom codec (Found execute p search) p search (results codec.bytes execute p search) := by
  unfold Found sources results
  split_ifs with h0 h1 h2
  · simpa using linksFrom_storyResults codec execute p search
  · simpa using linksFrom_commentResults codec execute p search
  · simpa using linksFrom_authorResults codec execute p search
  · exact .inr ⟨by simp, List.forall_mem_nil _⟩

variable {execute}

theorem links_page (hp : p.search = some search) :
    links (page codec.bytes execute p) = links (results codec.bytes execute p search) := by
  have hpage : page codec.bytes execute p = (.header "RUBBoS search".toList :: form p ++
      [html "<br><h2>", .text (title p), html " matching <i>", .text search, html "</i></h2></center><br>"]) ++
        results codec.bytes execute p search := by
    unfold page
    rw [hp]
    rfl
  rw [hpage, links_append]
  rfl

theorem links_page_eq_nil (hp : p.search = none) : links (page codec.bytes execute p) = [] := by
  unfold page
  rw [hp]
  rfl

variable {codec}

/-- the links of a page with a text -/
theorem links_return_iff_of_some (hp : p.search = some search) (hn : p.nbOfStories = 25)
    (htype : -2 ^ 31 ≤ p.type ∧ p.type < 2 ^ 31) (hpage : 0 ≤ p.page ∧ p.page < 2 ^ 31) :
    (∀ l ∈ links (page codec.bytes execute p), Returns codec p l) ↔
      (Found execute p search → p.page = 0 ∨ Carried codec search p.type (p.page + 1) ∧ p.page + 1 < 2 ^ 31) := by
  have hprevious : Returns codec p (previousLink codec p search) := by
    refine (returns_search_iff hp hn htype .previous).2 (wrapInt_eq_iff.2 ?_)
    simp only [Label.page]
    omega
  have hfirst (h0 : p.page = 0) :
      Returns codec p ⟨.next, query codec.bytes p search "search=".toList (p.page + 1)⟩ := by
    refine (returns_search_iff hp hn htype .next).2 (wrapInt_eq_iff.2 ?_)
    simp only [Label.page]
    omega
  have hnext : Returns codec p
      ⟨.next, query codec.bytes p search ("category=".toList ++ search ++ "=".toList) (p.page + 1)⟩ ↔
        Carried codec search p.type (p.page + 1) ∧ p.page + 1 < 2 ^ 31 := by
    refine (returns_category_iff hp hn htype .next).trans (and_congr_right fun _ => wrapInt_eq_iff.trans ?_)
    simp only [Label.page]
    omega
  rw [links_page codec hp]
  rcases linksFrom_results codec execute p search with ⟨hfound, hlinks⟩ | ⟨hfound, hlinks⟩
  · rw [hlinks]
    by_cases h0 : p.page = 0
    · have hone : links (pageLinks codec.bytes p search) =
          [⟨.next, query codec.bytes p search "search=".toList (p.page + 1)⟩] := by
        rw [pageLinks, if_pos h0]
        rfl
      rw [hone, List.forall_mem_singleton]
      exact iff_of_true (hfirst h0) fun _ => .inl h0
    · have htwo : links (pageLinks codec.bytes p search) =
          [previousLink codec p search,
            ⟨.next, query codec.bytes p search ("category=".toList ++ search ++ "=".toList) (p.page + 1)⟩] := by
        rw [pageLinks, if_neg h0]
        rfl
      rw [htwo, List.forall_mem_cons, List.forall_mem_singleton, hnext]
      simp [hprevious, hfound, h0]
  · refine iff_of_true (fun l hl => ?_) fun h => absurd h hfound
    rw [(hlinks l hl).2]
    exact hprevious

theorem links_return_iff {request : Request} (hread : params request = .ok p) (hpage : 0 ≤ p.page) :
    (∀ l ∈ links (page codec.bytes execute p), Returns codec p l) ↔ LinksReturn codec execute p := by
  obtain ⟨ht, hpg, hn, -⟩ := params_eq_ok_iff.1 hread
  have htype := intParameter_range (by decide) ht
  have hrange := intParameter_range (by decide) hpg
  unfold LinksReturn
  cases hsearch : p.search with
  | none =>
    rw [links_page_eq_nil codec hsearch]
    simp
  | some search =>
    rw [links_return_iff_of_some hsearch hn htype ⟨hpage, hrange.2⟩]
    simp

/-- next and back, from a page whose links return to one whose links return -/
theorem roundTrip {request : Request} (hread : params request = .ok p) (hpage : 0 ≤ p.page)
    (hp : LinksReturn codec execute p) (hq : LinksReturn codec execute { p with page := p.page + 1 }) :
    RoundTrip codec params (page codec.bytes execute) p := by
  intro next hmem hlabel
  have hnext : Returns codec p next := (links_return_iff hread hpage).2 hp next hmem
  rw [Returns, hlabel] at hnext
  refine ⟨_, hnext, fun previous hmem' hlabel' => ?_⟩
  have hprevious : Returns codec _ previous := (links_return_iff hnext (add_nonneg hpage zero_le_one)).2 hq previous hmem'
  rw [Returns, hlabel'] at hprevious
  simpa [Label.page] using hprevious

end Links

end Search

/-! ## The three servlets -/

/-- **The links of a page lead to the next and the previous one exactly if its parameters can be spliced into them,** and then
next and previous lead back to the page. -/
theorem paging_links_iff (codec : Codec) :
    (∀ (execute : OlderStories.Statement → Except Unit (List Row)) (request : Request) (p : OlderStories.Params),
      OlderStories.params request = .ok p → 0 ≤ p.page →
        ((∀ l ∈ links (OlderStories.page execute p), OlderStories.Returns codec p l) ↔ OlderStories.LinksReturn execute p) ∧
        (OlderStories.LinksReturn execute p → OlderStories.LinksReturn execute { p with page := p.page + 1 } →
          RoundTrip codec OlderStories.params (OlderStories.page execute) p)) ∧
    (∀ (execute : BrowseStoriesByCategory.Statement → Except Unit (List Row)) (request : Request)
      (p : BrowseStoriesByCategory.Params), BrowseStoriesByCategory.params request = .ok p → 0 ≤ p.page →
        ((∀ l ∈ links (BrowseStoriesByCategory.page codec.bytes execute p), BrowseStoriesByCategory.Returns codec p l) ↔
          BrowseStoriesByCategory.LinksReturn execute p) ∧
        (BrowseStoriesByCategory.LinksReturn execute p →
          BrowseStoriesByCategory.LinksReturn execute { p with page := p.page + 1 } →
          RoundTrip codec BrowseStoriesByCategory.params (BrowseStoriesByCategory.page codec.bytes execute) p)) ∧
    (∀ (execute : Search.Statement → Except Unit (List Search.Hit)) (request : Request) (p : Search.Params),
      Search.params request = .ok p → 0 ≤ p.page →
        ((∀ l ∈ links (Search.page codec.bytes execute p), Search.Returns codec p l) ↔ Search.LinksReturn codec execute p) ∧
        (Search.LinksReturn codec execute p → Search.LinksReturn codec execute { p with page := p.page + 1 } →
          RoundTrip codec Search.params (Search.page codec.bytes execute) p)) :=
  ⟨fun _ _ _ hread hpage => ⟨OlderStories.links_return_iff hread hpage, OlderStories.roundTrip hread hpage⟩,
    fun _ _ _ hread hpage =>
      ⟨BrowseStoriesByCategory.links_return_iff hread hpage, BrowseStoriesByCategory.roundTrip hread hpage⟩,
    fun _ _ _ hread hpage => ⟨Search.links_return_iff hread hpage, Search.roundTrip hread hpage⟩⟩

/-- a request with the given parameters -/
def requestOf (parameters : List (Text × Text)) : Request where
  uri := []
  getParameter := fun name => parameters.lookup name

/-- the stories of the 7th of January 2003 -/
def dateParams (page : ℤ) : OlderStories.Params := ⟨page, 25, some "7".toList, some "1".toList, some "2003".toList⟩

def categoryParams : BrowseStoriesByCategory.Params := ⟨3, 10, some "4".toList, some "C & Lean".toList⟩

def searchParams : Search.Params := ⟨0, 0, 25, some "50% & more".toList⟩

def story : Row := ⟨4, "Kernel".toList, "2003-01-07 10:00:00".toList, "admin".toList⟩

def hit : Search.Hit := ⟨"4".toList, "4".toList, "50% & more free".toList, "admin".toList, "2003-01-07 10:00:00".toList⟩

/-- pages whose links return -/
theorem clean_pages_return :
    (∀ l ∈ links (OlderStories.page (fun _ => .ok [story, story]) (dateParams 0)), OlderStories.Returns utf8 (dateParams 0) l) ∧
    (∀ l ∈ links (BrowseStoriesByCategory.page utf8.bytes (fun _ => .ok [story]) categoryParams),
      BrowseStoriesByCategory.Returns utf8 categoryParams l) ∧
    (∀ l ∈ links (Search.page utf8.bytes (fun _ => .ok [hit]) searchParams), Search.Returns utf8 searchParams l) := by
  refine ⟨?_, ?_, ?_⟩
  · have hread : OlderStories.params (requestOf [("day".toList, "7".toList), ("month".toList, "1".toList),
        ("year".toList, "2003".toList)]) = .ok (dateParams 0) := by decide
    refine (((paging_links_iff utf8).1 _ _ _ hread (by decide)).1).2 ?_
    rintro day ⟨⟩ month ⟨⟩ year ⟨⟩
    exact ⟨fun _ _ => by decide, fun _ => ⟨rfl, by decide⟩⟩
  · have hread : BrowseStoriesByCategory.params (requestOf [("category".toList, "4".toList),
        ("categoryName".toList, "C & Lean".toList), ("page".toList, "3".toList), ("nbOfStories".toList, "10".toList)]) =
        .ok categoryParams := by decide
    refine (((paging_links_iff utf8).2.1 _ _ _ hread (by decide)).1).2 ?_
    rintro categoryId ⟨⟩ categoryName ⟨⟩
    refine ⟨fun h => ?_, fun _ => ⟨by decide, by decide⟩⟩
    cases h
  · have hread : Search.params (requestOf [("search".toList, "50% & more".toList)]) = .ok searchParams := by decide
    refine (((paging_links_iff utf8).2.2 _ _ _ hread (by decide)).1).2 ?_
    rintro search ⟨⟩ -
    exact .inl rfl

/-- **A link that asks for no date.** On the second page of a day, the link to the third one has no parameter day. -/
theorem next_page_loses_date :
    OlderStories.params (requestOf [("day".toList, "7".toList), ("month".toList, "1".toList), ("year".toList, "2003".toList),
      ("page".toList, "1".toList)]) = .ok (dateParams 1) ∧
    ∃ l ∈ links (OlderStories.page (fun _ => .ok [story, story]) (dateParams 1)),
      l.label = .next ∧ ¬ OlderStories.Returns utf8 (dateParams 1) l := by
  refine ⟨by decide, ⟨.next, OlderStories.query ("category=".toList ++ "7".toList ++ "=".toList) "7".toList "1".toList
    "2003".toList 2 25⟩, ?_, rfl, OlderStories.not_returns_category rfl (by decide) .next 2⟩
  rw [OlderStories.links_page ⟨rfl, rfl, rfl⟩]
  decide

end Rubbos.Servlets.StoryPages
