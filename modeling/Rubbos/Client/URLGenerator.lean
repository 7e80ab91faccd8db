/-
The URLs of the emulated users (`URLGenerator.java`, `URLGeneratorServlets.java`, `URLGeneratorPHP.java`).

Every builder method is a constructor of `Page` with the method's parameters. All of them put together a file name, a
query of `name=value` pairs joined by '&', and end the query with the pair urlID=System.nanoTime(): `path` and
`Page.fields` are the table of what each builder writes before that pair, and `url` is the text of the URL object.
Builders that call `URLEncoder.encode` on a parameter do so here; `comment_table` is encoded by `postComment` only.

A `URLGenerator` carries what the configuration promises: a port that `new URL` accepts, a host name, and host and paths
made of printable ASCII characters other than '?', '=' and '('.

- `isBaseChar_of_mem_base`, `isEncoded_of_mem_value`: the characters before a URL's query and of its values.
-/
import Rubbos.Core.JString

namespace Rubbos.Client

open Rubbos.Core

/-! ## Scripts and field names -/

/-- the server versions: which subclass gives the script names -/
inductive Version where
  | servlets
  | php
deriving DecidableEq, Repr

inductive Script where
  | Search
  | BrowseCategories
  | StoriesOfTheDay
  | OlderStories
  | SubmitStory
  | PostComment
  | RegisterUser
  | BrowseStoriesByCategory
  | StoreComment
  | StoreStory
  | ViewStory
  | ViewComment
  | ModerateComment
  | StoreModeratorLog
  | Author
  | ReviewStories
  | AcceptStory
  | RejectStory
deriving DecidableEq, Repr

/-- the servlet's class name, or the PHP file's name without its extension -/
def Script.simpleName : Script → Text
  | .Search => "Search".toList
  | .BrowseCategories => "BrowseCategories".toList
  | .StoriesOfTheDay => "StoriesOfTheDay".toList
  | .OlderStories => "OlderStories".toList
  | .SubmitStory => "SubmitStory".toList
  | .PostComment => "PostComment".toList
  | .RegisterUser => "RegisterUser".toList
  | .BrowseStoriesByCategory => "BrowseStoriesByCategory".toList
  | .StoreComment => "StoreComment".toList
  | .StoreStory => "StoreStory".toList
  | .ViewStory => "ViewStory".toList
  | .ViewComment => "ViewComment".toList
  | .ModerateComment => "ModerateComment".toList
  | .StoreModeratorLog => "StoreModeratorLog".toList
  | .Author => "Author".toList
  | .ReviewStories => "ReviewStories".toList
  | .AcceptStory => "AcceptStory".toList
  | .RejectStory => "RejectStory".toList

def servletPackage : Text := "edu.rice.rubbos.servlets".toList

/-- what the methods `...Script()` of the two subclasses return -/
def Script.file : Version → Script → Text
  | .servlets, s => servletPackage ++ '.' :: s.simpleName
  | .php, s => s.simpleName ++ ".php".toList

/-- the static pages -/
inductive StaticPage where
  | register
  | browse
  | author
deriving DecidableEq, Repr

def StaticPage.name : StaticPage → Text
  | .register => "register".toList
  | .browse => "browse".toList
  | .author => "author".toList

def StaticPage.file (f : StaticPage) : Text := f.name ++ ['.', 'h', 't', 'm', 'l']

/-- the parameter names of the queries -/
inductive Field where
  | firstname | lastname | nickname | email | password
  | day | month | year | page | nbOfStories
  | category | categoryName
  | storyId | parent | comment_table | subject | body
  | commentId | filter | display | rating
  | type | search | title
deriving DecidableEq, Repr

def Field.name : Field → Text
  | .firstname => "firstname".toList
  | .lastname => "lastname".toList
  | .nickname => "nickname".toList
  | .email => "email".toList
  | .password => "password".toList
  | .day => "day".toList
  | .month => "month".toList
  | .year => "year".toList
  | .page => "page".toList
  | .nbOfStories => "nbOfStories".toList
  | .category => "category".toList
  | .categoryName => "categoryName".toList
  | .storyId => "storyId".toList
  | .parent => "parent".toList
  | .comment_table => "comment_table".toList
  | .subject => "subject".toList
  | .body => "body".toList
  | .commentId => "commentId".toList
  | .filter => "filter".toList
  | .display => "display".toList
  | .rating => "rating".toList
  | .type => "type".toList
  | .search => "search".toList
  | .title => "title".toList

/-- the name every query ends with -/
def urlID : Text := ['u', 'r', 'l', 'I', 'D']

/-! ## Pages -/

/-- the builder methods with their parameters -/
inductive Page where
  | homePage
  | register
  | registerUser (firstname lastname nickname email password : Text)
  | browse
  | browseCategories
  | StoriesOfTheDay
  | OlderStories (day month year page nbOfStories : ℤ)
  | browseStoriesByCategory (categoryId : ℤ) (categoryName : Text) (page nbOfStories : ℤ)
  | viewStory (storyId : ℤ)
  /-- the search type is read only when there is a keyword -/
  | search (keyword : Option Text) (searchType : Text) (page nbOfStories : ℤ)
  | postComment (storyId parent : ℤ) (comment_table : Text)
  | storeComment (name pwd : Text) (storyId parent : ℤ) (subject body comment_table : Text)
  | viewComment (commentId filter display storyId : ℤ) (comment_table : Text)
  | moderateComment (commentId : ℤ) (comment_table : Text)
  | storeModerateLog (name pwd : Text) (commentId rating : ℤ) (comment_table : Text)
  | submitStory
  | storeStory (name pwd title body : Text) (categoryId : ℤ)
  | authorLogin
  | authorTasks (name pwd : Text)
  | reviewStories
  | acceptStory (storyId : ℤ)
  | rejectStory (storyId : ℤ)
deriving DecidableEq, Repr

/-- what a page's URL names: a script under `scriptPath` or a static page under `HTMLPath` -/
inductive Target where
  | script (s : Script)
  | html (f : StaticPage)
deriving DecidableEq, Repr

def Page.target : Page → Target
  | .homePage => .script .StoriesOfTheDay
  | .register => .html .register
  | .registerUser .. => .script .RegisterUser
  | .browse => .html .browse
  | .browseCategories => .script .BrowseCategories
  | .StoriesOfTheDay => .script .StoriesOfTheDay
  | .OlderStories .. => .script .OlderStories
  | .browseStoriesByCategory .. => .script .BrowseStoriesByCategory
  | .viewStory .. => .script .ViewStory
  | .search .. => .script .Search
  | .postComment .. => .script .PostComment
  | .storeComment .. => .script .StoreComment
  | .viewComment .. => .script .ViewComment
  | .moderateComment .. => .script .ModerateComment
  | .storeModerateLog .. => .script .StoreModeratorLog
  | .submitStory => .script .SubmitStory
  | .storeStory .. => .script .StoreStory
  | .authorLogin => .html .author
  | .authorTasks .. => .script .Author
  | .reviewStories => .script .ReviewStories
  | .acceptStory .. => .script .AcceptStory
  | .rejectStory .. => .script .RejectStory

/-- how a builder writes a parameter into the query -/
inductive Value where
  /-- an int -/
  | num (n : ℤ)
  /-- a text passed through `URLEncoder.encode` -/
  | enc (s : Text)
  /-- a text written as it is -/
  | raw (s : Text)
deriving DecidableEq, Repr

/-- the pairs of the page's query before urlID, in order -/
def Page.fields : Page → List (Field × Value)
  | .homePage | .register | .browse | .browseCategories | .StoriesOfTheDay | .submitStory | .authorLogin
  | .reviewStories => []
  | .registerUser firstname lastname nickname email password =>
    [(.firstname, .enc firstname), (.lastname, .enc lastname), (.nickname, .enc nickname), (.email, .enc email),
      (.password, .enc password)]
  | .OlderStories day month year page nbOfStories =>
    [(.day, .num day), (.month, .num month), (.year, .num year), (.page, .num page), (.nbOfStories, .num nbOfStories)]
  | .browseStoriesByCategory categoryId categoryName page nbOfStories =>
    [(.category, .num categoryId), (.categoryName, .enc categoryName), (.page, .num page),
      (.nbOfStories, .num nbOfStories)]
  | .viewStory storyId => [(.storyId, .num storyId)]
  | .search none _ _ _ => []
  | .search (some keyword) searchType page nbOfStories =>
    [(.type, .enc searchType), (.search, .enc keyword), (.page, .num page), (.nbOfStories, .num nbOfStories)]
  | .postComment storyId parent comment_table =>
    [(.storyId, .num storyId), (.parent, .num parent), (.comment_table, .enc comment_table)]
  | .storeComment name pwd storyId parent subject body comment_table =>
    [(.comment_table, .raw comment_table), (.nickname, .enc name), (.password, .enc pwd), (.storyId, .num storyId),
      (.parent, .num parent), (.subject, .enc subject), (.body, .enc body)]
  | .viewComment commentId filter display storyId comment_table =>
    [(.commentId, .num commentId), (.filter, .num filter), (.display, .num display), (.storyId, .num storyId),
      (.comment_table, .raw comment_table)]
  | .moderateComment commentId comment_table =>
    [(.commentId, .num commentId), (.comment_table, .raw comment_table)]
  | .storeModerateLog name pwd commentId rating comment_table =>
    [(.comment_table, .raw comment_table), (.nickname, .enc name), (.password, .enc pwd),
      (.commentId, .num commentId), (.rating, .num rating)]
  | .storeStory name pwd title body categoryId =>
    [(.nickname, .enc name), (.password, .enc pwd), (.category, .num categoryId), (.title, .enc title),
      (.body, .enc body)]
  | .authorTasks name pwd => [(.nickname, .enc name), (.password, .enc pwd)]
  | .acceptStory storyId => [(.storyId, .num storyId)]
  | .rejectStory storyId => [(.storyId, .num storyId)]

/-- characters that do not occur in a URL before its query -/
def reserved : List Char := ['?', '=', '(', ' ', '\t', '\n', '\x0b', '\x0c', '\r', '\x00']

def isBaseChar (c : Char) : Bool := c ∉ reserved

/-- characters the configuration may use in host names and paths -/
def isConfigChar (c : Char) : Bool := c.toNat < 128 && isBaseChar c

/-- a URL generator as `ClientEmulator` builds it from rubbos.properties -/
structure URLGenerator where
  version : Version
  webSiteName : Text
  webSitePort : ℤ
  HTMLPath : Text
  scriptPath : Text
  /-- the platform's default encoding, used by `URLEncoder.encode` -/
  charset : Text → List UInt8
  host_ne : webSiteName ≠ []
  port_valid : -1 ≤ webSitePort
  host_chars : ∀ c ∈ webSiteName, isConfigChar c
  html_chars : ∀ c ∈ HTMLPath, isConfigChar c
  script_chars : ∀ c ∈ scriptPath, isConfigChar c

namespace URLGenerator

/-- the host part of a URL: an address with ':' is put in brackets, a port of -1 is left out -/
def authority (g : URLGenerator) : Text :=
  (if ':' ∈ g.webSiteName ∧ g.webSiteName.head? ≠ some '[' then '[' :: g.webSiteName ++ [']'] else g.webSiteName) ++
    (if g.webSitePort = -1 then [] else ':' :: longText g.webSitePort)

/-- `new URL(protocol, webSiteName, webSitePort, file).toString()` -/
def newURL (g : URLGenerator) (file : Text) : Text := ['h', 't', 't', 'p', ':', '/', '/'] ++ (g.authority ++ file)

/-- URL to the page corresponding to the file -/
def genericHTMLFile (g : URLGenerator) (filename : Text) : Text := g.newURL filename

/-- the file of the page's URL, up to the query -/
def path (g : URLGenerator) (p : Page) : Text :=
  match p.target with
  | .script s => g.scriptPath ++ '/' :: s.file g.version
  | .html f => g.HTMLPath ++ '/' :: f.file

def value (g : URLGenerator) : Value → Text
  | .num n => longText n
  | .enc s => JString.encode g.charset s
  | .raw s => s

/-- a query: the pairs, each followed by '&', and urlID -/
def query (g : URLGenerator) (id : Text) : List (Field × Value) → Text
  | [] => urlID ++ '=' :: id
  | (f, v) :: fs => f.name ++ '=' :: (g.value v ++ '&' :: g.query id fs)

/-- the text of the URL that the builder of the page returns at `System.nanoTime()` = nanoTime -/
def url (g : URLGenerator) (p : Page) (nanoTime : ℤ) : Text :=
  g.newURL (g.path p ++ '?' :: g.query (longText nanoTime) p.fields)

end URLGenerator

/-! ## What a URL is made of -/

/-- characters of a script's simple name or of a field's name -/
def isNameChar (c : Char) : Bool := c.isAlpha || c = '_'

theorem Script.simpleName_chars (s : Script) : s.simpleName.all isNameChar ∧ s.simpleName.length < 30 := by
  cases s <;> decide

theorem Field.name_chars (f : Field) : f.name.all isNameChar := by
  cases f <;> decide

theorem Field.not_urlID_suffix (f : Field) : ¬ urlID <:+ f.name := by
  cases f <;> decide

theorem Field.notMem_name {f : Field} {c : Char} (hc : isNameChar c = false) : c ∉ f.name := by
  intro h
  have := List.all_eq_true.1 f.name_chars c h
  simp [hc] at this

theorem isEncoded_of_isNumChar {c : Char} (h : isNumChar c) : JString.isEncoded c := by
  simp only [isNumChar, Bool.or_eq_true, decide_eq_true_eq] at h
  rcases h with h | rfl
  · simp [JString.isEncoded, JString.isUnreserved, Char.isAlphanum, h]
  · decide

namespace URLGenerator

variable (g : URLGenerator) (p : Page)

/-- a value that is not written as it is has no character of a URL's own syntax -/
theorem isEncoded_of_mem_value {v : Value} (hv : ∀ s, v ≠ .raw s) {c : Char} (h : c ∈ g.value v) :
    JString.isEncoded c := by
  cases v with
  | num n => exact isEncoded_of_isNumChar (isNumChar_of_mem_longText h)
  | enc s => exact JString.isEncoded_of_mem_encodeRun h
  | raw s => exact absurd rfl (hv s)

/-- everything before the query -/
def base (g : URLGenerator) (p : Page) : Text := ['h', 't', 't', 'p', ':', '/', '/'] ++ (g.authority ++ g.path p)

theorem url_eq (nanoTime : ℤ) : g.url p nanoTime = g.base p ++ '?' :: g.query (longText nanoTime) p.fields := by
  simp [url, newURL, base]

theorem isBaseChar_of_class {P : Char → Bool} (hP : reserved.all fun x => !P x) {c : Char} (hc : P c) : isBaseChar c := by
  simpa [isBaseChar] using notMem_of_class hP hc

theorem isBaseChar_of_isConfigChar {c : Char} (h : isConfigChar c) : isBaseChar c :=
  isBaseChar_of_class (by decide) h

theorem isBaseChar_of_mem_authority {c : Char} (h : c ∈ g.authority) : isBaseChar c := by
  have hhost : c ∈ g.webSiteName → isBaseChar c := fun h => isBaseChar_of_isConfigChar (g.host_chars c h)
  rcases List.mem_append.1 h with h | h
  · split_ifs at h
    · simp only [List.cons_append, List.mem_cons, List.mem_append, List.not_mem_nil, or_false] at h
      rcases h with rfl | h | rfl
      · decide
      · exact hhost h
      · decide
    · exact hhost h
  · split_ifs at h
    · cases h
    · rcases List.mem_cons.1 h with rfl | h
      · decide
      · exact isBaseChar_of_class (by decide) (isNumChar_of_mem_longText h)

theorem isBaseChar_of_mem_file {v : Version} {s : Script} {c : Char} (h : c ∈ s.file v) : isBaseChar c := by
  have hname : c ∈ s.simpleName → isBaseChar c := fun h =>
    isBaseChar_of_class (by decide) (List.all_eq_true.1 s.simpleName_chars.1 c h)
  cases v with
  | servlets =>
    rcases List.mem_append.1 h with h | h
    · exact List.all_eq_true.1 (show servletPackage.all isBaseChar by decide) c h
    · rcases List.mem_cons.1 h with rfl | h
      · decide
      · exact hname h
  | php =>
    rcases List.mem_append.1 h with h | h
    · exact hname h
    · exact List.all_eq_true.1 (show ".php".toList.all isBaseChar by decide) c h

theorem isBaseChar_of_mem_path {c : Char} (h : c ∈ g.path p) : isBaseChar c := by
  unfold path at h
  split at h
  · rcases List.mem_append.1 h with h | h
    · exact isBaseChar_of_isConfigChar (g.script_chars c h)
    · rcases List.mem_cons.1 h with rfl | h
      · decide
      · exact isBaseChar_of_mem_file h
  · rename_i f _
    rcases List.mem_append.1 h with h | h
    · exact isBaseChar_of_isConfigChar (g.html_chars c h)
    · rcases List.mem_cons.1 h with rfl | h
      · decide
      · have hf : f.file.all isBaseChar := by cases f <;> decide
        exact List.all_eq_true.1 hf c h

theorem isBaseChar_of_mem_base {c : Char} (h : c ∈ g.base p) : isBaseChar c := by
  simp only [base, List.mem_append] at h
  rcases h with h | h | h
  · exact List.all_eq_true.1 (show ['h', 't', 't', 'p', ':', '/', '/'].all isBaseChar by decide) c h
  · exact isBaseChar_of_mem_authority g h
  · exact isBaseChar_of_mem_path g p h

theorem notMem_base {c : Char} (hc : c ∈ reserved) : c ∉ g.base p := by
  intro h
  have := isBaseChar_of_mem_base g p h
  simp [isBaseChar, hc] at this

/-- no field of the list is written as it is -/
def NoRaw (fs : List (Field × Value)) : Prop := ∀ fv ∈ fs, ∀ s, fv.2 ≠ .raw s

/-- a character that no name and no value has, and that is not part of the query's own syntax -/
theorem notMem_query {id : Text} {fs : List (Field × Value)} {c : Char} (hv : ∀ fv ∈ fs, c ∉ g.value fv.2)
    (hid : c ∉ id) (hn : isNameChar c = false) (hc : c ≠ '=' ∧ c ≠ '&') : c ∉ g.query id fs := by
  induction fs with
  | nil =>
    have hu : c ∉ urlID := by
      intro h
      have := List.all_eq_true.1 (show urlID.all isNameChar by decide) c h
      simp [hn] at this
    simp [query, hu, hid, hc.1]
  | cons fv fs ih =>
    obtain ⟨f, v⟩ := fv
    have h₁ : c ∉ g.value v := hv (f, v) List.mem_cons_self
    have h₂ : c ∉ g.query id fs := ih fun fv h => hv fv (List.mem_cons_of_mem _ h)
    simp [query, Field.notMem_name hn, h₁, h₂, hc.1, hc.2]

theorem notMem_value {fs : List (Field × Value)} {c : Char} (hfs : NoRaw fs) (he : JString.isEncoded c = false) :
    ∀ fv ∈ fs, c ∉ g.value fv.2 := by
  intro fv hfv h
  have := isEncoded_of_mem_value g (hfs fv hfv) h
  simp [he] at this

/-- a query splits at any of its fields -/
theorem query_split (id : Text) {l₁ : List (Field × Value)} (l₂ : List (Field × Value)) {f : Field} {v : Value} (hl : NoRaw l₁) :
    ∃ a, '?' ∉ a ∧ g.query id (l₁ ++ (f, v) :: l₂) = a ++ (g.value v ++ '&' :: g.query id l₂) := by
  induction l₁ with
  | nil =>
    refine ⟨f.name ++ ['='], ?_, by simp [query]⟩
    simp [Field.notMem_name (show isNameChar '?' = false by decide)]
  | cons fv l₁ ih =>
    obtain ⟨f', v'⟩ := fv
    obtain ⟨a, ha, h⟩ := ih fun fv h => hl fv (List.mem_cons_of_mem _ h)
    refine ⟨f'.name ++ '=' :: (g.value v' ++ '&' :: a), ?_, by simp [query, h]⟩
    have hv : '?' ∉ g.value v' := g.notMem_value hl (by decide) (f', v') List.mem_cons_self
    simp [Field.notMem_name (show isNameChar '?' = false by decide), hv, ha]

/-- a query with a field before urlID does not begin with urlID -/
theorem not_urlID_prefix_query {id : Text} {fs : List (Field × Value)} (hfs : fs ≠ []) :
    ¬ urlID ++ ['='] <+: g.query id fs := by
  rcases fs with _ | ⟨⟨f, v⟩, fs⟩
  · exact absurd rfl hfs
  · rintro ⟨r, h⟩
    have h' : urlID ++ '=' :: r = f.name ++ '=' :: (g.value v ++ '&' :: g.query id fs) := by
      simpa [query] using h
    obtain ⟨hu, -⟩ := append_cons_inj_left (by decide) (Field.notMem_name (by decide)) h'
    exact f.not_urlID_suffix (hu ▸ List.suffix_rfl)

end URLGenerator

/-- the comment table, where the builder writes it as it is -/
def Page.rawTable : Page → Option Text
  | .storeComment _ _ _ _ _ _ comment_table => some comment_table
  | .viewComment _ _ _ _ comment_table => some comment_table
  | .moderateComment _ comment_table => some comment_table
  | .storeModerateLog _ _ _ _ comment_table => some comment_table
  | _ => none

/-- the only value written as it is is the comment table -/
theorem Page.fields_split (p : Page) :
    match p.rawTable with
    | none => URLGenerator.NoRaw p.fields
    | some t => ∃ l₁ l₂, p.fields = l₁ ++ (.comment_table, .raw t) :: l₂ ∧ URLGenerator.NoRaw l₁ ∧
        URLGenerator.NoRaw l₂ := by
  cases p
  case storeComment name pwd storyId parent subject body t =>
    exact ⟨[], _, rfl, by simp [URLGenerator.NoRaw], by simp [URLGenerator.NoRaw]⟩
  case viewComment commentId filter display storyId t =>
    exact ⟨[_, _, _, _], [], rfl, by simp [URLGenerator.NoRaw], by simp [URLGenerator.NoRaw]⟩
  case moderateComment commentId t =>
    exact ⟨[_], [], rfl, by simp [URLGenerator.NoRaw], by simp [URLGenerator.NoRaw]⟩
  case storeModerateLog name pwd commentId rating t =>
    exact ⟨[], _, rfl, by simp [URLGenerator.NoRaw], by simp [URLGenerator.NoRaw]⟩
  case search keyword searchType page nb =>
    cases keyword <;> simp [Page.rawTable, Page.fields, URLGenerator.NoRaw]
  all_goals simp [Page.rawTable, Page.fields, URLGenerator.NoRaw]

theorem Page.rawTable_of_mem {p : Page} {fv : Field × Value} {t : Text} (hfv : fv ∈ p.fields) (ht : fv.2 = .raw t) :
    p.rawTable = some t := by
  have hsplit := p.fields_split
  cases hraw : p.rawTable with
  | none =>
    rw [hraw] at hsplit
    exact absurd ht (hsplit fv hfv t)
  | some t' =>
    rw [hraw] at hsplit
    obtain ⟨l₁, l₂, hfs, h₁, h₂⟩ := hsplit
    rw [hfs, List.mem_append, List.mem_cons] at hfv
    rcases hfv with hfv | rfl | hfv
    · exact absurd ht (h₁ fv hfv t)
    · rw [Value.raw.inj ht]
    · exact absurd ht (h₂ fv hfv t)

/-- the comment table, where it is written as it is, is one of the site's two tables -/
def Page.OrdinaryTable (p : Page) : Prop :=
  ∀ t, p.rawTable = some t → t = "comments".toList ∨ t = "old_comments".toList

/-- the servlet or the kind of static page that a URL of the page names -/
def Page.category (p : Page) : Text :=
  match p.target with
  | .script s => s.simpleName
  | .html _ => ['h', 't', 'm', 'l']

namespace URLGenerator

variable (g : URLGenerator) {p : Page}

theorem isEncoded_of_mem_field (hp : p.OrdinaryTable) {fv : Field × Value} (hfv : fv ∈ p.fields) {c : Char}
    (hc : c ∈ g.value fv.2) : JString.isEncoded c := by
  have hsplit := p.fields_split
  cases ht : p.rawTable with
  | none =>
    rw [ht] at hsplit
    exact isEncoded_of_mem_value g (hsplit fv hfv) hc
  | some t =>
    rw [ht] at hsplit
    obtain ⟨l₁, l₂, hfs, h₁, h₂⟩ := hsplit
    rw [hfs, List.mem_append, List.mem_cons] at hfv
    rcases hfv with hfv | rfl | hfv
    · exact isEncoded_of_mem_value g (h₁ fv hfv) hc
    · have hc' : c ∈ t := hc
      rcases hp t ht with rfl | rfl
      · exact List.all_eq_true.1 (show "comments".toList.all JString.isEncoded by decide) c hc'
      · exact List.all_eq_true.1 (show "old_comments".toList.all JString.isEncoded by decide) c hc'
    · exact isEncoded_of_mem_value g (h₂ fv hfv) hc

theorem notMem_field (hp : p.OrdinaryTable) {c : Char} (he : JString.isEncoded c = false) :
    ∀ fv ∈ p.fields, c ∉ g.value fv.2 := by
  intro fv hfv h
  have := isEncoded_of_mem_field g hp hfv h
  simp [he] at this

/-- a reserved character other than '?' and '=' does not occur in a URL -/
theorem notMem_url (hp : p.OrdinaryTable) (nanoTime : ℤ) {c : Char} (hc : c ∈ reserved) (hq : c ≠ '?') (he : c ≠ '=') :
    c ∉ g.url p nanoTime := by
  have hn : isNameChar c = false := by revert c; decide
  have henc : JString.isEncoded c = false := by revert c; decide
  have hnum : isNumChar c = false := by revert c; decide
  have hamp : c ≠ '&' := by revert c; decide
  have hquery : c ∉ g.query (longText nanoTime) p.fields :=
    g.notMem_query (g.notMem_field hp henc) (notMem_longText hnum) hn ⟨he, hamp⟩
  rw [g.url_eq]
  simp [g.notMem_base p hc, hquery, hq]

/-- "urlID=" is not found in the fields of a query whose values do not have it -/
theorem strstr_urlID_fields {id tail : Text} {l₁ l₂ : List (Field × Value)}
    (hv : ∀ fv ∈ l₁, ¬ urlID ++ ['='] <:+: g.value fv.2) :
    strstr (urlID ++ ['=']) (g.query id (l₁ ++ l₂) ++ tail) = strstr (urlID ++ ['=']) (g.query id l₂ ++ tail) := by
  induction l₁ with
  | nil => rfl
  | cons fv l₁ ih =>
    obtain ⟨f, v⟩ := fv
    have hq : g.query id ((f, v) :: l₁ ++ l₂) ++ tail = f.name ++ '=' :: (g.value v ++ '&' :: (g.query id (l₁ ++ l₂) ++ tail)) := by
      simp [query]
    rw [hq, strstr_marked_skip (by decide) (Field.notMem_name (by decide)) f.not_urlID_suffix,
      strstr_skip (by decide) (hv (f, v) List.mem_cons_self)]
    exact ih fun fv h => hv fv (List.mem_cons_of_mem _ h)

/-- the first "urlID=" of a query is its last field, if no value has one -/
theorem strstr_urlID_query {id tail : Text} {fs : List (Field × Value)}
    (hv : ∀ fv ∈ fs, ¬ urlID ++ ['='] <:+: g.value fv.2) :
    strstr (urlID ++ ['=']) (g.query id fs ++ tail) = some (urlID ++ ['='] ++ (id ++ tail)) := by
  have hskip : strstr (urlID ++ ['=']) (g.query id (fs ++ []) ++ tail) = strstr (urlID ++ ['=']) (g.query id [] ++ tail) :=
    g.strstr_urlID_fields hv
  have hq : g.query id [] ++ tail = urlID ++ ['='] ++ (id ++ tail) := by simp [query]
  rw [List.append_nil, hq] at hskip
  rw [hskip]
  exact strstr_of_prefix (List.prefix_append _ _)

/-- a value that has "urlID=" comes before the last field -/
theorem strstr_urlID_value {id tail : Text} {l₁ l₂ : List (Field × Value)} {f : Field} {v : Value} {j : ℕ}
    (hv : ∀ fv ∈ l₁, ¬ urlID ++ ['='] <:+: g.value fv.2) (hj : find (urlID ++ ['=']) (g.value v) = some j) :
    strstr (urlID ++ ['=']) (g.query id (l₁ ++ (f, v) :: l₂) ++ tail) =
      some ((g.value v).drop j ++ '&' :: (g.query id l₂ ++ tail)) := by
  have hq : g.query id ((f, v) :: l₂) ++ tail = f.name ++ '=' :: (g.value v ++ '&' :: (g.query id l₂ ++ tail)) := by
    simp [query]
  rw [g.strstr_urlID_fields hv, hq, strstr_marked_skip (by decide) (Field.notMem_name (by decide)) f.not_urlID_suffix, strstr,
    find_append_left hj, Option.map_some, List.drop_append_of_le_length (find_eq_some hj).1]

/-- the first "urlID=" of a line that goes on behind a URL -/
theorem strstr_urlID_url (hp : p.OrdinaryTable) (nanoTime : ℤ) (pre : Text) {tail : Text} (hpre : '=' ∉ pre) :
    strstr (urlID ++ ['=']) (pre ++ (g.url p nanoTime ++ tail)) =
      some (urlID ++ ['='] ++ (longText nanoTime ++ tail)) := by
  have hbase : '=' ∉ pre ++ g.base p := by simp [hpre, g.notMem_base p (show '=' ∈ reserved by decide)]
  have hu : pre ++ (g.url p nanoTime ++ tail) =
      (pre ++ g.base p) ++ '?' :: (g.query (longText nanoTime) p.fields ++ tail) := by
    simp [g.url_eq]
  rw [hu, strstr_skip (by decide) (not_infix_of_mem (show '=' ∈ urlID ++ ['='] by decide) hbase)]
  exact g.strstr_urlID_query fun fv hfv =>
    not_infix_of_mem (show '=' ∈ urlID ++ ['='] by decide) (g.notMem_field hp (by decide) fv hfv)

/-- the category stands behind the last '.' before the query -/
theorem path_category (hg : g.version = .servlets) (p : Page) : ∃ a, g.path p = a ++ '.' :: p.category := by
  unfold path Page.category
  cases p.target with
  | script s =>
    simp only [hg, Script.file]
    exact ⟨g.scriptPath ++ '/' :: servletPackage, by simp only [List.append_assoc, List.cons_append]⟩
  | html f =>
    simp only [StaticPage.file]
    exact ⟨g.HTMLPath ++ '/' :: f.name, by simp only [List.append_assoc, List.cons_append]⟩

theorem base_category (hg : g.version = .servlets) (p : Page) : ∃ a, g.base p = a ++ '.' :: p.category := by
  obtain ⟨a, ha⟩ := g.path_category hg p
  exact ⟨['h', 't', 't', 'p', ':', '/', '/'] ++ (g.authority ++ a), by rw [base, ha]; simp only [List.append_assoc]⟩

theorem category_chars (p : Page) : p.category.all isNameChar ∧ p.category.length < 30 := by
  unfold Page.category
  cases p.target with
  | script s => exact s.simpleName_chars
  | html f => exact (by decide : ['h', 't', 'm', 'l'].all isNameChar ∧ ['h', 't', 'm', 'l'].length < 30)

theorem notMem_category {c : Char} (hc : isNameChar c = false) (p : Page) : c ∉ p.category := by
  intro h
  have := List.all_eq_true.1 (category_chars p).1 c h
  simp [hc] at this

end URLGenerator

end Rubbos.Client
