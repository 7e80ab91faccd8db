/-
Which files of a directory the transformer reads (`build_file_map` in `multifile_parser.py`).

`Conforms` is the documented grammar NODE_COMPONENT_MONITOR_RESOURCE_DATE(_METADATA).EXT. The code splits at separators
first and checks the pieces by their position, so it differs from the grammar in three ways: a name without a dot raises
an IndexError, what follows a second dot is ignored, and a MONITOR or RESOURCE that holds a '_' is never found.

- `buildFileMap_exact_iff`: the listings for which the conforming names are exactly the mapped ones.
Witness `buildFileMap_not_exact`: one listing of each kind.
-/
import Rubbos.Transform.FilenameUtils

namespace Rubbos.Transform.FileMap

open Rubbos.Core Python FilenameUtils

/-! ## Model -/

def validFilenameExt (ext : Text) : Bool := ext ∈ ["csv", "data", "log"].map String.toList

/-- `filename_parser(part)` -/
def getPart (tokens : List Text) (part : Part) : Except PyExc Text :=
  match tokens[part.index]? with
  | some token => .ok token
  | none => .error .indexError

/-- the tokens of a file that is mapped; type is `file_defn['type']` -/
def parserFor (type filename : Text) : Except PyExc (Option (List Text)) := do
  let filenameExt ← parseFileExt filename
  match ← parseFilename filename with
  | .none _ => return none
  | .get tokens =>
    let monitorType ← getPart tokens .monitor
    return if monitorType <:+: type ∧ validFilenameExt filenameExt then some tokens else none

def filePathKey (dirToProc filename : Text) : Text := dirToProc ++ '/' :: filename

/-- the body of the loop over the directory -/
def addFile (dirToProc type : Text) (fileDict : Dict Text (List Text)) (filename : Text) :
    Except PyExc (Dict Text (List Text)) := do
  match ← parserFor type filename with
  | none => return fileDict
  | some tokens => return fileDict.set (filePathKey dirToProc filename) tokens

/-- `build_file_map`, with what `os.listdir` returns -/
def buildFileMap (dirToProc type : Text) (listing : List Text) : Except PyExc (Dict Text (List Text)) := do
  let fileDict ← listing.foldlM (addFile dirToProc type) .empty
  if fileDict.items = [] then throw .noMatchingFilesError else return fileDict

/-! ## Grammar -/

/-- NODE_COMPONENT_MONITOR_RESOURCE_DATE(_METADATA); a MONITOR or a RESOURCE is any member of its set -/
def Regular (u monitor resource : Text) : Prop :=
  ∃ node component rest, u = node ++ '_' :: (component ++ '_' :: (monitor ++ '_' :: (resource ++ '_' :: rest))) ∧
    ('_' ∉ node ∧ '_' ∉ component) ∧
    validNode node ∧ validComponent component ∧ validMonitor monitor ∧ validResource resource

/-- a file name with an extension and an optional `_TO_` part, whose MONITOR matches the type -/
def ConformsWith (type name monitor resource : Text) : Prop :=
  ∃ primary ext, name = primary ++ '.' :: ext ∧ '.' ∉ primary ∧ validFilenameExt ext ∧
    Regular (upstream primary) monitor resource ∧ monitor <:+: type

def Conforms (type name : Text) : Prop := ∃ monitor resource, ConformsWith type name monitor resource

/-- the conforming names, and no others, are mapped; if there are none that is said -/
def MapsExactly (dirToProc type : Text) (listing : List Text) : Prop :=
  match buildFileMap dirToProc type listing with
  | .ok fileDict => (∃ name ∈ listing, Conforms type name) ∧
      ∀ key, key ∈ fileDict.keys ↔ ∃ name ∈ listing, Conforms type name ∧ key = filePathKey dirToProc name
  | .error e => e = .noMatchingFilesError ∧ ∀ name ∈ listing, ¬ Conforms type name

/-- every name has a dot; no name has a second dot behind what would be mapped alone; no name conforms by a MONITOR or a
RESOURCE with a '_' in it -/
structure Plain (type : Text) (listing : List Text) : Prop where
  dot : ∀ name ∈ listing, '.' ∈ name
  oneDot : ∀ name ∈ listing, ∀ front rest, name = front ++ '.' :: rest →
    ∀ monitor resource, ConformsWith type front monitor resource → '_' ∈ monitor ∨ '_' ∈ resource
  noUnderscore : ∀ name ∈ listing, ∀ monitor resource, ConformsWith type name monitor resource →
    '_' ∉ monitor ∧ '_' ∉ resource

/-! ## What is accepted -/

theorem notMem_dot_of_validFilenameExt {ext : Text} (h : validFilenameExt ext) : '.' ∉ ext := by
  have hall : ∀ e ∈ ["csv", "data", "log"].map String.toList, '.' ∉ e := by decide
  exact hall ext (by simpa [validFilenameExt] using h)

/-- conforming without a '_' in MONITOR and RESOURCE, which is what the code can see -/
def Visible (type name : Text) : Prop :=
  ∃ monitor resource, ConformsWith type name monitor resource ∧ '_' ∉ monitor ∧ '_' ∉ resource

/-- a visible name, or one with more behind it -/
def Accepted (type name : Text) : Prop := Visible type name ∨ ∃ front rest, name = front ++ '.' :: rest ∧ Visible type front

/-- the check of a name with a dot, by the two pieces it looks at -/
theorem parserFor_append {type primary rest ext : Text} (hp : '.' ∉ primary) (hext : parseName rest 0 = .ok ext) :
    parserFor type (primary ++ '.' :: rest) = .ok
      (match checkRegularFilenameTokens ((upstream primary).splitOn '_') with
      | .ok () =>
        if ((upstream primary).splitOn '_').getD 2 [] <:+: type ∧ validFilenameExt ext
        then some ((upstream primary).splitOn '_') else none
      | .error _ => none) := by
  unfold parserFor
  rw [parseFileExt_append hp, hext, parseFilename_of_primary (parseName_zero hp)]
  simp only [bind, Except.bind]
  cases hcheck : checkRegularFilenameTokens ((upstream primary).splitOn '_') with
  | error e => rfl
  | ok u =>
    obtain ⟨node, component, monitor, resource, date, more, htokens, -⟩ := check_ok.1 hcheck
    simp only [htokens, getPart, Part.index]
    rfl

/-- the two pieces that are looked at make up a visible name -/
theorem visible_append {type primary ext : Text} (hp : '.' ∉ primary) : Visible type (primary ++ '.' :: ext) ↔
    checkRegularFilenameTokens ((upstream primary).splitOn '_') = .ok () ∧
    ((upstream primary).splitOn '_').getD 2 [] <:+: type ∧ validFilenameExt ext := by
  constructor
  · rintro ⟨monitor, resource, ⟨primary', ext', hname, hp', hext, hregular, htype⟩, hm, hr⟩
    obtain ⟨rfl, rfl⟩ := append_cons_inj_left hp hp' hname
    obtain ⟨node, component, rest, hu, ⟨hn, hc⟩, hvalid⟩ := hregular
    refine ⟨check_splitOn.2 ⟨node, component, monitor, resource, rest, hu, ⟨hn, hc, hm, hr⟩, hvalid⟩, ?_, hext⟩
    rw [hu, List.splitOn_append_cons_self_of_not_mem hn, List.splitOn_append_cons_self_of_not_mem hc,
      List.splitOn_append_cons_self_of_not_mem hm]
    exact htype
  · rintro ⟨hcheck, htype, hext⟩
    obtain ⟨node, component, monitor, resource, rest, hu, ⟨hn, hc, hm, hr⟩, hvalid⟩ := check_splitOn.1 hcheck
    rw [hu, List.splitOn_append_cons_self_of_not_mem hn, List.splitOn_append_cons_self_of_not_mem hc,
      List.splitOn_append_cons_self_of_not_mem hm] at htype
    exact ⟨monitor, resource, ⟨primary, ext, rfl, hp, hext, ⟨node, component, rest, hu, ⟨hn, hc⟩, hvalid⟩, htype⟩, hm, hr⟩

/-- a visible name has one dot -/
theorem Visible.ext_noDot {type primary rest : Text} (hp : '.' ∉ primary) (h : Visible type (primary ++ '.' :: rest)) :
    '.' ∉ rest :=
  notMem_dot_of_validFilenameExt ((visible_append hp).1 h).2.2

theorem accepted_append {type primary rest ext : Text} (hp : '.' ∉ primary) (hext : '.' ∉ ext)
    (hrest : rest = ext ∨ ∃ more, rest = ext ++ '.' :: more) :
    Accepted type (primary ++ '.' :: rest) ↔ Visible type (primary ++ '.' :: ext) := by
  constructor
  · rintro (h | ⟨front, rest', hname, h⟩)
    · rcases hrest with rfl | ⟨more, rfl⟩
      · exact h
      · exact absurd (by simp) (h.ext_noDot hp)
    · have hfront := h
      obtain ⟨-, -, ⟨primary', ext', rfl, hp', hext', -⟩, -⟩ := hfront
      have hname' : primary ++ '.' :: rest = primary' ++ '.' :: (ext' ++ '.' :: rest') := by simpa using hname
      obtain ⟨rfl, rfl⟩ := append_cons_inj_left hp hp' hname'
      rcases hrest with rfl | ⟨more, hmore⟩
      · exact absurd (by simp) hext
      · obtain ⟨rfl, -⟩ := append_cons_inj_left (notMem_dot_of_validFilenameExt hext') hext hmore
        exact h
  · intro h
    rcases hrest with rfl | ⟨more, rfl⟩
    · exact .inl h
    · exact .inr ⟨primary ++ '.' :: ext, more, by simp, h⟩

/-- a name with a dot is mapped or not, and nothing is raised -/
theorem parserFor_spec (type : Text) {name : Text} (hdot : '.' ∈ name) :
    (Accepted type name ∧ ∃ tokens, parserFor type name = .ok (some tokens)) ∨
    (¬ Accepted type name ∧ parserFor type name = .ok none) := by
  obtain ⟨primary, rest, rfl, hp⟩ := List.eq_append_cons_of_mem hdot
  obtain ⟨ext, hname, hext, hrest⟩ := parseName_zero_spec rest
  rw [accepted_append hp hext hrest, visible_append hp, parserFor_append hp hname]
  cases hcheck : checkRegularFilenameTokens ((upstream primary).splitOn '_') with
  | error e => exact .inr ⟨by simp, rfl⟩
  | ok u =>
    by_cases hcond : ((upstream primary).splitOn '_').getD 2 [] <:+: type ∧ validFilenameExt ext
    · refine .inl ⟨⟨rfl, hcond⟩, (upstream primary).splitOn '_', ?_⟩
      simp only [hcond, and_self, if_true]
    · refine .inr ⟨fun h => hcond h.2, ?_⟩
      simp only [hcond, if_false]

/-- NODE of a mapped file is not empty and has no '_' -/
theorem parserFor_node {type name : Text} {tokens : List Text} (h : parserFor type name = .ok (some tokens)) :
    ∃ node more, tokens = node :: more ∧ node ≠ [] ∧ '_' ∉ node := by
  by_cases hdot : '.' ∈ name
  · obtain ⟨primary, rest, rfl, hp⟩ := List.eq_append_cons_of_mem hdot
    obtain ⟨ext, hname, -, -⟩ := parseName_zero_spec rest
    rw [parserFor_append hp hname] at h
    cases hcheck : checkRegularFilenameTokens ((upstream primary).splitOn '_') with
    | error e => simp [hcheck] at h
    | ok u =>
      simp only [hcheck, Except.ok.injEq, Option.ite_none_right_eq_some, Option.some.injEq] at h
      obtain ⟨node, component, monitor, resource, more, hu, ⟨hn, -⟩, hnode, -⟩ := check_splitOn.1 hcheck
      rw [hu, List.splitOn_append_cons_self_of_not_mem hn] at h
      refine ⟨node, _, h.2.symm, ?_, hn⟩
      rintro rfl
      exact absurd hnode (by decide)
  · unfold parserFor at h
    rw [parseFileExt_noDot hdot] at h
    cases h

/-! ## The loop -/

/-- a name without a dot stops the loop -/
theorem foldlM_noDot {dirToProc type name : Text} {listing : List Text} (hname : name ∈ listing) (hdot : '.' ∉ name)
    (fileDict : Dict Text (List Text)) : listing.foldlM (addFile dirToProc type) fileDict = .error .indexError := by
  induction listing generalizing fileDict with
  | nil => simp at hname
  | cons x listing ih =>
    rw [List.foldlM_cons]
    by_cases hx : '.' ∈ x
    · have hrest : name ∈ listing := by
        rcases List.mem_cons.1 hname with rfl | h
        · exact absurd hx hdot
        · exact h
      rcases parserFor_spec type hx with ⟨-, tokens, h⟩ | ⟨-, h⟩
      · simp only [addFile, h, bind, Except.bind, pure, Except.pure]
        exact ih hrest _
      · simp only [addFile, h, bind, Except.bind, pure, Except.pure]
        exact ih hrest _
    · simp only [addFile, parserFor, parseFileExt_noDot hx, bind, Except.bind]

/-- the items that the loop writes -/
def mapped (dirToProc type : Text) (listing : List Text) : List (Text × List Text) :=
  listing.filterMap fun filename =>
    match parserFor type filename with
    | .ok (some tokens) => some (filePathKey dirToProc filename, tokens)
    | _ => none

/-- the loop writes an item for each accepted name -/
theorem foldlM_dot (dirToProc type : Text) {listing : List Text} (hdot : ∀ name ∈ listing, '.' ∈ name)
    (fileDict : Dict Text (List Text)) :
    listing.foldlM (addFile dirToProc type) fileDict = .ok (fileDict.setAll (mapped dirToProc type listing)) := by
  induction listing generalizing fileDict with
  | nil => rfl
  | cons x listing ih =>
    have hrest : ∀ name ∈ listing, '.' ∈ name := fun name hn => hdot name (List.mem_cons_of_mem _ hn)
    rw [List.foldlM_cons]
    rcases parserFor_spec type (hdot x List.mem_cons_self) with ⟨-, tokens, h⟩ | ⟨-, h⟩
    · simp only [addFile, h, bind, Except.bind, pure, Except.pure, ih hrest, mapped, List.filterMap_cons]
      rfl
    · simp only [addFile, h, bind, Except.bind, pure, Except.pure, ih hrest, mapped, List.filterMap_cons]

theorem mem_mapped {dirToProc type : Text} {listing : List Text} {file : Text × List Text} :
    file ∈ mapped dirToProc type listing ↔
      ∃ name ∈ listing, parserFor type name = .ok (some file.2) ∧ file.1 = filePathKey dirToProc name := by
  unfold mapped
  rw [List.mem_filterMap]
  refine exists_congr fun name => and_congr_right fun _ => ?_
  cases h : parserFor type name with
  | error e => simp
  | ok o =>
    cases o with
    | none => simp
    | some tokens =>
      simp only [Option.some.injEq, Except.ok.injEq]
      constructor
      · rintro rfl
        exact ⟨rfl, rfl⟩
      · rintro ⟨htokens, hkey⟩
        rw [htokens, ← hkey]

theorem filePathKey_inj {dirToProc name name' : Text} (h : filePathKey dirToProc name = filePathKey dirToProc name') :
    name = name' := by
  simpa [filePathKey] using h

/-- different names have different paths -/
theorem nodup_mapped {dirToProc type : Text} {listing : List Text} (hn : listing.Nodup) :
    ((mapped dirToProc type listing).map Prod.fst).Nodup := by
  have hsub : ((mapped dirToProc type listing).map Prod.fst).Sublist (listing.map (filePathKey dirToProc)) := by
    clear hn
    induction listing with
    | nil => exact List.Sublist.slnil
    | cons x listing ih =>
      unfold mapped at ih ⊢
      rw [List.filterMap_cons]
      split
      · exact ih.cons _
      · next file hfile =>
        split at hfile
        · cases hfile
          exact ih.cons_cons _
        · cases hfile
  exact hsub.nodup (hn.map fun _ _ => filePathKey_inj)

/-- a map is built when every name has a dot and one of them is accepted; it has an item for each accepted name -/
theorem buildFileMap_ok_iff {dirToProc type : Text} {listing : List Text} (hn : listing.Nodup) {fileDict : Dict Text (List Text)} :
    buildFileMap dirToProc type listing = .ok fileDict ↔
      (∀ name ∈ listing, '.' ∈ name) ∧ mapped dirToProc type listing ≠ [] ∧
        fileDict.items = mapped dirToProc type listing := by
  unfold buildFileMap
  by_cases hdot : ∀ name ∈ listing, '.' ∈ name
  · have hitems : (Dict.empty.setAll (mapped dirToProc type listing)).items = mapped dirToProc type listing :=
      Dict.items_setAll (by simpa [Dict.empty] using nodup_mapped hn)
    rw [foldlM_dot dirToProc type hdot]
    simp only [bind, Except.bind, hitems]
    by_cases hempty : mapped dirToProc type listing = []
    · simp [hempty, throw, throwThe, MonadExceptOf.throw]
    · simp only [hempty, if_false, pure, Except.pure, Except.ok.injEq]
      constructor
      · rintro rfl
        exact ⟨hdot, hempty, hitems⟩
      · rintro ⟨-, -, h⟩
        exact Dict.ext_items (hitems.trans h.symm)
  · push Not at hdot
    obtain ⟨name, hname, hnodot⟩ := hdot
    rw [foldlM_noDot hname hnodot]
    simp only [bind, Except.bind, reduceCtorEq, false_iff]
    intro h
    exact hnodot (h.1 name hname)

theorem mem_keys_mapped (dirToProc type : Text) {listing : List Text} (hdot : ∀ name ∈ listing, '.' ∈ name) (key : Text) :
    key ∈ (Dict.empty.setAll (mapped dirToProc type listing)).keys ↔
      ∃ name ∈ listing, Accepted type name ∧ key = filePathKey dirToProc name := by
  rw [Dict.mem_keys_setAll]
  constructor
  · rintro (hmem | hmem)
    · obtain ⟨file, hfile, rfl⟩ := List.mem_map.1 hmem
      obtain ⟨name, hname, hparser, hkey⟩ := mem_mapped.1 hfile
      refine ⟨name, hname, ?_, hkey⟩
      rcases parserFor_spec type (hdot name hname) with ⟨hacc, -⟩ | ⟨-, hnone⟩
      · exact hacc
      · rw [hnone] at hparser
        cases hparser
    · simp [Dict.keys, Dict.empty] at hmem
  · rintro ⟨name, hname, hacc, rfl⟩
    left
    rcases parserFor_spec type (hdot name hname) with ⟨-, tokens, htokens⟩ | ⟨hno, -⟩
    · exact List.mem_map.2 ⟨(_, tokens), mem_mapped.2 ⟨name, hname, htokens, rfl⟩, rfl⟩
    · exact absurd hacc hno

/-! ## A '_' inside a token -/

/-- what follows the '_' in a MONITOR -/
theorem lower_of_validMonitor {a b : Text} (ha : '_' ∉ a) (h : validMonitor (a ++ '_' :: b)) :
    lower b = "event".toList ∨ lower b = "resource".toList := by
  have hset : ∀ w ∈ monitorSet, w.splitOn '_' = [w] ∨ (w.splitOn '_').tail ∈ [["event".toList], ["resource".toList]] := by
    decide
  have hmem : lower a ++ '_' :: lower b ∈ monitorSet := by
    simpa [validMonitor, lower_append, lower_cons_underscore] using h
  have hsplit : (lower a ++ '_' :: lower b).splitOn '_' = lower a :: (lower b).splitOn '_' :=
    List.splitOn_append_cons_self_of_not_mem (fun hu => ha (underscore_mem_lower.1 hu)) _
  have hjoin : ['_'].intercalate ((lower b).splitOn '_') = lower b := List.intercalate_splitOn '_'
  rcases hset _ hmem with heq | htail
  · rw [hsplit, List.cons.injEq] at heq
    exact absurd heq.2 (List.splitOn_ne_nil _ _)
  · rw [hsplit, List.tail_cons] at htail
    simp only [List.mem_cons, List.not_mem_nil, or_false] at htail
    rcases htail with htail | htail
    · left
      rw [← hjoin, htail]
      rfl
    · right
      rw [← hjoin, htail]
      rfl

/-- what precedes the '_' in a RESOURCE -/
theorem lower_of_validResource {a b : Text} (ha : '_' ∉ a) (h : validResource (a ++ '_' :: b)) :
    lower a = "service".toList := by
  have hset : ∀ w ∈ resourceSet, w.splitOn '_' = [w] ∨ (w.splitOn '_').head? = some "service".toList := by
    decide
  have hmem : lower a ++ '_' :: lower b ∈ resourceSet := by
    simpa [validResource, lower_append, lower_cons_underscore] using h
  have hsplit : (lower a ++ '_' :: lower b).splitOn '_' = lower a :: (lower b).splitOn '_' :=
    List.splitOn_append_cons_self_of_not_mem (fun hu => ha (underscore_mem_lower.1 hu)) _
  rcases hset _ hmem with heq | hhead
  · rw [hsplit, List.cons.injEq] at heq
    exact absurd heq.2 (List.splitOn_ne_nil _ _)
  · rw [hsplit] at hhead
    simpa using hhead

/-- a text is not read in two ways: a '_' in MONITOR or RESOURCE leaves a token behind that is no RESOURCE -/
theorem Regular.unique {u m r m' r' : Text} (h : Regular u m r) (h' : Regular u m' r') (hm' : '_' ∉ m') (hr' : '_' ∉ r') :
    '_' ∉ m ∧ '_' ∉ r := by
  obtain ⟨node, component, rest, rfl, ⟨hn, hc⟩, -, -, hmon, hres⟩ := h
  obtain ⟨node', component', rest', hu, ⟨hn', hc'⟩, -, -, -, hres'⟩ := h'
  obtain ⟨rfl, hu₁⟩ := append_cons_inj_left hn hn' hu
  obtain ⟨rfl, hu₂⟩ := append_cons_inj_left hc hc' hu₁
  have hm : '_' ∉ m := by
    intro hmem
    obtain ⟨a, b, rfl, ha⟩ := List.eq_append_cons_of_mem hmem
    rw [List.append_assoc, List.cons_append] at hu₂
    obtain ⟨rfl, hu₃⟩ := append_cons_inj_left ha hm' hu₂
    have hb := lower_of_validMonitor ha hmon
    have hfree : '_' ∉ b := by
      intro hmem
      have hlow := underscore_mem_lower.2 hmem
      rcases hb with hb | hb
      · rw [hb] at hlow
        exact absurd hlow (by decide)
      · rw [hb] at hlow
        exact absurd hlow (by decide)
    obtain ⟨rfl, -⟩ := append_cons_inj_left hfree hr' hu₃
    rcases hb with hb | hb
    · simp only [validResource, hb] at hres'
      exact absurd hres' (by decide)
    · simp only [validResource, hb] at hres'
      exact absurd hres' (by decide)
  refine ⟨hm, ?_⟩
  intro hmem
  obtain ⟨rfl, hu₃⟩ := append_cons_inj_left hm hm' hu₂
  obtain ⟨a, b, rfl, ha⟩ := List.eq_append_cons_of_mem hmem
  rw [List.append_assoc, List.cons_append] at hu₃
  obtain ⟨rfl, -⟩ := append_cons_inj_left ha hr' hu₃
  simp only [validResource, lower_of_validResource ha hres] at hres'
  exact absurd hres' (by decide)

/-- a conforming name has one dot -/
theorem ConformsWith.ext_noDot {type primary rest m r : Text} (hp : '.' ∉ primary)
    (h : ConformsWith type (primary ++ '.' :: rest) m r) : '.' ∉ rest := by
  obtain ⟨primary', ext, hname, hp', hext, -⟩ := h
  obtain ⟨-, rfl⟩ := append_cons_inj_left hp hp' hname
  exact notMem_dot_of_validFilenameExt hext

/-- an accepted name that conforms does so without a '_' in MONITOR and RESOURCE -/
theorem Accepted.noUnderscore {type name m r : Text} (hacc : Accepted type name) (h : ConformsWith type name m r) :
    '_' ∉ m ∧ '_' ∉ r := by
  rcases hacc with ⟨m', r', h', hm', hr'⟩ | ⟨front, rest, rfl, -, -, ⟨primary, ext, rfl, hp, -⟩, -⟩
  · obtain ⟨primary, ext, rfl, hp, -, hregular, -⟩ := h
    obtain ⟨primary', ext', hname, hp', -, hregular', -⟩ := h'
    obtain ⟨rfl, rfl⟩ := append_cons_inj_left hp hp' hname
    exact hregular.unique hregular' hm' hr'
  · rw [List.append_assoc] at h
    exact absurd (by simp) (h.ext_noDot hp)

/-! ## Exactly the conforming names -/

/-- the map is exact when every name has a dot and the accepted names are the conforming ones -/
theorem mapsExactly_iff_accepted {dirToProc type : Text} {listing : List Text} : MapsExactly dirToProc type listing ↔
    (∀ name ∈ listing, '.' ∈ name) ∧ ∀ name ∈ listing, (Accepted type name ↔ Conforms type name) := by
  unfold MapsExactly buildFileMap
  by_cases hdot : ∀ name ∈ listing, '.' ∈ name
  · have hd := foldlM_dot dirToProc type hdot .empty
    have hkeys' := mem_keys_mapped dirToProc type hdot
    generalize Dict.empty.setAll (mapped dirToProc type listing) = d at hd hkeys'
    have hmapped : ∀ name ∈ listing, (filePathKey dirToProc name ∈ d.keys ↔ Accepted type name) := by
      intro name hname
      rw [hkeys']
      constructor
      · rintro ⟨name', -, hacc, heq⟩
        rwa [filePathKey_inj heq]
      · intro hacc
        exact ⟨name, hname, hacc, rfl⟩
    simp only [hd, bind, Except.bind]
    by_cases hempty : d.items = []
    · simp only [hempty, if_true, throw, throwThe, MonadExceptOf.throw, true_and]
      have hnone : ∀ name ∈ listing, ¬ Accepted type name := by
        intro name hname hacc
        have := (hmapped name hname).2 hacc
        simp [Dict.keys, hempty] at this
      refine ⟨fun h => ⟨hdot, fun name hname => ⟨fun hacc => absurd hacc (hnone name hname),
        fun hconf => absurd hconf (h name hname)⟩⟩, fun h name hname hconf => ?_⟩
      exact hnone name hname ((h.2 name hname).2 hconf)
    · simp only [hempty, if_false, pure, Except.pure]
      constructor
      · rintro ⟨-, h⟩
        refine ⟨hdot, fun name hname => ?_⟩
        rw [← hmapped name hname, h]
        constructor
        · rintro ⟨name', -, hconf, heq⟩
          rwa [filePathKey_inj heq]
        · intro hconf
          exact ⟨name, hname, hconf, rfl⟩
      · rintro ⟨-, h⟩
        have hall : ∀ key, key ∈ d.keys ↔ ∃ name ∈ listing, Conforms type name ∧ key = filePathKey dirToProc name := by
          intro key
          rw [hkeys']
          refine exists_congr fun name => and_congr_right fun hname => ?_
          rw [h name hname]
        obtain ⟨e, items, hitems⟩ := List.exists_cons_of_ne_nil hempty
        obtain ⟨name, hname, hconf, -⟩ := (hall e.1).1 (by simp [Dict.keys, hitems])
        exact ⟨⟨name, hname, hconf⟩, hall⟩
  · push Not at hdot
    obtain ⟨name, hname, hnodot⟩ := hdot
    rw [foldlM_noDot hname hnodot]
    simp only [bind, Except.bind]
    constructor
    · rintro ⟨h, -⟩
      cases h
    · intro h
      exact absurd (h.1 name hname) hnodot

/-- **Which listings are mapped exactly.** `build_file_map` maps the conforming names of a directory and no others if and only
if every name has a dot, no name continues behind a second dot after a name that is mapped, and no name conforms by one of
the members with a '_' of the sets of monitors and resources. -/
theorem buildFileMap_exact_iff (dirToProc type : Text) (listing : List Text) :
    MapsExactly dirToProc type listing ↔ Plain type listing := by
  rw [mapsExactly_iff_accepted]
  constructor
  · rintro ⟨hdot, h⟩
    refine ⟨hdot, ?_, ?_⟩
    · intro name hname front rest heq m r hconf
      by_contra hno
      push Not at hno
      have hacc : Accepted type name := .inr ⟨front, rest, heq, m, r, hconf, hno⟩
      obtain ⟨m', r', hconf'⟩ := (h name hname).1 hacc
      obtain ⟨primary, ext, rfl, hp, -⟩ := hconf
      rw [heq, List.append_assoc] at hconf'
      exact absurd (by simp) (hconf'.ext_noDot hp)
    · intro name hname m r hconf
      exact ((h name hname).2 ⟨m, r, hconf⟩).noUnderscore hconf
  · intro h
    refine ⟨h.dot, fun name hname => ⟨?_, ?_⟩⟩
    · rintro (⟨m, r, hconf, -⟩ | ⟨front, rest, heq, m, r, hconf, hm, hr⟩)
      · exact ⟨m, r, hconf⟩
      · rcases h.oneDot name hname front rest heq m r hconf with hu | hu
        · exact absurd hu hm
        · exact absurd hu hr
    · rintro ⟨m, r, hconf⟩
      exact .inl ⟨m, r, hconf, h.noUnderscore name hname m r hconf⟩

/-- the three kinds of names: no dot, two dots, and a MONITOR or RESOURCE with a '_' -/
theorem buildFileMap_not_exact :
    ¬ MapsExactly "logs".toList "col".toList ["README".toList, "node1_http_col_io_1.csv".toList] ∧
    ¬ MapsExactly "logs".toList "col".toList ["node1_http_col_io_1.csv.bak".toList] ∧
    ¬ MapsExactly "logs".toList "mscope_event".toList ["node1_http_mscope_event_io_1.csv".toList] ∧
    ¬ MapsExactly "logs".toList "mscope".toList ["node1_http_mscope_service_time_1.csv".toList] := by
  refine ⟨?_, ?_, ?_, ?_⟩
  · intro h
    have hdot := (mapsExactly_iff_accepted.1 h).1 "README".toList (by simp)
    exact absurd hdot (by decide)
  · intro h
    have hvisible : Visible "col".toList ("node1_http_col_io_1".toList ++ '.' :: "csv".toList) :=
      (visible_append (by decide)).2 (by decide +kernel)
    obtain ⟨m, r, hconf⟩ := ((mapsExactly_iff_accepted.1 h).2 _ (List.mem_singleton_self _)).1
      (.inr ⟨"node1_http_col_io_1.csv".toList, "bak".toList, by decide, hvisible⟩)
    have hbak : ConformsWith "col".toList ("node1_http_col_io_1".toList ++ '.' :: "csv.bak".toList) m r := hconf
    exact absurd (by decide) (hbak.ext_noDot (by decide))
  · intro h
    have hconf : ConformsWith "mscope_event".toList "node1_http_mscope_event_io_1.csv".toList
        "mscope_event".toList "io".toList :=
      ⟨"node1_http_mscope_event_io_1".toList, "csv".toList, by decide, by decide, by decide,
        ⟨"node1".toList, "http".toList, "1".toList, by decide +kernel⟩, by decide⟩
    have hacc := ((mapsExactly_iff_accepted.1 h).2 _ (List.mem_singleton_self _)).2 ⟨_, _, hconf⟩
    exact absurd (by decide) (hacc.noUnderscore hconf).1
  · intro h
    have hconf : ConformsWith "mscope".toList "node1_http_mscope_service_time_1.csv".toList
        "mscope".toList "service_time".toList :=
      ⟨"node1_http_mscope_service_time_1".toList, "csv".toList, by decide, by decide, by decide,
        ⟨"node1".toList, "http".toList, "1".toList, by decide +kernel⟩, by decide⟩
    have hacc := ((mapsExactly_iff_accepted.1 h).2 _ (List.mem_singleton_self _)).2 ⟨_, _, hconf⟩
    exact absurd (by decide) (hacc.noUnderscore hconf).2

end Rubbos.Transform.FileMap
