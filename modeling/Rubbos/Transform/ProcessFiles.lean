/-
What `process_files` returns, and when it raises.

Each file is read on its own, and what it gives is merged into the output. A label behind `time_index` starts with the NODE
of its file, which has no '_', so two nodes never have such a label in common; the labels in front are shared on purpose.

- `values_of_every_node`: the order of the files does not matter, and every value of a node is in the output.
- `processFiles_tolerant_iff`: the directories for which nothing is raised.
Witnesses `shared_label_overwrites` and `processFiles_raises`.
-/
import Rubbos.Transform.MultifileParser

namespace Rubbos.Transform.ProcessFiles

open Rubbos.Core Python FilenameUtils FileMap MultifileParser

variable {κ : Type} [DecidableEq κ]

/-! ## What the files give together -/

/-- the files of a directory that are read -/
def files (defn : FileDefn) (dir : Directory) : List (Text × List Text) := mapped dir.path defn.type dir.names

/-- the cleaned header of a file -/
def header (defn : FileDefn) (dir : Directory) (file : Text × List Text) : List Text :=
  headerOf defn (nodeOf file) (dir.contents file.1)

/-- there is a header row, and it makes a class -/
def Processable (lib : Library κ) (defn : FileDefn) (dir : Directory) (file : Text × List Text) : Prop :=
  HasHeader defn (dir.contents file.1) ∧ isHeader lib (header defn dir file)

instance (lib : Library κ) (defn : FileDefn) (dir : Directory) : DecidablePred (Processable lib defn dir) :=
  fun _ => inferInstanceAs (Decidable (_ ∧ _))

/-- the records of a file with their times; a file that cannot be processed has none -/
def records (lib : Library κ) (defn : FileDefn) (dir : Directory) (file : Text × List Text) : List (κ × List Text) :=
  if Processable lib defn dir file then timed lib defn (header defn dir file) (dataRows defn (dir.contents file.1)) else []

/-- the value of a label in the last record of a file with the given time -/
def lastValue (lib : Library κ) (defn : FileDefn) (dir : Directory) (t : κ) (l : Text) (file : Text × List Text) :
    Option Text :=
  (Dict.last (records lib defn dir file) t).bind fun row => valueOf (header defn dir file) row l

variable {lib : Library κ} {defn : FileDefn} {dir : Directory}

theorem mem_files {file : Text × List Text} (h : file ∈ files defn dir) :
    ∃ node more, file.2 = node :: more ∧ node ≠ [] ∧ '_' ∉ node := by
  obtain ⟨name, -, hparser, -⟩ := mem_mapped.1 h
  exact parserFor_node hparser

/-- **The loop over the files.** -/
theorem processFiles_ok_iff {out : Output κ} : processFiles lib defn dir = .ok out ↔
    (∀ name ∈ dir.names, '.' ∈ name) ∧ files defn dir ≠ [] ∧
    ∃ rs, (files defn dir).mapM (fun file => fileData lib defn (nodeOf file) (dir.contents file.1)) = .ok rs ∧
      out = rs.foldl addTo ⟨[], .empty⟩ := by
  have hne : ∀ file ∈ files defn dir, file.2 ≠ [] := by
    intro file hfile
    obtain ⟨node, more, h, -⟩ := mem_files hfile
    simp [h]
  unfold processFiles
  rw [bind_eq_ok]
  constructor
  · rintro ⟨fileParserMap, hmap, h⟩
    obtain ⟨hdot, hsome, hitems⟩ := (buildFileMap_ok_iff dir.nodup).1 hmap
    have hfiles : fileParserMap.items = files defn dir := hitems
    rw [hfiles] at h
    refine ⟨hdot, hsome, ?_⟩
    rw [foldlM_processFile lib defn dir.contents hne] at h
    cases hrs : (files defn dir).mapM fun file => fileData lib defn (nodeOf file) (dir.contents file.1) with
    | error e =>
      rw [hrs] at h
      cases h
    | ok rs =>
      rw [hrs] at h
      cases h
      exact ⟨rs, rfl, rfl⟩
  · rintro ⟨hdot, hsome, rs, hrs, rfl⟩
    refine ⟨⟨files defn dir, nodup_mapped dir.nodup⟩, (buildFileMap_ok_iff dir.nodup).2 ⟨hdot, hsome, rfl⟩, ?_⟩
    simp only
    rw [foldlM_processFile lib defn dir.contents hne, hrs]
    rfl

/-- what one file adds -/
theorem addTo_spec (out : Output κ) {file : Text × List Text} {r : Option (List Text × Dict κ (Dict Text Text))}
    (h : fileData lib defn (nodeOf file) (dir.contents file.1) = .ok r) :
    (addTo out r).collectedHeaders =
      out.collectedHeaders ++ (if Processable lib defn dir file then [header defn dir file] else []) ∧
    (∀ t l, look (addTo out r).outputRows t l = (lastValue lib defn dir t l file).or (look out.outputRows t l)) ∧
    ∀ t, t ∈ (addTo out r).outputRows.keys ↔ (∃ row, (t, row) ∈ records lib defn dir file) ∨ t ∈ out.outputRows.keys := by
  obtain ⟨hhas, ⟨hh, rfl⟩ | ⟨hh, -, st, hst, rfl⟩⟩ := fileData_ok h
  · have hp : ¬ Processable lib defn dir file := fun hp => hh hp.2
    refine ⟨by simp [addTo, hp], ?_, ?_⟩
    · intro t l
      simp [addTo, lastValue, records, hp, Dict.last]
    · intro t
      simp [addTo, records, hp]
  · have hp : Processable lib defn dir file := ⟨hhas, hh⟩
    have hn := nodup_of_isHeader hh
    refine ⟨by simp [addTo, hp, header], ?_, ?_⟩
    · intro t l
      simp only [addTo, look_mergeAll]
      rw [look_foldlM_addRow hn hst]
      simp [lastValue, records, hp, header, look, Dict.get, Dict.empty]
    · intro t
      simp only [addTo, mem_keys_mergeAll]
      rw [mem_keys_foldlM_addRow hst]
      simp [records, hp, header, Dict.keys, Dict.empty]

/-- what all files add -/
theorem foldl_addTo_spec {fs : List (Text × List Text)} {rs : List (Option (List Text × Dict κ (Dict Text Text)))}
    (h : List.Forall₂ (fun file r => fileData lib defn (nodeOf file) (dir.contents file.1) = .ok r) fs rs) (out : Output κ) :
    (rs.foldl addTo out).collectedHeaders =
      out.collectedHeaders ++ (fs.filter (Processable lib defn dir ·)).map (header defn dir) ∧
    (∀ t l, look (rs.foldl addTo out).outputRows t l =
      (fs.reverse.findSome? (lastValue lib defn dir t l)).or (look out.outputRows t l)) ∧
    ∀ t, t ∈ (rs.foldl addTo out).outputRows.keys ↔
      (∃ file ∈ fs, ∃ row, (t, row) ∈ records lib defn dir file) ∨ t ∈ out.outputRows.keys := by
  induction h generalizing out with
  | nil => simp
  | @cons file r fs rs hfile _ ih =>
    obtain ⟨hheaders, hlook, hkeys⟩ := addTo_spec out hfile
    obtain ⟨ihheaders, ihlook, ihkeys⟩ := ih (addTo out r)
    refine ⟨?_, ?_, ?_⟩
    · rw [List.foldl_cons, ihheaders, hheaders, List.append_assoc]
      by_cases hp : Processable lib defn dir file <;> simp [hp]
    · intro t l
      rw [List.foldl_cons, ihlook, hlook, List.reverse_cons, List.findSome?_append, Option.or_assoc]
      congr 1
      cases h : lastValue lib defn dir t l file <;> simp [h]
    · intro t
      rw [List.foldl_cons, ihkeys, hkeys]
      simp only [List.mem_cons, exists_eq_or_imp]
      rw [or_left_comm, or_assoc]

/-- every file raises nothing exactly when each of them is smooth -/
theorem mapM_fileData_ok_iff {fs : List (Text × List Text)} :
    (∃ rs, fs.mapM (fun file => fileData lib defn (nodeOf file) (dir.contents file.1)) = .ok rs) ↔
      ∀ file ∈ fs, Smooth lib defn (nodeOf file) (dir.contents file.1) := by
  induction fs with
  | nil => simp [pure, Except.pure]
  | cons file fs ih =>
    simp only [List.mapM_cons, bind_eq_ok, pure, Except.pure, Except.ok.injEq, List.mem_cons, forall_eq_or_imp]
    rw [← fileData_ok_iff, ← ih]
    constructor
    · rintro ⟨rs, r, hr, rs', hrs', -⟩
      exact ⟨⟨r, hr⟩, ⟨rs', hrs'⟩⟩
    · rintro ⟨⟨r, hr⟩, ⟨rs', hrs'⟩⟩
      exact ⟨r :: rs', r, hr, rs', hrs', rfl⟩

/-- **What is returned.** The headers of the files that can be processed, and for each time and label the value of the last
such file that has one. -/
theorem processFiles_spec {out : Output κ} (h : processFiles lib defn dir = .ok out) :
    out.collectedHeaders = ((files defn dir).filter (Processable lib defn dir ·)).map (header defn dir) ∧
    (∀ t l, look out.outputRows t l = (files defn dir).reverse.findSome? (lastValue lib defn dir t l)) ∧
    ∀ t, t ∈ out.outputRows.keys ↔ ∃ file ∈ files defn dir, ∃ row, (t, row) ∈ records lib defn dir file := by
  obtain ⟨-, -, rs, hrs, rfl⟩ := processFiles_ok_iff.1 h
  obtain ⟨hheaders, hlook, hkeys⟩ := foldl_addTo_spec (forall₂_of_mapM_ok hrs) ⟨[], .empty⟩
  refine ⟨hheaders, ?_, ?_⟩
  · intro t l
    rw [hlook]
    exact Option.or_none
  · intro t
    rw [hkeys]
    simp [Dict.keys, Dict.empty]

/-! ## Every node keeps its values -/

/-- two listings of one directory -/
structure SameFiles (dir dir' : Directory) : Prop where
  path : dir.path = dir'.path
  contents : dir.contents = dir'.contents
  names : dir.names.Perm dir'.names

/-- no two files have the same NODE -/
def DistinctNodes (defn : FileDefn) (dir : Directory) : Prop :=
  ∀ file ∈ files defn dir, ∀ file' ∈ files defn dir, nodeOf file = nodeOf file' → file = file'

/-- a label of the time columns of a file, which have no prefix -/
def TimeLabel (defn : FileDefn) (dir : Directory) (l : Text) (file : Text × List Text) : Prop :=
  ∃ i : ℕ, (header defn dir file)[i]? = some l ∧ (i : ℤ) ≤ defn.timeIndex

theorem files_perm {dir' : Directory} (h : SameFiles dir dir') : (files defn dir).Perm (files defn dir') := by
  unfold files mapped
  rw [h.path]
  exact h.names.filterMap _

theorem mergeHeaders_perm {hs hs' : List (List Text)} (h : hs.Perm hs') : mergeHeaders hs = mergeHeaders hs' := by
  unfold mergeHeaders
  rw [List.toFinset_eq_of_perm _ _ h.flatten]

/-- a label behind the time columns starts with the node -/
theorem prefixed_label {file : Text × List Text} (hnode : nodeOf file ≠ []) {i : ℕ} {l : Text}
    (hi : defn.timeIndex < i) (hl : (header defn dir file)[i]? = some l) : ∃ x, l = nodeOf file ++ '_' :: x := by
  unfold header headerOf headerList at hl
  rw [List.getElem?_mapIdx, Option.map_eq_some_iff] at hl
  obtain ⟨label, -, rfl⟩ := hl
  simp only [hi, if_true, prefixStr, hnode, if_false]
  exact ⟨clean label, by simp⟩

/-- a label of one node is no label of the file of another node, unless it names a time column there -/
theorem notMem_other_header (hnodes : DistinctNodes defn dir) {file file' : Text × List Text} (hfile : file ∈ files defn dir)
    (hfile' : file' ∈ files defn dir) (hne : file' ≠ file) {i : ℕ} {l : Text} (hi : defn.timeIndex < i)
    (hl : (header defn dir file)[i]? = some l) (htime : ¬ TimeLabel defn dir l file') : l ∉ header defn dir file' := by
  intro hmem
  obtain ⟨node, more, hcons, hnode, hfree⟩ := mem_files hfile
  obtain ⟨node', more', hcons', hnode', hfree'⟩ := mem_files hfile'
  have hn : nodeOf file = node := by simp [nodeOf, hcons]
  have hn' : nodeOf file' = node' := by simp [nodeOf, hcons']
  obtain ⟨j, hj, hlj⟩ := List.mem_iff_getElem.1 hmem
  have hget : (header defn dir file')[j]? = some l := List.getElem?_eq_some_iff.2 ⟨hj, hlj⟩
  have hlt : defn.timeIndex < j := by
    by_contra hle
    exact htime ⟨j, hget, by omega⟩
  obtain ⟨x, hx⟩ := prefixed_label (by rwa [hn]) hi hl
  obtain ⟨y, hy⟩ := prefixed_label (by rwa [hn']) hlt hget
  rw [hn] at hx
  rw [hn'] at hy
  obtain ⟨rfl, -⟩ := append_cons_inj_left hfree hfree' (hx.symm.trans hy)
  exact hne (hnodes file' hfile' file hfile (hn'.trans hn.symm))

/-- a file without the label has no value for it -/
theorem lastValue_eq_none {file : Text × List Text} {l : Text} (h : l ∉ header defn dir file) (t : κ) :
    lastValue lib defn dir t l file = none := by
  unfold lastValue
  cases hlast : Dict.last (records lib defn dir file) t with
  | none => rfl
  | some row =>
    have hmem := Dict.mem_of_last hlast
    unfold records at hmem
    split_ifs at hmem
    · exact (valueOf_eq_none (mem_timed.1 hmem).2.1 l).2 h
    · simp at hmem

/-- only one file has values for the label -/
theorem findSome_of_unique {fs : List (Text × List Text)} {file : Text × List Text} (hfile : file ∈ fs) {t : κ} {l : Text}
    (h : ∀ file' ∈ fs, file' ≠ file → lastValue lib defn dir t l file' = none) :
    fs.findSome? (lastValue lib defn dir t l) = lastValue lib defn dir t l file := by
  induction fs with
  | nil => simp at hfile
  | cons x fs ih =>
    rw [List.findSome?_cons]
    by_cases hx : x = file
    · subst hx
      cases hv : lastValue lib defn dir t l x with
      | some v => rfl
      | none =>
        simp only
        rw [List.findSome?_eq_none_iff]
        intro y hy
        by_cases hyx : y = x
        · rw [hyx, hv]
        · exact h y (List.mem_cons_of_mem _ hy) hyx
    · rw [h x List.mem_cons_self hx]
      have hmem : file ∈ fs := by
        rcases List.mem_cons.1 hfile with hxf | hmem
        · exact absurd hxf.symm hx
        · exact hmem
      exact ih hmem fun y hy => h y (List.mem_cons_of_mem _ hy)

/-- what a file gives does not depend on the listing -/
theorem lastValue_eq {dir' : Directory} (h : SameFiles dir dir') : lastValue lib defn dir' = lastValue lib defn dir := by
  cases dir
  cases dir'
  obtain ⟨hpath, hcontents, -⟩ := h
  cases hpath
  cases hcontents
  rfl

omit [DecidableEq κ] in
theorem headers_eq {dir' : Directory} (h : SameFiles dir dir') (fs : List (Text × List Text)) :
    (fs.filter (Processable lib defn dir' ·)).map (header defn dir') =
      (fs.filter (Processable lib defn dir ·)).map (header defn dir) := by
  cases dir
  cases dir'
  obtain ⟨hpath, hcontents, -⟩ := h
  cases hpath
  cases hcontents
  rfl

/-- no file in another order raises an exception if none does in this one -/
theorem processFiles_perm {dir' : Directory} (hsame : SameFiles dir dir') {out : Output κ}
    (hout : processFiles lib defn dir = .ok out) : ∃ out', processFiles lib defn dir' = .ok out' := by
  obtain ⟨hdot, hsome, rs, hrs, rfl⟩ := processFiles_ok_iff.1 hout
  have hperm : (files defn dir).Perm (files defn dir') := files_perm hsame
  have hsmooth := mapM_fileData_ok_iff.1 ⟨rs, hrs⟩
  obtain ⟨rs', hrs'⟩ : ∃ rs', (files defn dir').mapM
      (fun file => fileData lib defn (nodeOf file) (dir'.contents file.1)) = .ok rs' := by
    rw [mapM_fileData_ok_iff, ← hsame.contents]
    intro file hfile
    exact hsmooth file (hperm.mem_iff.2 hfile)
  have hdot' : ∀ name ∈ dir'.names, '.' ∈ name := fun name hname => hdot name (hsame.names.mem_iff.2 hname)
  have hsome' : files defn dir' ≠ [] := by
    intro hempty
    rw [hempty] at hperm
    exact hsome hperm.eq_nil
  exact ⟨_, processFiles_ok_iff.2 ⟨hdot', hsome', rs', hrs', rfl⟩⟩

/-- **Every node keeps its values.** If the files of a directory have different nodes and are merged without an exception,
then they are in every order of the listing, with the same merged headers; and a label behind the time columns of a file, at
any time, has the value of the last record of that file with that time, or none, unless another file calls one of its time
columns so. -/
theorem values_of_every_node {dir' : Directory} (hsame : SameFiles dir dir') (hnodes : DistinctNodes defn dir)
    {out : Output κ} (hout : processFiles lib defn dir = .ok out) :
    ∃ out', processFiles lib defn dir' = .ok out' ∧
      mergeHeaders out'.collectedHeaders = mergeHeaders out.collectedHeaders ∧
      ∀ file ∈ files defn dir, ∀ (i : ℕ) (l : Text), defn.timeIndex < i → (header defn dir file)[i]? = some l →
        (∀ file' ∈ files defn dir, file' ≠ file → ¬ TimeLabel defn dir l file') →
        ∀ t, look out'.outputRows t l = lastValue lib defn dir t l file := by
  obtain ⟨out', hout'⟩ := processFiles_perm hsame hout
  have hperm : (files defn dir).Perm (files defn dir') := files_perm hsame
  obtain ⟨hheaders, -, -⟩ := processFiles_spec hout
  obtain ⟨hheaders', hlook', -⟩ := processFiles_spec hout'
  refine ⟨out', hout', ?_, ?_⟩
  · apply mergeHeaders_perm
    rw [hheaders', headers_eq hsame, hheaders]
    exact ((hperm.filter _).map _).symm
  · intro file hfile i l hi hl htime t
    have hmem : file ∈ (files defn dir').reverse := List.mem_reverse.2 (hperm.mem_iff.1 hfile)
    rw [hlook', lastValue_eq hsame]
    apply findSome_of_unique hmem
    intro file' hfile' hne
    have hmem' : file' ∈ files defn dir := hperm.mem_iff.2 (List.mem_reverse.1 hfile')
    exact lastValue_eq_none (notMem_other_header hnodes hfile hmem' hne hi hl (htime file' hmem' hne)) t

/-- the libraries on ASCII labels and whole seconds -/
def seconds : Library ℤ where
  isIdentifier := fun s => s.all (fun c => c.isAlphanum || c = '_') && s.head?.any fun c => !c.isDigit
  isKeyword := fun s => s ∈ ["and", "for", "if", "in", "is", "not", "or"].map String.toList
  adjustEpoch := fun adjustment time =>
    if time ≠ [] ∧ time.all Char.isDigit then .ok (digits time - 3600 * digits adjustment) else .error .valueError
  parse := fun _ => .error .valueError

/-- the definition for wait times, with the index of the last column that is not prefixed -/
def mscope (timeIndex : ℤ) : FileDefn where
  type := "mscope".toList
  headerRowNum := 1
  timeIndex := timeIndex
  timestamp := "timestamp".toList
  timeAdjustment := "2".toList

def csvOf (rows : List (List String)) : Content := ⟨rows.map (List.map String.toList), none⟩

def name1 : Text := "node1_http_mscope_dst_1.csv".toList
def name2 : Text := "node2_http_mscope_dst_1.csv".toList

/-- two nodes in one directory -/
def twoNodes (csv1 csv2 : Content) : Directory where
  path := "logs".toList
  names := [name1, name2]
  nodup := by decide
  contents := fun path => if path = filePathKey "logs".toList name1 then csv1 else csv2

/-- the same directory in the other order -/
def twoNodesReversed (csv1 csv2 : Content) : Directory where
  path := "logs".toList
  names := [name2, name1]
  nodup := by decide
  contents := (twoNodes csv1 csv2).contents

def waits1 : Content := csvOf [["timestamp", "dst"], ["7200", "5"], ["7201", "6"], ["7200", "7"]]
def waits2 : Content := csvOf [["timestamp", "dst"], ["7200", "8"]]

theorem values_of_two_nodes :
    SameFiles (twoNodes waits1 waits2) (twoNodesReversed waits1 waits2) ∧
    DistinctNodes (mscope 0) (twoNodes waits1 waits2) ∧
    ∃ out', processFiles seconds (mscope 0) (twoNodesReversed waits1 waits2) = .ok out' ∧
      look out'.outputRows 0 "node1_dst".toList = some "7".toList := by
  have hsame : SameFiles (twoNodes waits1 waits2) (twoNodesReversed waits1 waits2) := ⟨rfl, rfl, List.Perm.swap _ _ _⟩
  have hnodes : DistinctNodes (mscope 0) (twoNodes waits1 waits2) := by
    unfold DistinctNodes
    decide +kernel
  have hok : (processFiles seconds (mscope 0) (twoNodes waits1 waits2)).isOk := by decide +kernel
  obtain ⟨out, hout⟩ : ∃ out, processFiles seconds (mscope 0) (twoNodes waits1 waits2) = .ok out := by
    cases h : processFiles seconds (mscope 0) (twoNodes waits1 waits2) with
    | error e => simp [h, Except.isOk, Except.toBool] at hok
    | ok out => exact ⟨out, rfl⟩
  obtain ⟨out', hout', -, hvalues⟩ := values_of_every_node hsame hnodes hout
  have hfile : (filePathKey "logs".toList name1, name1.takeWhile (· ≠ '.') |>.splitOn '_') ∈
      files (mscope 0) (twoNodes waits1 waits2) := by decide +kernel
  refine ⟨hsame, hnodes, out', hout', ?_⟩
  rw [hvalues _ hfile 1 "node1_dst".toList (by decide) (by decide +kernel) ?_ 0]
  · decide +kernel
  · have htime : ∀ file' ∈ files (mscope 0) (twoNodes waits1 waits2),
        (header (mscope 0) (twoNodes waits1 waits2) file')[0]? ≠ some "node1_dst".toList := by decide +kernel
    rintro file' hfile' - ⟨i, hi, hle⟩
    have hle : (i : ℤ) ≤ 0 := hle
    have hzero : i = 0 := by omega
    subst hzero
    exact htime file' hfile' hi

/-- a second column without a prefix, named like a label of the other node -/
def clash1 : Content := csvOf [["timestamp", "node2_dst", "dst"], ["7200", "9", "5"]]
def clash2 : Content := csvOf [["timestamp", "seq", "dst"], ["7200", "1", "8"]]

/-- the value of the second node is lost when its file is read first, so the condition on the time columns is needed -/
theorem shared_label_overwrites :
    DistinctNodes (mscope 1) (twoNodesReversed clash1 clash2) ∧
    ∃ out, processFiles seconds (mscope 1) (twoNodesReversed clash1 clash2) = .ok out ∧
      ¬ ∀ file ∈ files (mscope 1) (twoNodesReversed clash1 clash2), ∀ (i : ℕ) (l : Text), (mscope 1).timeIndex < i →
        (header (mscope 1) (twoNodesReversed clash1 clash2) file)[i]? = some l →
        ∀ t, look out.outputRows t l = lastValue seconds (mscope 1) (twoNodesReversed clash1 clash2) t l file := by
  refine ⟨by unfold DistinctNodes; decide +kernel, ?_⟩
  have hlook : (processFiles seconds (mscope 1) (twoNodesReversed clash1 clash2)).toOption.map
      (fun out => look out.outputRows 0 "node2_dst".toList) = some (some "9".toList) := by decide +kernel
  cases hout : processFiles seconds (mscope 1) (twoNodesReversed clash1 clash2) with
  | error e => simp [hout, Except.toOption] at hlook
  | ok out =>
    refine ⟨out, rfl, ?_⟩
    intro h
    have hfile : (filePathKey "logs".toList name2, name2.takeWhile (· ≠ '.') |>.splitOn '_') ∈
        files (mscope 1) (twoNodesReversed clash1 clash2) := by decide +kernel
    have hvalue := h _ hfile 2 "node2_dst".toList (by decide) (by decide +kernel) 0
    have hlast : lastValue seconds (mscope 1) (twoNodesReversed clash1 clash2) 0 "node2_dst".toList
        (filePathKey "logs".toList name2, name2.takeWhile (· ≠ '.') |>.splitOn '_') = some "8".toList := by decide +kernel
    simp only [hout, Except.toOption, Option.map_some, Option.some.injEq] at hlook
    rw [hlook, hlast] at hvalue
    exact absurd hvalue (by decide)

/-! ## When nothing is raised -/

/-- nothing is raised, a file that cannot be processed adds nothing, and every record of every other file is merged -/
def Tolerant (lib : Library κ) (defn : FileDefn) (dir : Directory) : Prop :=
  ∃ out, processFiles lib defn dir = .ok out ∧
    out.collectedHeaders = ((files defn dir).filter (Processable lib defn dir ·)).map (header defn dir) ∧
    (∀ t l, look out.outputRows t l = (files defn dir).reverse.findSome? (lastValue lib defn dir t l)) ∧
    ∀ t, t ∈ out.outputRows.keys ↔ ∃ file ∈ files defn dir, ∃ row, (t, row) ∈ records lib defn dir file

/-- **When nothing is raised.** In a directory with a file that matches, `process_files` skips what does not fit and merges the
rest if and only if every name has a dot and every file that is read has a header row, and, if its header makes a class, is
read to its end, has no row between the header and its first record, and only records with a time that can be transformed. -/
theorem processFiles_tolerant_iff (lib : Library κ) (defn : FileDefn) (dir : Directory) (hmatch : files defn dir ≠ []) :
    Tolerant lib defn dir ↔
      (∀ name ∈ dir.names, '.' ∈ name) ∧
      ∀ file ∈ files defn dir, Smooth lib defn (nodeOf file) (dir.contents file.1) := by
  constructor
  · rintro ⟨out, hout, -⟩
    obtain ⟨hdot, -, rs, hrs, -⟩ := processFiles_ok_iff.1 hout
    exact ⟨hdot, mapM_fileData_ok_iff.1 ⟨rs, hrs⟩⟩
  · rintro ⟨hdot, hsmooth⟩
    obtain ⟨rs, hrs⟩ := mapM_fileData_ok_iff.2 hsmooth
    have hout : processFiles lib defn dir = .ok (rs.foldl addTo ⟨[], .empty⟩) :=
      processFiles_ok_iff.2 ⟨hdot, hmatch, rs, hrs, rfl⟩
    exact ⟨_, hout, processFiles_spec hout⟩

theorem processFiles_tolerant_twoNodes : files (mscope 0) (twoNodes waits1 waits2) ≠ [] ∧
    (Tolerant seconds (mscope 0) (twoNodes waits1 waits2) ↔
      (∀ name ∈ (twoNodes waits1 waits2).names, '.' ∈ name) ∧
      ∀ file ∈ files (mscope 0) (twoNodes waits1 waits2),
        Smooth seconds (mscope 0) (nodeOf file) ((twoNodes waits1 waits2).contents file.1)) :=
  ⟨by decide +kernel, processFiles_tolerant_iff seconds (mscope 0) (twoNodes waits1 waits2) (by decide +kernel)⟩

/-- a short row in front of the first record -/
def shortFirst : Content := csvOf [["timestamp", "dst"], ["7200"], ["7200", "5"]]

/-- not even a header row -/
def noRows : Content := csvOf []

/-- no column for the time -/
def noTime : Content := csvOf [["time", "dst"], ["7200", "5"]]

/-- one bad file is enough: a row to skip comes first, the header is missing, or there is no time -/
theorem processFiles_raises :
    (files (mscope 0) (twoNodes shortFirst waits2) ≠ [] ∧ ¬ Tolerant seconds (mscope 0) (twoNodes shortFirst waits2)) ∧
    (files (mscope 0) (twoNodes noRows waits2) ≠ [] ∧ ¬ Tolerant seconds (mscope 0) (twoNodes noRows waits2)) ∧
    (files (mscope 0) (twoNodes noTime waits2) ≠ [] ∧ ¬ Tolerant seconds (mscope 0) (twoNodes noTime waits2)) := by
  have hshort : processFiles seconds (mscope 0) (twoNodes shortFirst waits2) = .error .unboundLocalError := by
    decide +kernel
  have hrows : processFiles seconds (mscope 0) (twoNodes noRows waits2) = .error .stopIteration := by decide +kernel
  have htime : processFiles seconds (mscope 0) (twoNodes noTime waits2) = .error .attributeError := by decide +kernel
  refine ⟨⟨by decide +kernel, ?_⟩, ⟨by decide +kernel, ?_⟩, ⟨by decide +kernel, ?_⟩⟩
  · rintro ⟨out, hout, -⟩
    rw [hshort] at hout
    cases hout
  · rintro ⟨out, hout, -⟩
    rw [hrows] at hout
    cases hout
  · rintro ⟨out, hout, -⟩
    rw [htime] at hout
    cases hout

end Rubbos.Transform.ProcessFiles
