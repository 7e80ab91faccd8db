/-
File names of monitor logs (`filename_utils.py`).

A name is split at '.', its first piece is cut at the first "_TO_" and split at '_'. The tokens are checked by their
position. `parse_filename` answers a function from parts to tokens, which is here the list of the tokens, or `None`.

- `check_ok`: the tokens that pass the check.
- `check_splitOn`: a text whose tokens pass the check.
-/
import Rubbos.Core.Python

namespace Rubbos.Transform.FilenameUtils

open Rubbos.Core Python

/-! ## Model -/

/-- `NODE_PART` to `METADATA_PART` -/
inductive Part where
  | node
  | component
  | monitor
  | resource
  | date
  | metadata
deriving DecidableEq, Repr

def Part.index : Part → ℕ
  | .node => 0
  | .component => 1
  | .monitor => 2
  | .resource => 3
  | .date => 4
  | .metadata => 5

def toToken : Text := "_TO_".toList

structure InvalidFilenameError where
  arg : Text
  msg : Text
deriving DecidableEq, Repr

def beginBaseMsg : Text := "Filename does not conform to filename grammar\n".toList

def endBaseMsg : Text :=
  "Filename Grammar: NODE_COMPONENT_MONITOR_RESOURCE_DATE_METADATA(optional).FILE_EXT\n".toList

/-- `InvalidFilenameError(arg_in_err, message)` -/
def invalidFilenameError (argInErr : Text) : (message : Option Text) → InvalidFilenameError
  | none => ⟨argInErr, beginBaseMsg ++ endBaseMsg⟩
  | some message => ⟨argInErr, message ++ ": ".toList ++ argInErr ++ "\n".toList ++ endBaseMsg⟩

def validNode (token : Text) : Bool := "node".toList <:+: token

def componentSet : List Text := ["apache", "http", "tomcat", "cjdbc", "mysql", "nginx"].map String.toList

def validComponent (token : Text) : Bool := componentSet.any fun core => core <:+: lower token

def validDate (_token : Text) : Bool := true

def resourceSet : List Text :=
  ["cpu", "disk", "dsk", "tab", "all", "net", "io", "mem", "memory", "dst", "downstream", "pit", "pointintime",
    "service_time"].map String.toList

def validResource (token : Text) : Bool := lower token ∈ resourceSet

def monitorSet : List Text :=
  ["coll", "collectl", "col", "sar", "iostat", "mscope", "elbalens", "milliscope", "mscope_event",
    "mscope_resource"].map String.toList

def validMonitor (token : Text) : Bool := lower token ∈ monitorSet

/-- `' '.join(parts)` -/
def joinBlank (parts : List Text) : Text := [' '].intercalate parts

/-- the parts that are not in their domain -/
def invalidParts (node component monitor resource date : Text) : List Text :=
  (if validNode node then [] else ["NODE".toList]) ++
  (if validComponent component then [] else ["COMPONENT".toList]) ++
  (if validMonitor monitor then [] else ["MONITOR".toList]) ++
  (if validResource resource then [] else ["RESOURCE".toList]) ++
  (if validDate date then [] else ["DATE".toList])

/-- `_check_regular_filename_tokens` -/
def checkRegularFilenameTokens (tokens : List Text) : Except InvalidFilenameError Unit :=
  match tokens with
  | node :: component :: monitor :: resource :: date :: _ =>
    let invalid := invalidParts node component monitor resource date
    if invalid ≠ [] then .error (invalidFilenameError (joinBlank invalid) (some "invalid domain".toList)) else .ok ()
  | _ => .error (invalidFilenameError (natText tokens.length)
      (some "Invalid number of tokens. Must have at least 5; this has length".toList))

/-- `_parse_name` -/
def parseName (filename : Text) (posn : ℕ) : Except PyExc Text :=
  match (split ['.'] filename)[posn]? with
  | some piece => .ok piece
  | none => .error .indexError

/-- `_tokenize` -/
def tokenize (str delim : Text) : List Text := split delim str

def parseFileExt (filename : Text) : Except PyExc Text := parseName filename 1

/-- what `parse_filename` returns -/
inductive Parsed where
  /-- `get`, with the tokens that it looks its argument up in -/
  | get (tokens : List Text)
  /-- `None`, after two lines were printed -/
  | none (printed : List Text)
deriving DecidableEq, Repr

/-- the part of a name before its first `_TO_` -/
def upstream (primary : Text) : Text :=
  if toToken <:+: primary then ((tokenize primary toToken)[0]?).getD [] else primary

def parseFilename (filename : Text) : Except PyExc Parsed := do
  let primary ← parseName filename 0
  let tokens := tokenize (upstream primary) ['_']
  match checkRegularFilenameTokens tokens with
  | .ok () => return .get tokens
  | .error e => return .none [filename ++ " is not valid".toList, e.msg]

/-! ## Tokens -/

/-- the tokens that pass the check -/
theorem check_ok {tokens : List Text} : checkRegularFilenameTokens tokens = .ok () ↔
    ∃ node component monitor resource date more, tokens = node :: component :: monitor :: resource :: date :: more ∧
      validNode node ∧ validComponent component ∧ validMonitor monitor ∧ validResource resource := by
  constructor
  · intro h
    unfold checkRegularFilenameTokens at h
    split at h
    · next node component monitor resource date more =>
      refine ⟨node, component, monitor, resource, date, more, rfl, ?_⟩
      simp only at h
      split at h
      · cases h
      · next hinv =>
        simp only [invalidParts, ne_eq, not_not, List.append_eq_nil_iff] at hinv
        obtain ⟨⟨⟨⟨h₁, h₂⟩, h₃⟩, h₄⟩, -⟩ := hinv
        simp only [ite_eq_left_iff, reduceCtorEq, imp_false, not_not] at h₁ h₂ h₃ h₄
        simp_all
    · cases h
  · rintro ⟨node, component, monitor, resource, date, more, rfl, h₁, h₂, h₃, h₄⟩
    simp [checkRegularFilenameTokens, invalidParts, h₁, h₂, h₃, h₄, validDate]

/-- a text whose tokens pass the check -/
theorem check_splitOn {u : Text} : checkRegularFilenameTokens (u.splitOn '_') = .ok () ↔
    ∃ node component monitor resource rest,
      u = node ++ '_' :: (component ++ '_' :: (monitor ++ '_' :: (resource ++ '_' :: rest))) ∧
      ('_' ∉ node ∧ '_' ∉ component ∧ '_' ∉ monitor ∧ '_' ∉ resource) ∧
      validNode node ∧ validComponent component ∧ validMonitor monitor ∧ validResource resource := by
  rw [check_ok]
  constructor
  · rintro ⟨node, component, monitor, resource, date, more, htokens, hvalid⟩
    obtain ⟨u₁, rfl, h₁, ht₁⟩ := splitOn_eq_cons htokens (by simp)
    obtain ⟨u₂, rfl, h₂, ht₂⟩ := splitOn_eq_cons ht₁ (by simp)
    obtain ⟨u₃, rfl, h₃, ht₃⟩ := splitOn_eq_cons ht₂ (by simp)
    obtain ⟨u₄, rfl, h₄, -⟩ := splitOn_eq_cons ht₃ (by simp)
    exact ⟨node, component, monitor, resource, u₄, rfl, ⟨h₁, h₂, h₃, h₄⟩, hvalid⟩
  · rintro ⟨node, component, monitor, resource, rest, rfl, ⟨h₁, h₂, h₃, h₄⟩, hvalid⟩
    obtain ⟨date, more, hrest⟩ := List.exists_cons_of_ne_nil (List.splitOn_ne_nil '_' rest)
    refine ⟨node, component, monitor, resource, date, more, ?_, hvalid⟩
    rw [List.splitOn_append_cons_self_of_not_mem h₁, List.splitOn_append_cons_self_of_not_mem h₂,
      List.splitOn_append_cons_self_of_not_mem h₃, List.splitOn_append_cons_self_of_not_mem h₄, hrest]

/-! ## Pieces of a name -/

theorem parseName_zero {primary rest : Text} (hp : '.' ∉ primary) : parseName (primary ++ '.' :: rest) 0 = .ok primary := by
  simp [parseName, split_char, List.splitOn_append_cons_self_of_not_mem hp]

theorem parseName_zero_noDot {name : Text} (h : '.' ∉ name) : parseName name 0 = .ok name := by
  simp [parseName, split_char, List.splitOn_eq_singleton h]

/-- the first piece of a text that may have dots -/
theorem parseName_zero_spec (rest : Text) : ∃ ext, parseName rest 0 = .ok ext ∧ '.' ∉ ext ∧
    (rest = ext ∨ ∃ more, rest = ext ++ '.' :: more) := by
  by_cases hdot : '.' ∈ rest
  · obtain ⟨ext, more, rfl, hext⟩ := List.eq_append_cons_of_mem hdot
    exact ⟨ext, parseName_zero hext, hext, .inr ⟨more, rfl⟩⟩
  · exact ⟨rest, parseName_zero_noDot hdot, hdot, .inl rfl⟩

/-- the extension goes up to the second dot -/
theorem parseFileExt_append {primary rest : Text} (hp : '.' ∉ primary) :
    parseFileExt (primary ++ '.' :: rest) = parseName rest 0 := by
  simp [parseFileExt, parseName, split_char, List.splitOn_append_cons_self_of_not_mem hp]

theorem parseFileExt_noDot {name : Text} (h : '.' ∉ name) : parseFileExt name = .error .indexError := by
  simp [parseFileExt, parseName, split_char, List.splitOn_eq_singleton h]

/-- a name is parsed by its first piece -/
theorem parseFilename_of_primary {name primary : Text} (h : parseName name 0 = .ok primary) : parseFilename name =
    .ok (match checkRegularFilenameTokens ((upstream primary).splitOn '_') with
      | .ok () => .get ((upstream primary).splitOn '_')
      | .error e => .none [name ++ " is not valid".toList, e.msg]) := by
  unfold parseFilename
  rw [h]
  simp only [tokenize, split_char, bind, Except.bind]
  cases checkRegularFilenameTokens ((upstream primary).splitOn '_') <;> rfl

/-- the part before the first `_TO_` starts the name -/
theorem upstream_append (primary : Text) : ∃ rest, primary = upstream primary ++ rest := by
  unfold upstream
  split_ifs with h
  · obtain ⟨i, hi⟩ : ∃ i, find toToken primary = some i := by
      cases hf : find toToken primary with
      | none => exact absurd h (find_eq_none.1 hf)
      | some i => exact ⟨i, rfl⟩
    have hlen : primary.length ≠ 0 := by
      intro hl
      rw [List.length_eq_zero_iff.1 hl] at h
      exact absurd h (by decide)
    obtain ⟨fuel, hfuel⟩ := Nat.exists_eq_succ_of_ne_zero hlen
    refine ⟨primary.drop i, ?_⟩
    simp [tokenize, split, hfuel, JString.pieces, hi]
  · exact ⟨[], by simp⟩

end Rubbos.Transform.FilenameUtils
