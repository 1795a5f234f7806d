import Mathlib.Data.List.Lex
import Mathlib.Order.Fin.Basic
import GbaStation.Common.SortedEntries
import GbaStation.Common.StringUtil

/-!
# Parameter packages (`common/param_package.cpp`)

A map of strings that is written to a string and read from one. Keys and values are escaped in three
replacements and unescaped in three others, and the separators are left for the entries.

- `parse_serialize`: what comes back of a package. An entry without a value is written as a key and
  a separator, of which `SplitString` makes one piece only, and is lost.
- `parse_serialize_iff`: so a package comes back if no value is empty.
-/

namespace GbaStation

/-- A `std::string`. -/
abbrev Text := List (Fin 256)

open SortedEntries StringUtil

/-- `ParamPackage`, with the entries of its `std::map`. -/
structure ParamPackage where
  data : List (Text × Text)
  sorted : Sorted data

namespace ParamPackage

def keyValueSeparator : Fin 256 := 0x3A

def paramSeparator : Fin 256 := 0x2C

def escapeCharacter : Fin 256 := 0x24

/-- `"$0"`, `"$1"` and `"$2"`. -/
def keyValueSeparatorEscape : Text := [escapeCharacter, 0x30]

def paramSeparatorEscape : Text := [escapeCharacter, 0x31]

def escapeCharacterEscape : Text := [escapeCharacter, 0x32]

/-- `"[empty]"`. -/
def emptyPlaceholder : Text := [0x5B, 0x65, 0x6D, 0x70, 0x74, 0x79, 0x5D]

def empty : ParamPackage := ⟨[], List.Pairwise.nil⟩

/-- `Set`. -/
def set (p : ParamPackage) (key value : Text) : ParamPackage :=
  ⟨insertOrAssign key value p.data, p.sorted.insertOrAssign key value⟩

/-- The replacements of a part in `Serialize`. -/
def escape (part : Text) : Text :=
  let part := replaceAll part [escapeCharacter] escapeCharacterEscape
  let part := replaceAll part [paramSeparator] paramSeparatorEscape
  replaceAll part [keyValueSeparator] keyValueSeparatorEscape

/-- The replacements of a part in the constructor. -/
def unescape (part : Text) : Text :=
  let part := replaceAll part keyValueSeparatorEscape [keyValueSeparator]
  let part := replaceAll part paramSeparatorEscape [paramSeparator]
  replaceAll part escapeCharacterEscape [escapeCharacter]

/-- A pair in the constructor; one that is not a key and a value is logged. -/
def readPair (p : ParamPackage) (pair : Text) : ParamPackage :=
  match splitString pair keyValueSeparator with
  | [key, value] => p.set (unescape key) (unescape value)
  | _ => p

/-- The constructor from a string. -/
def parse (serialized : Text) : ParamPackage :=
  if serialized = emptyPlaceholder then empty
  else (splitString serialized paramSeparator).foldl readPair empty

/-- An entry in `Serialize`. -/
def writePair (entry : Text × Text) : Text :=
  escape entry.1 ++ [keyValueSeparator] ++ escape entry.2

/-- `Serialize`. -/
def serialize (p : ParamPackage) : Text :=
  if p.data = [] then emptyPlaceholder
  else (p.data.flatMap fun entry => writePair entry ++ [paramSeparator]).dropLast

/-! ## Parts -/

/-- The code of a character. -/
def code (c : Fin 256) : Text :=
  if c = escapeCharacter then escapeCharacterEscape
  else if c = paramSeparator then paramSeparatorEscape
  else if c = keyValueSeparator then keyValueSeparatorEscape
  else [c]

theorem code_plain {c : Fin 256} (hescape : c ≠ escapeCharacter) (hparam : c ≠ paramSeparator)
    (hkey : c ≠ keyValueSeparator) : code c = [c] := by
  rw [code, if_neg hescape, if_neg hparam, if_neg hkey]

/-- The three characters that have codes of their own, and the others. -/
theorem char_cases (c : Fin 256) :
    c = escapeCharacter ∨ c = paramSeparator ∨ c = keyValueSeparator ∨
      (c ≠ escapeCharacter ∧ c ≠ paramSeparator ∧ c ≠ keyValueSeparator) := by
  by_cases hescape : c = escapeCharacter
  · exact .inl hescape
  · by_cases hparam : c = paramSeparator
    · exact .inr (.inl hparam)
    · by_cases hkey : c = keyValueSeparator
      · exact .inr (.inr (.inl hkey))
      · exact .inr (.inr (.inr ⟨hescape, hparam, hkey⟩))

theorem escape_eq (part : Text) : escape part = part.flatMap code := by
  rw [escape, replaceAll_single _ _ _ (by decide), replaceAll_single _ _ _ (by decide),
    replaceAll_single _ _ _ (by decide), List.flatMap_assoc, List.flatMap_assoc]
  refine List.flatMap_congr fun c _ => ?_
  rcases char_cases c with rfl | rfl | rfl | ⟨hescape, hparam, hkey⟩
  · decide
  · decide
  · decide
  · rw [code_plain hescape hparam hkey]
    simp [hescape, hparam, hkey]

/-- The code of a character with the code of the key separator undone. -/
def code₁ (c : Fin 256) : Text :=
  if code c = keyValueSeparatorEscape then [keyValueSeparator] else code c

/-- And with that of the other separator undone. -/
def code₂ (c : Fin 256) : Text :=
  if code₁ c = paramSeparatorEscape then [paramSeparator] else code₁ c

/-- The code is one plain character, or the escape character with another. -/
def IsCode (t : Text) : Prop :=
  (∃ c, t = [c] ∧ c ≠ escapeCharacter) ∨ ∃ c, t = [escapeCharacter, c] ∧ c ≠ escapeCharacter

theorem codes_spec (c : Fin 256) :
    IsCode (code c) ∧ IsCode (code₁ c) ∧ IsCode (code₂ c) ∧
      (if code₂ c = escapeCharacterEscape then [escapeCharacter] else code₂ c) = [c] := by
  rcases char_cases c with rfl | rfl | rfl | ⟨hescape, hparam, hkey⟩
  · exact ⟨.inr ⟨0x32, by decide⟩, .inr ⟨0x32, by decide⟩, .inr ⟨0x32, by decide⟩, by decide⟩
  · exact ⟨.inr ⟨0x31, by decide⟩, .inr ⟨0x31, by decide⟩, .inl ⟨paramSeparator, by decide⟩,
      by decide⟩
  · exact ⟨.inr ⟨0x30, by decide⟩, .inl ⟨keyValueSeparator, by decide⟩,
      .inl ⟨keyValueSeparator, by decide⟩, by decide⟩
  · have hcode := code_plain hescape hparam hkey
    have hcode₁ : code₁ c = [c] := by
      rw [code₁, hcode]
      exact if_neg (by simp [keyValueSeparatorEscape])
    have hcode₂ : code₂ c = [c] := by
      rw [code₂, hcode₁]
      exact if_neg (by simp [paramSeparatorEscape])
    rw [hcode, hcode₁, hcode₂]
    exact ⟨.inl ⟨c, rfl, hescape⟩, .inl ⟨c, rfl, hescape⟩, .inl ⟨c, rfl, hescape⟩,
      if_neg (by simp [escapeCharacterEscape])⟩

/-- A part is what it was. -/
theorem unescape_escape (part : Text) : unescape (escape part) = part := by
  rw [escape_eq]
  calc unescape (part.flatMap code)
      = replaceAll (replaceAll (part.flatMap code₁) paramSeparatorEscape [paramSeparator])
          escapeCharacterEscape [escapeCharacter] := by
        rw [unescape, keyValueSeparatorEscape,
          replaceAll_codes part code _ _ _ (by decide) fun c _ => (codes_spec c).1]
        rfl
    _ = replaceAll (part.flatMap code₂) escapeCharacterEscape [escapeCharacter] := by
        rw [paramSeparatorEscape,
          replaceAll_codes part code₁ _ _ _ (by decide) fun c _ => (codes_spec c).2.1]
        rfl
    _ = part.flatMap fun c => [c] := by
        rw [escapeCharacterEscape,
          replaceAll_codes part code₂ _ _ _ (by decide) fun c _ => (codes_spec c).2.2.1]
        exact List.flatMap_congr fun c _ => (codes_spec c).2.2.2
    _ = part := List.flatMap_singleton' part

/-- No separator is left in a part, and nothing is added to an empty one. -/
theorem escape_separators (part : Text) :
    keyValueSeparator ∉ escape part ∧ paramSeparator ∉ escape part := by
  have hcode : ∀ c, keyValueSeparator ∉ code c ∧ paramSeparator ∉ code c := by
    intro c
    rcases char_cases c with rfl | rfl | rfl | ⟨hescape, hparam, hkey⟩
    · decide
    · decide
    · decide
    · rw [code_plain hescape hparam hkey]
      simp [Ne.symm hparam, Ne.symm hkey]
  rw [escape_eq]
  constructor
  · intro h
    obtain ⟨c, -, hc⟩ := List.mem_flatMap.mp h
    exact (hcode c).1 hc
  · intro h
    obtain ⟨c, -, hc⟩ := List.mem_flatMap.mp h
    exact (hcode c).2 hc

theorem escape_eq_nil {part : Text} : escape part = [] ↔ part = [] := by
  constructor
  · intro h
    rw [← unescape_escape part, h]
    rfl
  · rintro rfl
    rfl

/-! ## Packages -/

theorem splitString_pair (entry : Text × Text) :
    splitString (writePair entry) keyValueSeparator =
      if entry.2 = [] then [escape entry.1] else [escape entry.1, escape entry.2] := by
  have hpair : writePair entry =
      [keyValueSeparator].intercalate [escape entry.1, escape entry.2] := by
    simp [writePair, List.intercalate, List.intersperse]
  rw [hpair, splitString_intercalate]
  · simp [escape_eq_nil]
  · rintro piece hpiece
    simp only [List.mem_cons, List.not_mem_nil, or_false] at hpiece
    rcases hpiece with rfl | rfl
    · exact (escape_separators entry.1).1
    · exact (escape_separators entry.2).1
  · simp

/-- A pair that was written is read as its entry, unless the value is empty. -/
theorem readPair_writePair (p : ParamPackage) (entry : Text × Text) :
    p.readPair (writePair entry) = if entry.2 = [] then p else p.set entry.1 entry.2 := by
  rw [readPair, splitString_pair]
  by_cases hvalue : entry.2 = []
  · rw [if_pos hvalue, if_pos hvalue]
  · rw [if_neg hvalue, if_neg hvalue]
    simp only [unescape_escape]

theorem paramSeparator_not_mem (entry : Text × Text) : paramSeparator ∉ writePair entry := by
  rw [writePair, List.mem_append, List.mem_append]
  rintro ((h | h) | h)
  · exact (escape_separators entry.1).2 h
  · exact absurd (List.mem_singleton.mp h) (by decide)
  · exact (escape_separators entry.2).2 h

theorem dropLast_flatMap (delim : Fin 256) (pieces : List Text) (hne : pieces ≠ []) :
    (pieces.flatMap fun piece => piece ++ [delim]).dropLast = [delim].intercalate pieces := by
  induction pieces with
  | nil => exact absurd rfl hne
  | cons piece pieces ih =>
    cases pieces with
    | nil => simp
    | cons piece' pieces =>
      have hrest : ((piece' :: pieces).flatMap fun piece => piece ++ [delim]) ≠ [] := by simp
      rw [List.flatMap_cons, List.dropLast_append_of_ne_nil hrest, ih (List.cons_ne_nil _ _)]
      simp [List.intercalate, List.intersperse]

/-- The pairs of a package that is not empty, as they are read. -/
theorem splitString_serialize (p : ParamPackage) (hne : p.data ≠ []) :
    splitString p.serialize paramSeparator = p.data.map writePair := by
  have hmap : p.data.map writePair ≠ [] := by simpa using hne
  have hserialize : p.serialize = [paramSeparator].intercalate (p.data.map writePair) := by
    rw [serialize, if_neg hne, ← dropLast_flatMap _ _ hmap, List.flatMap_map]
  have hfree : ∀ piece ∈ p.data.map writePair, paramSeparator ∉ piece := by
    intro piece hpiece
    obtain ⟨entry, -, rfl⟩ := List.mem_map.mp hpiece
    exact paramSeparator_not_mem entry
  rw [hserialize, splitString_intercalate _ hfree hmap]
  -- a pair has a separator, so the last one is not empty
  refine if_neg fun hlast => ?_
  obtain ⟨entry, -, hentry⟩ := List.mem_map.mp (List.mem_of_getLast? hlast)
  simp [writePair] at hentry

theorem serialize_ne_placeholder (p : ParamPackage) (hne : p.data ≠ []) :
    p.serialize ≠ emptyPlaceholder := by
  intro h
  have hpairs := splitString_serialize p hne
  rw [h] at hpairs
  have hmem : keyValueSeparator ∈ emptyPlaceholder := by
    obtain ⟨entry, entries, hdata⟩ := List.exists_cons_of_ne_nil hne
    have hone : splitString emptyPlaceholder paramSeparator = [emptyPlaceholder] := by decide
    rw [hone, hdata, List.map_cons] at hpairs
    rw [(List.cons.inj hpairs).1, writePair]
    simp
  exact absurd hmem (by decide)

theorem data_foldl_readPair (entries : List (Text × Text)) (p : ParamPackage) :
    ((entries.map writePair).foldl readPair p).data =
      (entries.filter fun entry => entry.2 ≠ []).foldl
        (fun m entry => insertOrAssign entry.1 entry.2 m) p.data := by
  induction entries generalizing p with
  | nil => rfl
  | cons entry entries ih =>
    rw [List.map_cons, List.foldl_cons, ih, readPair_writePair]
    by_cases hvalue : entry.2 = []
    · rw [if_pos hvalue, List.filter_cons_of_neg (by simpa using hvalue)]
    · rw [if_neg hvalue, List.filter_cons_of_pos (by simpa using hvalue), List.foldl_cons]
      rfl

/-- A package comes back without the entries that have no value. -/
theorem data_parse_serialize (p : ParamPackage) :
    (parse p.serialize).data = p.data.filter fun entry => entry.2 ≠ [] := by
  by_cases hne : p.data = []
  · rw [parse, serialize, if_pos hne, if_pos rfl, hne]
    rfl
  · rw [parse, if_neg (serialize_ne_placeholder p hne), splitString_serialize p hne,
      data_foldl_readPair]
    have hsorted : Sorted (([] : List (Text × Text)) ++ p.data.filter fun entry => entry.2 ≠ []) :=
      p.sorted.sublist List.filter_sublist
    exact foldl_insertOrAssign hsorted

/-- A package comes back as it was exactly if every value has a character. -/
theorem parse_serialize_iff (p : ParamPackage) :
    parse p.serialize = p ↔ ∀ entry ∈ p.data, entry.2 ≠ [] := by
  have heq : parse p.serialize = p ↔ (parse p.serialize).data = p.data := by
    constructor
    · exact congrArg data
    · intro h
      cases hparse : parse p.serialize
      cases p
      simp only [hparse] at h
      subst h
      rfl
  rw [heq, data_parse_serialize, List.filter_eq_self]
  simp

/-- The value of a key that has none is lost. -/
theorem parse_serialize_without_value :
    parse (empty.set [0x61] []).serialize ≠ empty.set [0x61] [] := by
  intro h
  have hdata := data_parse_serialize (empty.set [0x61] [])
  rw [h] at hdata
  simp [set, empty, insertOrAssign] at hdata

end ParamPackage

end GbaStation
