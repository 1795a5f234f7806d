import GbaStation.Common.ParamPackage
import Mathlib.Algebra.GroupWithZero.Nat
import Mathlib.Data.List.DropRight

/-!
# Cheat files (`core/cheats/gateway_cheat.cpp`, `core/cheats/cheats.cpp`)

A cheat is written as a line with its name, a marker if it is enabled, its comments and its code.
What a line is, is found out by its first character when the file is read.

- `roundTrips_iff`: when that is the same.
-/

namespace GbaStation.Cheats

open StringUtil
open List (mem_singleton mem_map foldl_append map_map)

local instance neZero : NeZero 256 := ⟨by decide⟩

def newline : Fin 256 := 0x0A

def star : Fin 256 := 0x2A

def opening : Fin 256 := 0x5B

def closing : Fin 256 := 0x5D

/-- `EnabledText` behind its star: `"citra_enabled"`. -/
def enabledText : Text :=
  [0x63, 0x69, 0x74, 0x72, 0x61, 0x5F, 0x65, 0x6E, 0x61, 0x62, 0x6C, 0x65, 0x64]

/-- A `GatewayCheat`, with the texts of its lines. -/
structure GatewayCheat where
  name : Text
  codeLines : List Text
  comments : Text
  enabled : Bool := false

def isSpace (c : Fin 256) : Bool := c ∈ [0x20, 0x09, 0x0D, 0x0A]

/-- `StripSpaces`. -/
def stripSpaces (s : Text) : Text := (s.dropWhile isSpace).rdropWhile isSpace

/-! ## Saving -/

namespace GatewayCheat

def getCode (cheat : GatewayCheat) : Text := cheat.codeLines.flatMap (· ++ [newline])

def commentLines (cheat : GatewayCheat) : List Text := splitString cheat.comments newline

def toString (cheat : GatewayCheat) : Text :=
  opening :: cheat.name ++ [closing, newline] ++
    (if cheat.enabled then star :: enabledText ++ [newline] else []) ++
    cheat.commentLines.flatMap (fun line => star :: line ++ [newline]) ++
    (cheat.getCode ++ [newline])

end GatewayCheat

/-- `SaveCheatFile`. -/
def saveCheatFile (cheats : List GatewayCheat) : Text := cheats.flatMap GatewayCheat.toString

/-! ## Loading -/

/-- The variables of `LoadFile`. -/
structure Loader where
  cheats : List GatewayCheat := []
  comments : Text := []
  cheatLines : List Text := []
  name : Text := []
  enabled : Bool := false

/-- A line without its null characters and the spaces around it. -/
def cleanLine (line : Text) : Text := stripSpaces (line.filter (· ≠ 0))

namespace Loader

/-- A cheat is loaded if it has code. -/
def push (s : Loader) : List GatewayCheat :=
  if s.cheatLines = [] then s.cheats
  else s.cheats ++ [⟨s.name, s.cheatLines, s.comments, s.enabled⟩]

/-- A turn of the loop of `LoadFile`. -/
def readLine (s : Loader) (line : Text) : Loader :=
  let line := cleanLine line
  if 2 ≤ line.length ∧ line.head? = some opening then
    { cheats := s.push
      comments := []
      cheatLines := []
      name := (line.drop 1).take (line.length - 2)
      enabled := if s.cheatLines = [] then s.enabled else false }
  else if line.head? = some star then
    if line = star :: enabledText then { s with enabled := true }
    else { s with comments := s.comments ++ (line.drop 1 ++ [newline]) }
  else if line ≠ [] then { s with cheatLines := s.cheatLines ++ [line] }
  else s

end Loader

open Loader (readLine push)

/-- `LoadFile`. Behind the last newline there is one more line. -/
def loadFile (file : Text) : List GatewayCheat :=
  ((file.splitOn newline).foldl readLine {}).push

/-! ## The lines of a file -/

variable {cheat : GatewayCheat} {cheats : List GatewayCheat} {s : Loader} {line : Text}
  {ls : List Text} {c : Fin 256}

theorem splitOn_flatMap (h : ∀ line ∈ ls, c ∉ line) :
    (ls.flatMap (· ++ [c])).splitOn c = ls ++ [[]] := by
  induction ls with
  | nil => rfl
  | cons line ls ih =>
    obtain ⟨hline, hls⟩ := List.forall_mem_cons.mp h
    rw [List.flatMap_cons, List.append_assoc, List.singleton_append,
      List.splitOn_append_cons_self_of_not_mem hline, ih hls]
    rfl

theorem splitString_flatMap (h : ∀ line ∈ ls, c ∉ line) :
    splitString (ls.flatMap (· ++ [c])) c = ls := by
  have hlast : (ls ++ [[]]).getLast? = some [] := List.getLast?_concat
  rw [splitString, splitOn_flatMap h]
  simp only [hlast, if_true, List.dropLast_concat]

theorem notMem_of_mem_splitOn {s : Text} (h : line ∈ s.splitOn c) : c ∉ line := by
  induction s generalizing line with
  | nil =>
    rw [List.splitOn_nil, mem_singleton] at h
    exact h ▸ List.not_mem_nil
  | cons d s ih =>
    rw [List.splitOn_cons_eq_if_modifyHead] at h
    split_ifs at h with hd
    · rcases List.mem_cons.mp h with rfl | h
      · exact List.not_mem_nil
      · exact ih h
    · cases hs : s.splitOn c with
      | nil => exact absurd hs (List.splitOn_ne_nil c s)
      | cons first rest =>
        rw [hs] at h ih
        rcases List.mem_cons.mp h with rfl | h
        · have hne : c ≠ d := fun heq => hd (heq ▸ beq_self_eq_true d)
          exact fun hmem => (List.mem_cons.mp hmem).elim hne (ih List.mem_cons_self)
        · exact ih (List.mem_cons_of_mem _ h)

theorem notMem_of_mem_splitString {s : Text} (h : line ∈ splitString s c) : c ∉ line := by
  rw [splitString] at h
  split_ifs at h
  · exact notMem_of_mem_splitOn (List.dropLast_subset _ h)
  · exact notMem_of_mem_splitOn h

/-- The lines of a cheat in the file. The last one is empty. -/
def GatewayCheat.lines (cheat : GatewayCheat) : List Text :=
  [opening :: cheat.name ++ [closing]] ++ (if cheat.enabled then [star :: enabledText] else []) ++
    cheat.commentLines.map (star :: ·) ++ cheat.codeLines ++ [[]]

theorem toString_eq (cheat : GatewayCheat) :
    cheat.toString = cheat.lines.flatMap (· ++ [newline]) := by
  unfold GatewayCheat.toString GatewayCheat.lines GatewayCheat.getCode
  rw [List.flatMap_append, List.flatMap_append, List.flatMap_append, List.flatMap_append,
    List.flatMap_map]
  split_ifs
  · simp
  · simp

/-- Names and code without newlines. -/
def GatewayCheat.SingleLines (cheat : GatewayCheat) : Prop :=
  newline ∉ cheat.name ∧ ∀ line ∈ cheat.codeLines, newline ∉ line

theorem splitOn_saveCheatFile (h : ∀ cheat ∈ cheats, cheat.SingleLines) :
    (saveCheatFile cheats).splitOn newline = cheats.flatMap GatewayCheat.lines ++ [[]] := by
  have hfile : saveCheatFile cheats =
      (cheats.flatMap GatewayCheat.lines).flatMap (· ++ [newline]) := by
    rw [List.flatMap_assoc]
    exact List.flatMap_congr fun cheat _ => toString_eq cheat
  rw [hfile, splitOn_flatMap]
  intro line hline
  obtain ⟨cheat, hcheat, hline⟩ := List.mem_flatMap.mp hline
  obtain ⟨hname, hcode⟩ := h cheat hcheat
  simp only [GatewayCheat.lines, List.mem_append, mem_singleton, mem_map] at hline
  rcases hline with (((rfl | hmark) | ⟨comment, hcomment, rfl⟩) | hline) | rfl
  · simp [newline, opening, closing] at hname ⊢
    exact hname
  · split_ifs at hmark
    · rw [mem_singleton.mp hmark]
      decide
    · cases hmark
  · exact fun hmem => (List.mem_cons.mp hmem).elim (by decide) (notMem_of_mem_splitString hcomment)
  · exact hcode line hline
  · exact List.not_mem_nil

/-! ## Lines that are read -/

theorem rdropWhile_cons {p : Fin 256 → Bool} (hc : p c = false) (line : Text) :
    (c :: line).rdropWhile p = c :: line.rdropWhile p := by
  have hreverse (l : Text) : l.rdropWhile p = (l.reverse.dropWhile p).reverse := rfl
  rw [hreverse, hreverse, List.reverse_cons, List.dropWhile_append]
  split_ifs with hempty
  · rw [List.isEmpty_iff.mp hempty, List.dropWhile_cons_of_neg (by simp [hc])]
    rfl
  · rw [List.reverse_append]
    rfl

/-- The first character of a name or a comment stays. -/
theorem cleanLine_cons (hc : isSpace c = false) (hzero : c ≠ 0) (line : Text) :
    cleanLine (c :: line) = c :: (line.filter (· ≠ 0)).rdropWhile isSpace := by
  rw [cleanLine, stripSpaces, List.filter_cons_of_pos (by simpa using hzero),
    List.dropWhile_cons_of_neg (by simp [hc]), rdropWhile_cons hc]

/-- What is read of a comment. -/
def cleanComment (line : Text) : Text := (line.filter (· ≠ 0)).rdropWhile isSpace

theorem cleanLine_star (line : Text) : cleanLine (star :: line) = star :: cleanComment line :=
  cleanLine_cons (by decide) (by decide) line

theorem cleanLine_name (name : Text) :
    cleanLine (opening :: name ++ [closing]) = opening :: (name.filter (· ≠ 0) ++ [closing]) := by
  have hclosing : ([closing] : Text).filter (· ≠ 0) = [closing] := rfl
  rw [List.cons_append, cleanLine_cons (by decide) (by decide), List.filter_append, hclosing,
    List.rdropWhile_concat_neg _ _ _ (by decide)]

/-- A line that is taken for code, if it is clean. -/
def IsCode (line : Text) : Prop :=
  line ≠ [] ∧ line.head? ≠ some star ∧ ¬ (2 ≤ line.length ∧ line.head? = some opening)

instance (line : Text) : Decidable (IsCode line) := inferInstanceAs (Decidable (_ ∧ _))

theorem readLine_of_isCode (h : IsCode (cleanLine line)) :
    s.readLine line = { s with cheatLines := s.cheatLines ++ [cleanLine line] } := by
  rw [readLine, if_neg h.2.2, if_neg h.2.1, if_pos h.1]

theorem readLine_name (name : Text) :
    s.readLine (opening :: name ++ [closing]) =
      { cheats := s.push
        comments := []
        cheatLines := []
        name := name.filter (· ≠ 0)
        enabled := if s.cheatLines = [] then s.enabled else false } := by
  have hlength : (opening :: (name.filter (· ≠ 0) ++ [closing])).length - 2 =
      (name.filter (· ≠ 0)).length := by
    rw [List.length_cons, List.length_append, List.length_singleton]
    omega
  rw [readLine, cleanLine_name]
  simp only [hlength]
  rw [if_pos ⟨by simp, rfl⟩]
  simp only [List.drop_one, List.tail_cons, List.take_left']

theorem readLine_comment (line : Text) :
    s.readLine (star :: line) =
      if cleanComment line = enabledText then { s with enabled := true }
      else { s with comments := s.comments ++ (cleanComment line ++ [newline]) } := by
  have hname : ¬ (2 ≤ (star :: cleanComment line).length ∧
      (star :: cleanComment line).head? = some opening) := fun h =>
    absurd (Option.some.inj h.2) (by decide)
  have hmarker : (star :: cleanComment line = star :: enabledText) =
      (cleanComment line = enabledText) := propext (List.cons_inj_right star)
  rw [readLine, cleanLine_star]
  simp only [hmarker]
  rw [if_neg hname, if_pos List.head?_cons]
  rfl

theorem readLine_nil : s.readLine [] = s := rfl

/-- The comments that are not taken for the marker. -/
def keptComments (ls : List Text) : List Text := (ls.map cleanComment).filter (· ≠ enabledText)

/-- A comment is taken for the marker. -/
def marks (ls : List Text) : Bool := enabledText ∈ ls.map cleanComment

theorem foldl_comments (ls : List Text) (s : Loader) :
    (ls.map (star :: ·)).foldl readLine s =
      { s with
        comments := s.comments ++ (keptComments ls).flatMap (· ++ [newline])
        enabled := s.enabled || marks ls } := by
  induction ls generalizing s with
  | nil => simp [keptComments, marks]
  | cons line ls ih =>
    rw [List.map_cons, List.foldl_cons, ih, readLine_comment, keptComments, keptComments, marks,
      marks, List.map_cons]
    by_cases hmark : cleanComment line = enabledText
    · simp [hmark]
    · simp [hmark, Ne.symm hmark]

theorem foldl_code (s : Loader) (h : ∀ line ∈ ls, IsCode (cleanLine line)) :
    ls.foldl readLine s = { s with cheatLines := s.cheatLines ++ ls.map cleanLine } := by
  induction ls generalizing s with
  | nil => simp
  | cons line ls ih =>
    obtain ⟨hline, hls⟩ := List.forall_mem_cons.mp h
    rw [List.foldl_cons, readLine_of_isCode hline, ih _ hls]
    simp

/-! ## Cheats that are read -/

/-- What comes back of a cheat with code. -/
def GatewayCheat.cleaned (cheat : GatewayCheat) : GatewayCheat where
  name := cheat.name.filter (· ≠ 0)
  codeLines := cheat.codeLines.map cleanLine
  comments := (keptComments cheat.commentLines).flatMap (· ++ [newline])
  enabled := cheat.enabled || marks cheat.commentLines

theorem foldl_lines (s : Loader) (h : ∀ line ∈ cheat.codeLines, IsCode (cleanLine line)) :
    cheat.lines.foldl readLine s =
      { cheats := s.push
        comments := cheat.cleaned.comments
        cheatLines := cheat.cleaned.codeLines
        name := cheat.cleaned.name
        enabled := (if s.cheatLines = [] then s.enabled else false) || cheat.cleaned.enabled } := by
  have hmarker (s : Loader) : (if cheat.enabled then [star :: enabledText] else []).foldl
      readLine s = { s with enabled := s.enabled || cheat.enabled } := by
    cases cheat.enabled with
    | true =>
      have hread : s.readLine (star :: enabledText) = { s with enabled := true } := by
        rw [readLine_comment]
        rfl
      simpa using hread
    | false => simp
  have hname : [opening :: cheat.name ++ [closing]].foldl readLine s =
      s.readLine (opening :: cheat.name ++ [closing]) := rfl
  have hlast (s : Loader) : [[]].foldl readLine s = s := readLine_nil
  rw [GatewayCheat.lines, foldl_append, foldl_append, foldl_append,
    foldl_append, hname, readLine_name, hmarker, foldl_comments, foldl_code _ h, hlast]
  simp [GatewayCheat.cleaned, Bool.or_assoc]

/-- By induction on the cheats. The marker of a cheat with code does not stay for the next one. -/
theorem foldl_cheats (s : Loader) (hs : s.cheatLines ≠ [] ∨ s.enabled = false)
    (hsome : ∀ cheat ∈ cheats, cheat.codeLines ≠ [])
    (hcode : ∀ cheat ∈ cheats, ∀ line ∈ cheat.codeLines, IsCode (cleanLine line)) :
    ((cheats.flatMap GatewayCheat.lines).foldl readLine s).push =
      s.push ++ cheats.map GatewayCheat.cleaned := by
  induction cheats generalizing s with
  | nil => simp
  | cons cheat cheats ih =>
    obtain ⟨hsome, hsomes⟩ := List.forall_mem_cons.mp hsome
    obtain ⟨hcode, hcodes⟩ := List.forall_mem_cons.mp hcode
    have hlines : cheat.cleaned.codeLines ≠ [] := fun hnil => hsome (List.map_eq_nil_iff.mp hnil)
    have hoff : (if s.cheatLines = [] then s.enabled else false) = false := by
      split_ifs with hnil
      · exact hs.resolve_left fun hne => hne hnil
      · rfl
    rw [List.flatMap_cons, foldl_append, foldl_lines s hcode, hoff, Bool.false_or,
      ih _ (.inl hlines) hsomes hcodes, push, if_neg hlines]
    simp

theorem loadFile_saveCheatFile (h : ∀ cheat ∈ cheats, cheat.SingleLines)
    (hsome : ∀ cheat ∈ cheats, cheat.codeLines ≠ [])
    (hcode : ∀ cheat ∈ cheats, ∀ line ∈ cheat.codeLines, IsCode (cleanLine line)) :
    loadFile (saveCheatFile cheats) = cheats.map GatewayCheat.cleaned := by
  rw [loadFile, splitOn_saveCheatFile h, foldl_append, List.foldl_cons, List.foldl_nil,
    readLine_nil, foldl_cheats {} (.inr rfl) hsome hcode]
  rfl

/-! ## When a file is read as it was written -/

/-- A line starts a cheat, adds its code, or changes neither the cheats nor the code. -/
theorem readLine_cases (s : Loader) (line : Text) :
    (IsCode (cleanLine line) ∧ (s.readLine line).cheats = s.cheats ∧
      (s.readLine line).cheatLines = s.cheatLines ++ [cleanLine line]) ∨
    (¬ IsCode (cleanLine line) ∧
      ((s.readLine line).cheats = s.push ∧ (s.readLine line).cheatLines = [] ∨
        (s.readLine line).cheats = s.cheats ∧ (s.readLine line).cheatLines = s.cheatLines)) := by
  by_cases hcode : IsCode (cleanLine line)
  · left
    rw [readLine_of_isCode hcode]
    exact ⟨hcode, rfl, rfl⟩
  · refine .inr ⟨hcode, ?_⟩
    rw [readLine]
    by_cases hname : 2 ≤ (cleanLine line).length ∧ (cleanLine line).head? = some opening
    · rw [if_pos hname]
      exact .inl ⟨rfl, rfl⟩
    · rw [if_neg hname]
      right
      by_cases hcomment : (cleanLine line).head? = some star
      · rw [if_pos hcomment]
        split_ifs
        · exact ⟨rfl, rfl⟩
        · exact ⟨rfl, rfl⟩
      · rw [if_neg hcomment, if_neg fun hsome => hcode ⟨hsome, hcomment, hname⟩]
        exact ⟨rfl, rfl⟩

/-- Only cheats with code are loaded. -/
theorem codeLines_ne_nil_of_mem_push (h : ∀ cheat ∈ s.cheats, cheat.codeLines ≠ [])
    (hmem : cheat ∈ s.push) : cheat.codeLines ≠ [] := by
  rw [push] at hmem
  split_ifs at hmem with hnil
  · exact h cheat hmem
  · rcases List.mem_append.mp hmem with hmem | hmem
    · exact h cheat hmem
    · rw [mem_singleton.mp hmem]
      exact hnil

theorem codeLines_ne_nil_of_mem_foldl (hmem : cheat ∈ (ls.foldl readLine s).push)
    (h : ∀ cheat ∈ s.cheats, cheat.codeLines ≠ []) : cheat.codeLines ≠ [] := by
  induction ls generalizing s with
  | nil => exact codeLines_ne_nil_of_mem_push h hmem
  | cons line ls ih =>
    refine ih hmem ?_
    rcases readLine_cases s line with ⟨-, hcheats, -⟩ | ⟨-, ⟨hcheats, -⟩ | ⟨hcheats, -⟩⟩
    · rwa [hcheats]
    · rw [hcheats]
      exact fun cheat => codeLines_ne_nil_of_mem_push h
    · rwa [hcheats]

/-- How many lines of code the cheats have. -/
def codeCount (cheats : List GatewayCheat) : Nat :=
  (cheats.flatMap GatewayCheat.codeLines).length

theorem codeCount_push (s : Loader) :
    codeCount s.push = codeCount s.cheats + s.cheatLines.length := by
  rw [push]
  split_ifs with hnil
  · rw [hnil]
    rfl
  · simp [codeCount]

theorem codeCount_foldl (ls : List Text) (s : Loader) :
    codeCount (ls.foldl readLine s).push =
      codeCount s.push + ls.countP fun line => IsCode (cleanLine line) := by
  induction ls generalizing s with
  | nil => rfl
  | cons line ls ih =>
    rw [List.foldl_cons, ih, List.countP_cons, codeCount_push]
    rcases readLine_cases s line with
      ⟨hcode, hcheats, hlines⟩ | ⟨hcode, ⟨hcheats, hlines⟩ | ⟨hcheats, hlines⟩⟩
    · rw [hcheats, hlines, if_pos (decide_eq_true hcode), codeCount_push, List.length_append,
        List.length_singleton]
      omega
    · rw [hcheats, hlines, if_neg (by simpa using hcode)]
      rfl
    · rw [hcheats, hlines, if_neg (by simpa using hcode), codeCount_push]
      rfl

/-- Neither names nor comments are taken for code. -/
theorem countP_lines (cheat : GatewayCheat) :
    (cheat.lines.countP fun line => IsCode (cleanLine line)) =
      cheat.codeLines.countP fun line => IsCode (cleanLine line) := by
  have hname : ¬ IsCode (cleanLine (opening :: cheat.name ++ [closing])) := fun h =>
    h.2.2 ⟨by rw [cleanLine_name]; simp, by rw [cleanLine_name]; rfl⟩
  have hcomment (line : Text) : ¬ IsCode (cleanLine (star :: line)) := fun h =>
    h.2.1 (by rw [cleanLine_star]; rfl)
  have hcomments : (cheat.commentLines.map (star :: ·)).countP
      (fun line => decide (IsCode (cleanLine line))) = 0 := by
    rw [List.countP_eq_zero]
    intro line hline
    obtain ⟨comment, -, rfl⟩ := mem_map.mp hline
    simpa using hcomment comment
  have hmarker : (if cheat.enabled then [star :: enabledText] else []).countP
      (fun line => decide (IsCode (cleanLine line))) = 0 := by
    split_ifs
    · simpa using hcomment enabledText
    · rfl
  rw [GatewayCheat.lines, List.countP_append, List.countP_append, List.countP_append,
    List.countP_append, hcomments, hmarker, List.countP_singleton,
    if_neg (by simpa using hname)]
  simp [IsCode, cleanLine, stripSpaces]

theorem codeCount_loadFile (h : ∀ cheat ∈ cheats, cheat.SingleLines) :
    codeCount (loadFile (saveCheatFile cheats)) =
      (cheats.flatMap GatewayCheat.codeLines).countP fun line => IsCode (cleanLine line) := by
  have hlines : (cheats.flatMap GatewayCheat.lines).countP
      (fun line => decide (IsCode (cleanLine line))) =
      (cheats.flatMap GatewayCheat.codeLines).countP fun line => IsCode (cleanLine line) := by
    rw [List.countP_flatMap, List.countP_flatMap]
    exact congrArg List.sum (List.map_congr_left fun cheat _ => countP_lines cheat)
  rw [loadFile, splitOn_saveCheatFile h, codeCount_foldl, List.countP_append, hlines]
  exact Nat.zero_add _

/-! ## The round trip -/

/-- What is to come back of a cheat. -/
def GatewayCheat.shown (cheat : GatewayCheat) : Text × Bool × List Text × List Text :=
  (cheat.name, cheat.enabled, cheat.codeLines, cheat.commentLines)

/-- The cheats come back, and are saved as the same file again. -/
def RoundTrips (cheats : List GatewayCheat) : Prop :=
  (loadFile (saveCheatFile cheats)).map GatewayCheat.shown = cheats.map GatewayCheat.shown ∧
    saveCheatFile (loadFile (saveCheatFile cheats)) = saveCheatFile cheats

/-- There is code, every line is clean and starts like one of its kind, and no comment is the
marker. -/
structure GatewayCheat.Plain (cheat : GatewayCheat) : Prop where
  name : 0 ∉ cheat.name
  someCode : cheat.codeLines ≠ []
  code : ∀ line ∈ cheat.codeLines, cleanLine line = line ∧ IsCode line
  comments : ∀ line ∈ cheat.commentLines,
    cleanLine (star :: line) = star :: line ∧ line ≠ enabledText

open GatewayCheat (shown codeLines)

theorem commentLines_cleaned (cheat : GatewayCheat) :
    cheat.cleaned.commentLines = keptComments cheat.commentLines := by
  refine splitString_flatMap fun line hline hmem => ?_
  obtain ⟨comment, hcomment, rfl⟩ := mem_map.mp (List.mem_filter.mp hline).1
  have hfilter := (List.rdropWhile_prefix _ _).subset hmem
  exact notMem_of_mem_splitString hcomment (List.mem_filter.mp hfilter).1

theorem map_eq_self_iff {f : Text → Text} : ls.map f = ls ↔ ∀ line ∈ ls, f line = line := by
  conv_lhs => rhs; rw [← List.map_id' ls]
  exact List.map_inj_left

theorem keptComments_eq_iff :
    keptComments ls = ls ↔ ∀ line ∈ ls, cleanComment line = line ∧ line ≠ enabledText := by
  constructor
  · intro h
    have hlength := congrArg List.length h
    have hall : keptComments ls = ls.map cleanComment := by
      refine List.filter_eq_self.mpr (List.length_filter_eq_length_iff.mp ?_)
      exact hlength.trans (List.length_map _).symm
    have hclean := map_eq_self_iff.mp (hall.symm.trans h)
    refine fun line hline => ⟨hclean line hline, ?_⟩
    have hkept : line ∈ keptComments ls := h.symm ▸ hline
    simpa using (List.mem_filter.mp hkept).2
  · intro h
    rw [keptComments, map_eq_self_iff.mpr fun line hline => (h line hline).1]
    exact List.filter_eq_self.mpr fun line hline => by simpa using (h line hline).2

theorem cleanLine_star_eq_iff {line : Text} :
    cleanLine (star :: line) = star :: line ↔ cleanComment line = line := by
  rw [cleanLine_star, List.cons_inj_right]

theorem shown_cleaned_eq_iff (hsome : cheat.codeLines ≠ [])
    (hcode : ∀ line ∈ cheat.codeLines, IsCode (cleanLine line)) :
    cheat.cleaned.shown = cheat.shown ↔ cheat.Plain := by
  have hname : cheat.cleaned.name = cheat.name ↔ 0 ∉ cheat.name :=
    List.filter_eq_self.trans
      ⟨fun h hmem => by simpa using h 0 hmem, fun h c hc => by
        simpa using fun heq : c = 0 => h (heq ▸ hc)⟩
  simp only [shown, Prod.mk.injEq, commentLines_cleaned]
  constructor
  · rintro ⟨hnames, -, hlines, hcomments⟩
    have hclean := map_eq_self_iff.mp hlines
    refine ⟨hname.mp hnames, hsome, fun line hline => ⟨hclean line hline, ?_⟩, ?_⟩
    · exact hclean line hline ▸ hcode line hline
    · exact fun line hline => ⟨cleanLine_star_eq_iff.mpr
        (keptComments_eq_iff.mp hcomments line hline).1,
        (keptComments_eq_iff.mp hcomments line hline).2⟩
  · intro h
    have hclean : ∀ line ∈ cheat.commentLines, cleanComment line = line := fun line hline =>
      cleanLine_star_eq_iff.mp (h.comments line hline).1
    refine ⟨hname.mpr h.name, ?_, map_eq_self_iff.mpr fun line hline => (h.code line hline).1,
      keptComments_eq_iff.mpr fun line hline => ⟨hclean line hline, (h.comments line hline).2⟩⟩
    have hmarks : marks cheat.commentLines = false := by
      rw [marks, map_eq_self_iff.mpr hclean]
      exact decide_eq_false fun hmem => (h.comments _ hmem).2 rfl
    rw [GatewayCheat.cleaned, hmarks, Bool.or_false]

theorem saveCheatFile_congr {cheats' : List GatewayCheat}
    (h : cheats'.map shown = cheats.map shown) :
    saveCheatFile cheats' = saveCheatFile cheats := by
  let write (shown : Text × Bool × List Text × List Text) : Text :=
    opening :: shown.1 ++ [closing, newline] ++
      (if shown.2.1 then star :: enabledText ++ [newline] else []) ++
      shown.2.2.2.flatMap (fun line => star :: line ++ [newline]) ++
      (shown.2.2.1.flatMap (· ++ [newline]) ++ [newline])
  have hwrite (cheats : List GatewayCheat) :
      saveCheatFile cheats = (cheats.map shown).flatMap write := by
    rw [List.flatMap_map]
    rfl
  rw [hwrite, hwrite, h]

/-- Cheats with names and code of single lines come back exactly if each has code, all lines are
clean, no code starts like a name or a comment, and no comment is the marker. -/
theorem roundTrips_iff (cheats : List GatewayCheat)
    (h : ∀ cheat ∈ cheats, cheat.SingleLines) :
    RoundTrips cheats ↔ ∀ cheat ∈ cheats, cheat.Plain := by
  constructor
  · rintro ⟨hshown, -⟩
    have hlines : (loadFile (saveCheatFile cheats)).map codeLines =
        cheats.map codeLines := by
      have hmap := congrArg (List.map fun shown => shown.2.2.1) hshown
      rwa [map_map, map_map] at hmap
    have hsome : ∀ cheat ∈ cheats, cheat.codeLines ≠ [] := by
      intro cheat hcheat
      obtain ⟨loaded, hloaded, heq⟩ :=
        mem_map.mp (hlines.symm ▸ List.mem_map_of_mem (f := codeLines) hcheat)
      exact heq ▸ codeLines_ne_nil_of_mem_foldl hloaded nofun
    have hcode : ∀ cheat ∈ cheats, ∀ line ∈ cheat.codeLines, IsCode (cleanLine line) := by
      have hcount := codeCount_loadFile h
      rw [codeCount, List.flatMap_def, hlines, ← List.flatMap_def] at hcount
      have hall := List.countP_eq_length.mp hcount.symm
      exact fun cheat hcheat line hline =>
        of_decide_eq_true (hall line (List.mem_flatMap.mpr ⟨cheat, hcheat, hline⟩))
    rw [loadFile_saveCheatFile h hsome hcode, map_map] at hshown
    exact fun cheat hcheat => (shown_cleaned_eq_iff (hsome cheat hcheat) (hcode cheat hcheat)).mp
      (List.map_inj_left.mp hshown cheat hcheat)
  · intro hplain
    have hcode : ∀ cheat ∈ cheats, ∀ line ∈ cheat.codeLines, IsCode (cleanLine line) :=
      fun cheat hcheat line hline => by
        obtain ⟨hclean, hcode⟩ := (hplain cheat hcheat).code line hline
        exact hclean.symm ▸ hcode
    have hsome : ∀ cheat ∈ cheats, cheat.codeLines ≠ [] := fun cheat hcheat =>
      (hplain cheat hcheat).someCode
    have hshown : (loadFile (saveCheatFile cheats)).map shown =
        cheats.map shown := by
      rw [loadFile_saveCheatFile h hsome hcode, map_map]
      exact List.map_congr_left fun cheat hcheat =>
        (shown_cleaned_eq_iff (hsome cheat hcheat) (hcode cheat hcheat)).mpr (hplain cheat hcheat)
    exact ⟨hshown, saveCheatFile_congr hshown⟩

/-- Two cheats of which one is enabled, with lines of code and a comment. -/
def twoCheats : List GatewayCheat :=
  [⟨[0x41], [[0x30, 0x31], [0x44, 0x32]], [0x68, 0x69], true⟩, ⟨[0x42], [[0x30]], [], false⟩]

theorem roundTrips_iff_twoCheats : RoundTrips twoCheats := by
  refine (roundTrips_iff twoCheats ?_).mpr (List.forall_mem_cons.mpr
    ⟨⟨by decide, by decide, by decide, by decide⟩, List.forall_mem_singleton.mpr
      ⟨by decide, by decide, by decide, by decide⟩⟩)
  unfold GatewayCheat.SingleLines
  decide

/-- A cheat that is not enabled, with a line of code and the comment `"citra_enabled"`. -/
def markedCheat : GatewayCheat := ⟨[0x41], [[0x30]], enabledText, false⟩

theorem singleLines_markedCheat : ∀ cheat ∈ [markedCheat], cheat.SingleLines := by
  intro cheat hcheat
  rw [mem_singleton.mp hcheat]
  exact ⟨by decide, by decide⟩

/-- It is enabled when it is loaded. -/
theorem not_all_roundTrip :
    ¬ ∀ cheats, (∀ cheat ∈ cheats, cheat.SingleLines) → RoundTrips cheats := by
  intro h
  have hloaded := loadFile_saveCheatFile singleLines_markedCheat (by
    intro cheat hcheat
    rw [mem_singleton.mp hcheat]
    decide) (by
    intro cheat hcheat
    rw [mem_singleton.mp hcheat]
    decide)
  have hshown := (h [markedCheat] singleLines_markedCheat).1
  rw [hloaded] at hshown
  exact absurd (congrArg (List.map fun shown => shown.2.1) hshown) (by decide)

end GbaStation.Cheats
